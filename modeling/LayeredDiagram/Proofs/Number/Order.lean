import LayeredDiagram.Number.Exact
import Mathlib.Algebra.Group.Nat.Defs
import Mathlib.Algebra.Order.Group.Int
import Mathlib.Order.Compare
import Mathlib.Tactic.SplitIfs

namespace LayeredDiagram.Number

open Float.Model Float.Model.UnpackedFloat

-- The rank of a number by its parts. The exponents start at -1074.
def partsRank? : UnpackedFloat → Option Int
  | .notANumber     => none
  | .infinity s     => some (s.apply (2047 * 2 ^ 52))
  | .zero _         => some 0
  | .finite s m e _ => some (s.apply ((e + 1074) * 2 ^ 52 + m))

-- The exponent is the least one with which the mantissa still fits.
def IsCanonical : UnpackedFloat → Prop
  | .finite _ m e _ => m < 2 ^ 53 ∧ e ≤ 971 ∧ (e = -1074 ∨ (-1074 ≤ e ∧ 2 ^ 52 ≤ m))
  | _               => True

theorem isCanonical_finite {s : Sign} {m : Nat} {e : Int} {hm : 0 < m} :
    IsCanonical (.finite s m e hm) ↔
      m < 2 ^ 53 ∧ e ≤ 971 ∧ (e = -1074 ∨ (-1074 ≤ e ∧ 2 ^ 52 ≤ m)) :=
  .rfl

def signOf (bits : Nat) : Sign :=
  if bits < 2 ^ 63 then .positive else .negative

-- The parts `u` of a number agree with its bits.
structure Describes (u : UnpackedFloat) (bits : Nat) : Prop where
  rank      : partsRank? u =
    if 2047 * 2 ^ 52 < bits % 2 ^ 63 then none else some ((signOf bits).apply (bits % 2 ^ 63 : Nat))
  canonical : IsCanonical u

variable {x y : Float} {i j : Int} {u v : UnpackedFloat}

section Bits

variable (b : BitVec 64)

theorem toNat_unpackMantissa :
    (@unpackMantissa Format.binary64 b).toNat = b.toNat % 2 ^ 52 := by
  simp [unpackMantissa]

theorem toNat_unpackExponent :
    (@unpackExponent Format.binary64 b).toNat = b.toNat / 2 ^ 52 % 2 ^ 11 := by
  simp [unpackExponent, Nat.shiftRight_eq_div_pow]

theorem ofBitVec_unpackSign :
    Sign.ofBitVec (@unpackSign Format.binary64 b) = signOf b.toNat := by
  have := b.isLt
  have hs : (@unpackSign Format.binary64 b).toNat = b.toNat / 2 ^ 63 := by
    change (b.extractLsb 63 63).toNat = _
    rw [BitVec.extractLsb_toNat, Nat.shiftRight_eq_div_pow]
    omega
  rw [Sign.ofBitVec, signOf]
  congr 1
  rw [← BitVec.toNat_inj, hs, eq_iff_iff]
  simp

-- The bit that is not written in front of the mantissa.
theorem toNat_leadingBit : (1#1 ++ @unpackMantissa Format.binary64 b).toNat =
    2 ^ 52 + b.toNat % 2 ^ 52 := by
  have hlt : (@unpackMantissa Format.binary64 b).toNat < 2 ^ 52 := BitVec.isLt _
  rw [BitVec.toNat_append, ← Nat.shiftLeft_add_eq_or_of_lt hlt, toNat_unpackMantissa]
  rfl

end Bits

section Parts

variable {n m : Nat} {e : Int}

theorem describes_infinity (h : n % 2 ^ 63 = 2047 * 2 ^ 52) :
    Describes (.infinity (signOf n)) n := by
  refine ⟨?_, trivial⟩
  rw [h, if_neg (Nat.lt_irrefl _)]
  rfl

theorem describes_notANumber (h : 2047 * 2 ^ 52 < n % 2 ^ 63) : Describes .notANumber n :=
  ⟨(if_pos h).symm, trivial⟩

theorem describes_zero (h : n % 2 ^ 63 = 0) : Describes (.zero (signOf n)) n := by
  refine ⟨?_, trivial⟩
  rw [h]
  cases signOf n <;> rfl

theorem describes_finite (hp : 0 < m)
    (h : n / 2 ^ 52 % 2 ^ 11 = 0 ∧ m = n % 2 ^ 52 ∧ e = -1074 ∨
      0 < n / 2 ^ 52 % 2 ^ 11 ∧ n / 2 ^ 52 % 2 ^ 11 < 2047 ∧ m = 2 ^ 52 + n % 2 ^ 52 ∧
        e = (n / 2 ^ 52 % 2 ^ 11 : Nat) - 1075) :
    Describes (.finite (signOf n) m e hp) n := by
  constructor
  case canonical => exact isCanonical_finite.mpr (by omega)
  case rank =>
    have hn : ((n % 2 ^ 63 : Nat) : Int) = (e + 1074) * 2 ^ 52 + m := by omega
    rw [if_neg (by omega), hn]
    rfl

end Parts

theorem describes_unpack (x : Float) : Describes x.toModel.unpack x.toBits.toNat := by
  have hlt := x.toBits.toBitVec.isLt
  change Describes (UnpackedFloat.unpack Format.binary64 x.toBits.toBitVec) x.toBits.toBitVec.toNat
  generalize x.toBits.toBitVec = b at hlt
  have hm := toNat_unpackMantissa b
  have he := toNat_unpackExponent b
  have hl := toNat_leadingBit b
  have hfull : @unpackExponent Format.binary64 b = -1#_ ↔ b.toNat / 2 ^ 52 % 2 ^ 11 = 2047 := by
    rw [← BitVec.toNat_inj, he]
    rfl
  have hnone : @unpackExponent Format.binary64 b = 0#_ ↔ b.toNat / 2 ^ 52 % 2 ^ 11 = 0 := by
    rw [← BitVec.toNat_inj, he]
    rfl
  have hblank : @unpackMantissa Format.binary64 b = 0#_ ↔ b.toNat % 2 ^ 52 = 0 := by
    rw [← BitVec.toNat_inj, hm]
    rfl
  have hbias : ((Format.binary64.exponentBias : Int) + (52 : Nat)) = 1075 := rfl
  unfold UnpackedFloat.unpack
  dsimp only
  rw [ofBitVec_unpackSign b]
  by_cases hf : @unpackExponent Format.binary64 b = -1#_
  case pos =>
    have := hfull.mp hf
    rw [if_pos hf]
    by_cases hz : @unpackMantissa Format.binary64 b = 0#_
    case pos =>
      have := hblank.mp hz
      rw [if_pos hz]
      exact describes_infinity (by omega)
    case neg =>
      have := mt hblank.mpr hz
      rw [if_neg hz]
      exact describes_notANumber (by omega)
  case neg =>
    rw [if_neg hf]
    by_cases hn : @unpackExponent Format.binary64 b = 0#_
    case neg =>
      have := mt hfull.mpr hf
      have := mt hnone.mpr hn
      rw [if_neg hn]
      refine describes_finite _ (.inr ⟨by omega, by omega, hl, ?_⟩)
      rw [he]
      exact congrArg _ hbias
    case pos =>
      have := hnone.mp hn
      rw [if_pos hn]
      by_cases hz : @unpackMantissa Format.binary64 b = 0#_
      case pos =>
        have := hblank.mp hz
        rw [dif_pos hz]
        exact describes_zero (by omega)
      case neg =>
        rw [dif_neg hz]
        refine describes_finite _ (.inl ⟨hnone.mp hn, hm, ?_⟩)
        rw [he, hnone.mp hn]
        rfl

theorem partsRank?_eq_none_iff : partsRank? u = none ↔ u.isNaN := by
  cases u with
  | notANumber => exact iff_of_true rfl rfl
  | _          => exact iff_of_false nofun nofun

-- The rank of a number is read off its bits, while numbers are compared by their parts. Both give
-- one order.
theorem rank?_eq : rank? x = partsRank? x.toModel.unpack := by
  have hr := (describes_unpack x).rank
  have hn : x.isNaN = true ↔ partsRank? x.toModel.unpack = none := partsRank?_eq_none_iff.symm
  rw [rank?]
  by_cases hx : x.isNaN
  case pos => rw [if_pos hx, hn.mp hx]
  case neg =>
    rw [if_neg hx]
    split_ifs at hr with hb
    case pos => exact absurd (hn.mpr hr) hx
    case neg =>
      rw [hr, signOf]
      by_cases hlt : x.toBits.toNat < 2 ^ 63
      case pos =>
        have hs : isNegative x = false := decide_eq_false (Nat.not_le.mpr hlt)
        rw [hs, if_pos hlt]
        rfl
      case neg =>
        have hs : isNegative x = true := decide_eq_true (Nat.le_of_not_lt hlt)
        rw [hs, if_neg hlt]
        rfl

theorem compare_neg (i j : Int) : compare (-i) (-j) = (compare i j).swap := by
  obtain h | rfl | h := lt_trichotomy i j
  case inl     => rw [compare_lt_iff_lt.mpr h, compare_gt_iff_gt.mpr (Int.neg_lt_neg h)]; rfl
  case inr.inl => rw [compare_eq_iff_eq.mpr rfl, compare_eq_iff_eq.mpr rfl]; rfl
  case inr.inr => rw [compare_gt_iff_gt.mpr h, compare_lt_iff_lt.mpr (Int.neg_lt_neg h)]; rfl

theorem compare_parts {s t : Sign} {m n : Nat} {e f : Int} {hm : 0 < m} {hn : 0 < n}
    (hu : IsCanonical (.finite s m e hm)) (hv : IsCanonical (.finite t n f hn)) :
    (compare e f).then (compare m n) =
      compare ((e + 1074) * 2 ^ 52 + m : Int) ((f + 1074) * 2 ^ 52 + n) := by
  rw [isCanonical_finite] at hu hv
  obtain h | rfl | h := lt_trichotomy e f
  case inl =>
    rw [compare_lt_iff_lt.mpr h, eq_comm]
    exact compare_lt_iff_lt.mpr (by omega)
  case inr.inr =>
    rw [compare_gt_iff_gt.mpr h, eq_comm]
    exact compare_gt_iff_gt.mpr (by omega)
  case inr.inl =>
    rw [compare_eq_iff_eq.mpr rfl, Ordering.eq_then]
    obtain h | rfl | h := lt_trichotomy m n
    case inl     => exact (compare_lt_iff_lt.mpr h).trans (compare_lt_iff_lt.mpr (by omega)).symm
    case inr.inl => exact (compare_eq_iff_eq.mpr rfl).trans (compare_eq_iff_eq.mpr rfl).symm
    case inr.inr => exact (compare_gt_iff_gt.mpr h).trans (compare_gt_iff_gt.mpr (by omega)).symm

-- Between infinities, zeros and the rest the signs decide. Only two finite numbers of one sign have
-- to be compared by their parts.
theorem compare_eq (hu : IsCanonical u) (hv : IsCanonical v) (hi : partsRank? u = some i)
    (hj : partsRank? v = some j) : u.compare v = some (compare i j) := by
  have hlt {i j : Int} (h : i < j) : some .lt = some (compare i j) :=
    congrArg some (compare_lt_iff_lt.mpr h).symm
  have hgt {i j : Int} (h : j < i) : some .gt = some (compare i j) :=
    congrArg some (compare_gt_iff_gt.mpr h).symm
  cases u with
  | notANumber => nomatch hi
  | infinity s =>
    cases hi
    cases v with
    | notANumber => nomatch hj
    | infinity t =>
      cases hj
      cases s <;> cases t <;> rfl
    | zero =>
      cases hj
      cases s <;> rfl
    | finite t n f =>
      cases hj
      rw [isCanonical_finite] at hv
      cases s <;> cases t <;> dsimp only [Sign.apply] <;>
        first | exact hlt (by omega) | exact hgt (by omega)
  | zero =>
    cases hi
    cases v with
    | notANumber => nomatch hj
    | infinity t =>
      cases hj
      cases t <;> rfl
    | zero =>
      cases hj
      rfl
    | finite t n f =>
      cases hj
      rw [isCanonical_finite] at hv
      cases t <;> dsimp only [Sign.apply] <;>
        first | exact hlt (by omega) | exact hgt (by omega)
  | finite s m e =>
    cases hi
    have hm := isCanonical_finite.mp hu
    cases v with
    | notANumber => nomatch hj
    | infinity t =>
      cases hj
      cases s <;> cases t <;> dsimp only [Sign.apply] <;>
        first | exact hlt (by omega) | exact hgt (by omega)
    | zero =>
      cases hj
      cases s <;> dsimp only [Sign.apply] <;>
        first | exact hlt (by omega) | exact hgt (by omega)
    | finite t n f =>
      cases hj
      have hn := isCanonical_finite.mp hv
      cases s <;> cases t <;> dsimp only [Sign.apply, UnpackedFloat.compare]
      case negative.negative => rw [compare_parts hu hv, compare_neg]
      case negative.positive => exact hlt (by omega)
      case positive.negative => exact hgt (by omega)
      case positive.positive => rw [compare_parts hu hv]

theorem lt_iff_rank?_lt (hi : rank? x = some i) (hj : rank? y = some j) : x < y ↔ i < j := by
  have hc := compare_eq (describes_unpack x).canonical (describes_unpack y).canonical
    (rank?_eq.symm.trans hi) (rank?_eq.symm.trans hj)
  change decide (UnpackedFloat.lt _ _ = true) = true ↔ _
  rw [decide_eq_true_eq, UnpackedFloat.lt, hc, beq_iff_eq, Option.some.injEq, compare_lt_iff_lt]

theorem le_iff_rank?_le (hi : rank? x = some i) (hj : rank? y = some j) : x ≤ y ↔ i ≤ j := by
  have hc := compare_eq (describes_unpack x).canonical (describes_unpack y).canonical
    (rank?_eq.symm.trans hi) (rank?_eq.symm.trans hj)
  change decide (UnpackedFloat.le _ _ = true) = true ↔ _
  rw [decide_eq_true_eq, UnpackedFloat.le, hc, Option.any_some, Ordering.isLE_iff_ne_gt,
    compare_gt_iff_gt, Int.not_lt]

theorem beq_iff_rank?_eq (hi : rank? x = some i) (hj : rank? y = some j) : x == y ↔ i = j := by
  have hc := compare_eq (describes_unpack x).canonical (describes_unpack y).canonical
    (rank?_eq.symm.trans hi) (rank?_eq.symm.trans hj)
  change (UnpackedFloat.compare _ _ == some .eq) = true ↔ _
  rw [hc, beq_iff_eq, Option.some.injEq, compare_eq_iff_eq]

-- Numbers are comparable only if both have a rank.
theorem exists_rank?_of_le (h : x ≤ y) : ∃ i j, rank? x = some i ∧ rank? y = some j ∧ i ≤ j := by
  have hc : x.toModel.unpack.le y.toModel.unpack := of_decide_eq_true h
  have hu := (describes_unpack x).canonical
  have hv := (describes_unpack y).canonical
  rw [rank?_eq, rank?_eq]
  generalize x.toModel.unpack = u at hc hu
  generalize y.toModel.unpack = v at hc hv
  rw [UnpackedFloat.le] at hc
  cases hi : partsRank? u with
  | none   =>
    cases u with
    | notANumber => nomatch hc
    | _          => nomatch hi
  | some i =>
    cases hj : partsRank? v with
    | none   =>
      cases v with
      | notANumber => cases u <;> nomatch hc
      | _          => nomatch hj
    | some j =>
      rw [compare_eq hu hv hi hj, Option.any_some, Ordering.isLE_iff_ne_gt] at hc
      exact ⟨i, j, rfl, rfl, Int.not_lt.mp (mt compare_gt_iff_gt.mpr hc)⟩

theorem not_lt_of_le (h : x ≤ y) : ¬y < x := by
  have ⟨i, j, hi, hj, hij⟩ := exists_rank?_of_le h
  rw [lt_iff_rank?_lt hj hi]
  omega

-- The ranks of the infinities are out of reach.
theorem isFinite_iff :
    x.isFinite ↔ ∃ i, rank? x = some i ∧ -(2047 * 2 ^ 52) < i ∧ i < 2047 * 2 ^ 52 := by
  have hu := (describes_unpack x).canonical
  rw [rank?_eq]
  change x.toModel.unpack.isFinite = true ↔ _
  generalize x.toModel.unpack = u at hu
  cases u with
  | notANumber     =>
    refine iff_of_false nofun ?_
    rintro ⟨i, hi, -⟩
    nomatch hi
  | infinity s     =>
    refine iff_of_false nofun ?_
    rintro ⟨i, hi, hlow, hhigh⟩
    cases hi
    cases s <;> dsimp only [Sign.apply] at hlow hhigh <;> omega
  | zero           => exact iff_of_true rfl ⟨0, rfl, by decide, by decide⟩
  | finite s m e _ =>
    rw [isCanonical_finite] at hu
    refine iff_of_true rfl ⟨_, rfl, ?_⟩
    cases s <;> dsimp only [Sign.apply] <;> omega

theorem isFinite_of_between {low high : Float} (hl : low.isFinite) (hh : high.isFinite)
    (h₁ : low ≤ x) (h₂ : x ≤ high) : x.isFinite := by
  have ⟨i, j, hi, hj, hij⟩ := exists_rank?_of_le h₁
  have ⟨j', k, hj', hk, hjk⟩ := exists_rank?_of_le h₂
  have ⟨i', hi', hlow, _⟩ := isFinite_iff.mp hl
  have ⟨k', hk', _, hhigh⟩ := isFinite_iff.mp hh
  obtain rfl := Option.some.inj (hi.symm.trans hi')
  obtain rfl := Option.some.inj (hj.symm.trans hj')
  obtain rfl := Option.some.inj (hk.symm.trans hk')
  exact isFinite_iff.mpr ⟨j, hj, by omega, by omega⟩

theorem exists_rank?_of_isFinite (h : x.isFinite) : ∃ i, rank? x = some i :=
  have ⟨i, hi, _⟩ := isFinite_iff.mp h
  ⟨i, hi⟩

theorem le_iff_not_lt (hx : x.isFinite) (hy : y.isFinite) : x ≤ y ↔ ¬y < x := by
  have ⟨i, hi⟩ := exists_rank?_of_isFinite hx
  have ⟨j, hj⟩ := exists_rank?_of_isFinite hy
  rw [le_iff_rank?_le hi hj, lt_iff_rank?_lt hj hi, Int.not_lt]

theorem isNaN_of_isFinite (h : x.isFinite) : x.isNaN = false := by
  have ⟨i, hi⟩ := exists_rank?_of_isFinite h
  rw [← Bool.not_eq_true]
  intro hx
  rw [rank?, if_pos hx] at hi
  nomatch hi

end LayeredDiagram.Number
