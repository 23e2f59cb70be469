import LayeredDiagram.Proofs.Number.Order
import Mathlib

namespace LayeredDiagram.Number

open Float.Model Float.Model.UnpackedFloat

section Pack

variable {u : UnpackedFloat} {s : Sign} {m b : Nat} {e : Int}

theorem unpack_normal (hm : 0 < m) (hl : 2 ^ 52 ≤ m) (hu : m < 2 ^ 53) (hb : 0 < b) (hb' : b < 2047)
    (he : e = b - 1075) : UnpackedFloat.unpack Format.binary64
      (packComponents Format.binary64 s (BitVec.ofNat 11 b) (BitVec.ofNat 52 m)) =
        .finite s m e hm := by
  have hfull : BitVec.ofNat 11 b ≠ -1#_ := by
    rw [Ne, ← BitVec.toNat_inj]
    simp
    omega
  have hnone : BitVec.ofNat 11 b ≠ 0#_ := by
    rw [Ne, ← BitVec.toNat_inj]
    simp
    omega
  have hmant : (1#1 ++ BitVec.ofNat 52 m).toNat = m := by
    rw [BitVec.toNat_append, ← Nat.shiftLeft_add_eq_or_of_lt (BitVec.isLt _)]
    simp
    omega
  have hexp : ((BitVec.ofNat 11 b).toNat : Int) - ((1023 : Nat) + (52 : Nat)) = e := by
    simp
    omega
  simp only [UnpackedFloat.unpack, unpackMantissa_packComponents, unpackExponent_packComponents,
    unpackSign_packComponents, Sign.ofBitVec_toBitVec]
  rw [if_neg hfull, if_neg hnone]
  congr 1

theorem unpack_subnormal (hm : 0 < m) (hu : m < 2 ^ 52) : UnpackedFloat.unpack Format.binary64
      (packComponents Format.binary64 s 0#11 (BitVec.ofNat 52 m)) = .finite s m (-1074) hm := by
  have hfull : 0#11 ≠ -1#_ := by decide
  have hmant : (BitVec.ofNat 52 m).toNat = m := by
    simp
    omega
  have hblank : BitVec.ofNat 52 m ≠ 0#_ := by
    rw [Ne, ← BitVec.toNat_inj, hmant]
    simp
    omega
  simp only [UnpackedFloat.unpack, unpackMantissa_packComponents, unpackExponent_packComponents,
    unpackSign_packComponents, Sign.ofBitVec_toBitVec]
  rw [if_neg hfull, if_pos trivial, dif_neg hblank]
  congr 1

-- A number is read back from its bits.
theorem unpack_pack (h : IsCanonical u) : (Float.Model.pack u).unpack = u := by
  change UnpackedFloat.unpack Format.binary64 (UnpackedFloat.pack Format.binary64 u) = u
  cases u with
  | notANumber => rfl
  | infinity s => cases s <;> rfl
  | zero s     => cases s <;> rfl
  | finite s m e hm =>
    obtain ⟨hu, he, hs⟩ := isCanonical_finite.mp h
    obtain ⟨b, hb⟩ := Int.eq_ofNat_of_zero_le (show 0 ≤ e + 1075 by omega)
    have hbias : (e + Format.binary64.exponentBias + (52 : Nat)).toNat = b := by
      change (e + (1023 : Nat) + (52 : Nat)).toNat = b
      omega
    have hlog : m.log2 + 1 = Format.binary64.mantissaBits ↔ 2 ^ 52 ≤ m := by
      change m.log2 + 1 = 53 ↔ _
      have := Nat.log2_eq_iff (k := 52) hm.ne'
      omega
    have hbound : ¬2 ^ Format.binary64.exponentBits ≤ b + 1 := by
      change ¬2048 ≤ b + 1
      omega
    rw [UnpackedFloat.pack, hbias, if_neg hbound]
    split_ifs with hn
    case pos => exact unpack_normal hm (hlog.mp hn) hu (by omega) (by omega) (by omega)
    case neg =>
      have := mt hlog.mpr hn
      obtain rfl : e = -1074 := by omega
      exact unpack_subnormal hm (by omega)

-- Beyond the greatest exponent there is nothing but infinity.
theorem pack_of_lt (hm : 0 < m) (he : 971 < e) :
    Float.Model.pack (.finite s m e hm) = Float.Model.pack (.infinity s) := by
  have hbound : 2 ^ Format.binary64.exponentBits ≤
      (e + Format.binary64.exponentBias + (52 : Nat)).toNat + 1 := by
    change 2048 ≤ (e + (1023 : Nat) + (52 : Nat)).toNat + 1
    omega
  have hpack : UnpackedFloat.pack Format.binary64 (.finite s m e hm) =
      UnpackedFloat.pack Format.binary64 (.infinity s) :=
    if_pos hbound
  simp only [Float.Model.pack, hpack]

theorem isCanonical_neg (h : IsCanonical u) : IsCanonical u.neg := by
  cases u with
  | finite => exact h
  | _      => trivial

theorem partsRank?_neg : partsRank? u.neg = (partsRank? u).map (-·) := by
  cases u with
  | notANumber => rfl
  | zero       => rfl
  | _ s        =>
    cases s with
    | positive => rfl
    | negative => exact congrArg some (Int.neg_neg _).symm

theorem rank?_neg (x : Float) : rank? (-x) = (rank? x).map (-·) := by
  have h : (-x).toModel.unpack = x.toModel.unpack.neg :=
    unpack_pack (isCanonical_neg (describes_unpack x).canonical)
  rw [rank?_eq, h, partsRank?_neg, rank?_eq]

end Pack

section Round

variable {s : Sign} {m n k : Nat} {e : Int}

theorem log2_mul_two_pow (hm : m ≠ 0) (k : Nat) : (m * 2 ^ k).log2 = m.log2 + k := by
  induction k with
  | zero      => simp
  | succ k hi =>
    have hne : m * 2 ^ k ≠ 0 := Nat.mul_ne_zero hm (Nat.two_pow_pos k).ne'
    rw [Nat.pow_succ, ← Nat.mul_assoc, Nat.mul_comm, Nat.log2_two_mul hne, hi]
    rfl

-- What is shifted out is nothing.
theorem shiftRight_exact (m k : Nat) :
    ExtendedMantissa.ofMantissaAndAccuracy (m * 2 ^ k) .exact >>> k =
      ExtendedMantissa.ofMantissaAndAccuracy m .exact := by
  induction k generalizing m with
  | zero => rw [Nat.pow_zero, Nat.mul_one]; rfl
  | succ k hi =>
    have hm : m * 2 ^ (k + 1) = 2 * m * 2 ^ k := by rw [Nat.pow_succ]; ac_rfl
    change ExtendedMantissa.shiftRightOne
      (ExtendedMantissa.ofMantissaAndAccuracy (m * 2 ^ (k + 1)) .exact >>> k) = _
    rw [hm, hi]
    simp [ExtendedMantissa.shiftRightOne, ExtendedMantissa.ofMantissaAndAccuracy]

theorem shiftToTargetExponent_exact (hl : 2 ^ 52 ≤ m) (hu : m < 2 ^ 53) (he : -1074 ≤ e + k) :
    shiftToTargetExponent Format.binary64 (m * 2 ^ k) e .exact =
      (ExtendedMantissa.ofMantissaAndAccuracy m .exact, e + k) := by
  have hm : m ≠ 0 := by omega
  have hlog : m.log2 = 52 := (Nat.log2_eq_iff hm).mpr ⟨hl, hu⟩
  have ht : Format.binary64.targetExponent (totalExponent (m * 2 ^ k) e) = e + k := by
    change max (((m * 2 ^ k).log2 : Int) + 1 + e - 53) (-1074) = _
    rw [log2_mul_two_pow hm, hlog]
    omega
  have hk : (e + k - e).toNat = k := by omega
  rw [shiftToTargetExponent, ht, shiftToExponent, hk, shiftRight_exact]

theorem roundWithAccuracy_of_shift {em : ExtendedMantissa} {e' e'' : Int} {m' : Nat} (hm : 0 < m')
    (h : shiftToTargetExponent Format.binary64 m e .exact = (em, e'))
    (h' : shiftToTargetExponent Format.binary64 em.roundedMantissa e' .exact =
      (ExtendedMantissa.ofMantissaAndAccuracy m' .exact, e'')) :
    roundWithAccuracy Format.binary64 s m e .exact = .finite s m' e'' hm := by
  simp only [roundWithAccuracy, h, h']
  exact dif_neg hm.ne'

theorem roundWithAccuracy_exact (hm : 0 < m) (hl : 2 ^ 52 ≤ m) (hu : m < 2 ^ 53)
    (he : -1074 ≤ e + k) :
    roundWithAccuracy Format.binary64 s (m * 2 ^ k) e .exact = .finite s m (e + k) hm := by
  have hshift := shiftToTargetExponent_exact (k := 0) hl hu (e := e + k) (by omega)
  rw [Nat.pow_zero, Nat.mul_one, Int.natCast_zero, Int.add_zero] at hshift
  exact roundWithAccuracy_of_shift hm (shiftToTargetExponent_exact hl hu he) hshift

theorem mantissa_shiftRight (em : ExtendedMantissa) (k : Nat) :
    (em >>> k).mantissa = em.mantissa / 2 ^ k := by
  induction k with
  | zero      => exact (Nat.div_one _).symm
  | succ k hi =>
    change (em >>> k).mantissa / 2 = _
    rw [hi, Nat.div_div_eq_div_mul, Nat.pow_succ]

theorem roundedMantissa_bounds (em : ExtendedMantissa) :
    em.mantissa ≤ em.roundedMantissa ∧ em.roundedMantissa ≤ em.mantissa + 1 := by
  obtain ⟨m, round, sticky⟩ := em
  have := Nat.mod_lt m Nat.two_pos
  cases round <;> cases sticky <;>
    simp only [ExtendedMantissa.roundedMantissa, ExtendedMantissa.accuracy,
      Accuracy.roundToNearestEven] <;> omega

-- What is at least as precise as full precision is rounded to that.
theorem exists_roundWithAccuracy (hl : 2 ^ 52 ≤ m) (he : -1074 ≤ (m.log2 : Int) - 52 + e) :
    ∃ m' e', ∃ hm : 0 < m', 2 ^ 52 ≤ m' ∧ m' < 2 ^ 53 ∧ (m.log2 : Int) - 52 + e ≤ e' ∧
      roundWithAccuracy Format.binary64 s m e .exact = .finite s m' e' hm := by
  have hm : m ≠ 0 := by omega
  obtain ⟨k, hk⟩ := Nat.exists_eq_add_of_le ((Nat.le_log2 hm).mpr hl)
  have ht : Format.binary64.targetExponent (totalExponent m e) = e + k := by
    change max ((m.log2 : Int) + 1 + e - 53) (-1074) = _
    omega
  have hshift : shiftToTargetExponent Format.binary64 m e .exact =
      (ExtendedMantissa.ofMantissaAndAccuracy m .exact >>> k, e + k) := by
    have hk' : (e + k - e).toNat = k := by omega
    rw [shiftToTargetExponent, ht, shiftToExponent, hk']
  generalize hem : ExtendedMantissa.ofMantissaAndAccuracy m .exact >>> k = em at hshift
  have hmant : em.mantissa = m / 2 ^ k := by rw [← hem, mantissa_shiftRight]; rfl
  have hlow : 2 ^ 52 ≤ em.mantissa := by
    rw [hmant, Nat.le_div_iff_mul_le (Nat.two_pow_pos k), ← Nat.pow_add, ← hk]
    exact Nat.log2_self_le hm
  have hhigh : em.mantissa < 2 ^ 53 := by
    have h53 : 53 + k = m.log2 + 1 := by omega
    rw [hmant, Nat.div_lt_iff_lt_mul (Nat.two_pow_pos k), ← Nat.pow_add, h53]
    exact Nat.lt_log2_self
  have hr := roundedMantissa_bounds em
  obtain hlt | heq : em.roundedMantissa < 2 ^ 53 ∨ em.roundedMantissa = 2 ^ 52 * 2 ^ 1 := by omega
  case inl =>
    have hagain := shiftToTargetExponent_exact (k := 0) (hlow.trans hr.left) hlt (e := e + k)
      (by omega)
    rw [Nat.pow_zero, Nat.mul_one, Int.natCast_zero, Int.add_zero] at hagain
    exact ⟨_, _, by omega, by omega, hlt, by omega, roundWithAccuracy_of_shift _ hshift hagain⟩
  case inr =>
    have hagain := shiftToTargetExponent_exact (m := 2 ^ 52) (k := 1) (e := e + k) (Nat.le_refl _)
      (by decide) (by omega)
    rw [← heq] at hagain
    exact ⟨_, _, by decide, Nat.le_refl _, by decide, by omega,
      roundWithAccuracy_of_shift _ hshift hagain⟩

end Round

end LayeredDiagram.Number
