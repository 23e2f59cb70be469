import LayeredDiagram.Number.Exact
import Mathlib.Data.EReal.Operations

namespace LayeredDiagram.Number

open Float.Model (UnpackedFloat)

-- The value of a number as an extended real. What is not a number has none.
noncomputable def value? (x : Float) : Option EReal :=
  match x.toModel.unpack with
  | .notANumber              => none
  | .infinity .negative      => some ⊥
  | .infinity .positive      => some ⊤
  | .zero _                  => some 0
  | .finite .negative m e _  => some (-(m * 2 ^ e) : ℝ)
  | .finite .positive m e _  => some (m * 2 ^ e : ℝ)

-- Is `x` less than the count `n`? What is not a number is not.
def LessThan (x : Float) (n : Nat) : Prop :=
  ∃ y, value? x = some y ∧ y < n

variable {x : Float} {n k : Nat}

theorem value?_eq_none_iff : value? x = none ↔ x.isNaN := by
  change value? x = none ↔ x.toModel.unpack.isNaN
  unfold value?
  cases x.toModel.unpack with
  | notANumber     => exact ⟨fun _ => rfl, fun _ => rfl⟩
  | zero           => exact ⟨nofun, nofun⟩
  | infinity s     => cases s <;> exact ⟨nofun, nofun⟩
  | finite s m e _ => cases s <;> exact ⟨nofun, nofun⟩

theorem not_lessThan_of_isNaN (h : x.isNaN) : ¬LessThan x n := by
  simp [LessThan, value?_eq_none_iff.mpr h]

theorem LessThan.mono (h : LessThan x n) (hnk : n ≤ k) : LessThan x k :=
  have ⟨y, hy, hn⟩ := h
  ⟨y, hy, hn.trans_le (by exact_mod_cast hnk)⟩

theorem shiftLeft_lt_iff {m : Nat} {e : Int} (he : 0 ≤ e) :
    m <<< e.toNat < n ↔ (m * 2 ^ e : ℝ) < n := by
  obtain ⟨k, rfl⟩ := Int.eq_ofNat_of_zero_le he
  rw [Int.toNat_natCast, Nat.shiftLeft_eq, zpow_natCast]
  exact_mod_cast Iff.rfl

theorem lt_shiftLeft_iff {m : Nat} {e : Int} (he : ¬0 ≤ e) :
    m < n <<< (-e).toNat ↔ (m * 2 ^ e : ℝ) < n := by
  have ⟨k, hk⟩ := Int.eq_ofNat_of_zero_le (show 0 ≤ -e by omega)
  obtain rfl : e = -k := by omega
  have hp : (0 : ℝ) < 2 ^ k := by positivity
  rw [neg_neg, Int.toNat_natCast, Nat.shiftLeft_eq, zpow_neg, zpow_natCast, ← div_eq_mul_inv,
    div_lt_iff₀ hp]
  exact_mod_cast Iff.rfl

theorem negative_lt {m : Nat} (hm : 0 < m) (e : Int) : (-(m * 2 ^ e) : ℝ) < n := by
  have hm' : (0 : ℝ) < m := by exact_mod_cast hm
  calc (-(m * 2 ^ e) : ℝ) < 0 := neg_lt_zero.mpr (mul_pos hm' (zpow_pos two_pos e))
    _ ≤ n := n.cast_nonneg

theorem exceeds_iff : exceeds n x ↔ LessThan x n := by
  unfold exceeds LessThan value?
  cases x.toModel.unpack with
  | notANumber => simp
  | infinity s =>
    cases s with
    | negative => exact ⟨fun _ => ⟨⊥, rfl, EReal.bot_lt_coe n⟩, fun _ => rfl⟩
    | positive =>
      refine ⟨nofun, fun ⟨y, hy, hn⟩ => ?_⟩
      cases hy
      exact absurd hn not_top_lt
  | zero => simp
  | finite s m e hm =>
    cases s with
    | negative =>
      exact ⟨fun _ => ⟨_, rfl, EReal.coe_lt_coe_iff.mpr (negative_lt hm e)⟩, fun _ => rfl⟩
    | positive =>
      have hv : (∃ y, some ((m * 2 ^ e : ℝ) : EReal) = some y ∧ y < n) ↔ (m * 2 ^ e : ℝ) < n := by
        simp only [Option.some.injEq, exists_eq_left']
        exact EReal.coe_lt_coe_iff
      rw [hv]
      by_cases he : 0 ≤ e
      case pos => simpa [he] using shiftLeft_lt_iff he
      case neg => simpa [he] using lt_shiftLeft_iff he

theorem exceeds_mono (hnk : n ≤ k) (h : exceeds n x) : exceeds k x :=
  exceeds_iff.mpr ((exceeds_iff.mp h).mono hnk)

end LayeredDiagram.Number
