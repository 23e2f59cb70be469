import LayeredDiagram.Text.Half
import Mathlib.Data.List.Basic

namespace LayeredDiagram.Text

variable {c : Char} {cs done : List Char} {n unit : Nat}

theorem toNat_ofNat (h : n.isValidChar) : (Char.ofNat n).toNat = n := by
  rw [Char.ofNat, dif_pos h]
  rfl

theorem pointOf_half (h : 0xD800 ≤ unit ∧ unit < 0xE000) :
    isHalf (half unit) ∧ pointOf (half unit) = unit := by
  have hn : (half unit).toNat = unit - 0xD800 + firstHalf := by
    rw [half, toNat_ofNat]
    rw [firstHalf]
    exact .inr (by omega)
  have hh : isHalf (half unit) := by
    rw [isHalf, hn]
    simp
  refine ⟨hh, ?_⟩
  rw [pointOf, if_pos hh, hn]
  omega

theorem isHighHalf_half (h : isHigh unit) :
    isHighHalf (half unit) ∧ pointOf (half unit) = unit := by
  have hr : 0xD800 ≤ unit ∧ unit < 0xDC00 := by simpa [isHigh] using h
  have ⟨hh, hp⟩ := pointOf_half (show 0xD800 ≤ unit ∧ unit < 0xE000 by omega)
  exact ⟨by rw [isHighHalf, hh, hp, h]; rfl, hp⟩

theorem isLowHalf_half (h : isLow unit) : isLowHalf (half unit) ∧ pointOf (half unit) = unit := by
  have hr : 0xDC00 ≤ unit ∧ unit < 0xE000 := by simpa [isLow] using h
  have ⟨hh, hp⟩ := pointOf_half (show 0xD800 ≤ unit ∧ unit < 0xE000 by omega)
  exact ⟨by rw [isLowHalf, hh, hp, h]; rfl, hp⟩

theorem isHigh_highOf (hl : 0x10000 ≤ n) (hu : n < 0x110000) : isHigh (highOf n) := by
  have hb : 0xD800 ≤ highOf n ∧ highOf n < 0xDC00 := by
    unfold highOf
    omega
  rw [isHigh, decide_eq_true hb.left, decide_eq_true hb.right]
  rfl

theorem isLow_lowOf : isLow (lowOf n) := by
  have hb : 0xDC00 ≤ lowOf n ∧ lowOf n < 0xE000 := by
    unfold lowOf
    omega
  rw [isLow, decide_eq_true hb.left, decide_eq_true hb.right]
  rfl

theorem pairPoint_halves (h : 0x10000 ≤ n) : pairPoint (highOf n) (lowOf n) = n := by
  unfold pairPoint highOf lowOf
  omega

-- The halves of a character beyond U+FFFF, put together.
theorem go_halves (hl : 0x10000 ≤ n) (hu : n < 0x110000) :
    joinHalves.go (half (highOf n) :: half (lowOf n) :: cs) done =
      joinHalves.go cs (Char.ofNat n :: done) := by
  have ⟨hhigh, hph⟩ := isHighHalf_half (isHigh_highOf hl hu)
  have ⟨hlow, hpl⟩ := isLowHalf_half (isLow_lowOf (n := n))
  rw [joinHalves.go, hhigh, hlow, hph, hpl, pairPoint_halves hl]
  rfl

theorem ofPoint_of_isHalf (h : isHalf c) :
    ofPoint c.toNat = [half (highOf c.toNat), half (lowOf c.toNat)] := by
  have hf : firstHalf ≤ c.toNat := of_decide_eq_true h
  have hs : ¬(isHigh c.toNat || isLow c.toNat) := by
    simp only [isHigh, isLow, firstHalf, Bool.or_eq_true, Bool.and_eq_true, decide_eq_true_eq] at *
    omega
  rw [ofPoint, if_neg hs, if_pos hf]

theorem ofPoint_of_not_isHalf (h : ¬isHalf c) : ofPoint c.toNat = [c] := by
  have hf : ¬firstHalf ≤ c.toNat := of_decide_eq_false (Bool.eq_false_iff.mpr h)
  have hv : c.toNat < 0xD800 ∨ 0xDFFF < c.toNat ∧ c.toNat < 0x110000 := c.valid
  have hs : ¬(isHigh c.toNat || isLow c.toNat) := by
    simp only [isHigh, isLow, Bool.or_eq_true, Bool.and_eq_true, decide_eq_true_eq]
    omega
  rw [ofPoint, if_neg hs, if_neg hf, Char.ofNat_toNat]

theorem go_ofPoint : joinHalves.go (ofPoint c.toNat ++ cs) done = joinHalves.go cs (c :: done) := by
  by_cases h : isHalf c
  case pos =>
    have hl : firstHalf ≤ c.toNat := of_decide_eq_true h
    have hv : c.toNat < 0xD800 ∨ 0xDFFF < c.toNat ∧ c.toNat < 0x110000 := c.valid
    rw [firstHalf] at hl
    rw [ofPoint_of_isHalf h, List.cons_append, List.cons_append, List.nil_append,
      go_halves (by omega) (by omega), Char.ofNat_toNat]
  case neg =>
    rw [ofPoint_of_not_isHalf h]
    cases cs with
    | nil       => simp [joinHalves.go, h]
    | cons d cs => simp [joinHalves.go, isHighHalf, h]

theorem joinHalves_flatMap (cs : List Char) :
    joinHalves (cs.flatMap fun c => ofPoint c.toNat) = cs := by
  have h (done : List Char) : joinHalves.go (cs.flatMap fun c => ofPoint c.toNat) done =
      done.reverse ++ cs := by
    induction cs generalizing done with
    | nil          => simp [joinHalves.go]
    | cons c cs hi => rw [List.flatMap_cons, go_ofPoint, hi]; simp
  rw [joinHalves, h]
  rfl

theorem any_flatMap_ofPoint (h : cs.any isHalf) :
    (cs.flatMap fun c => ofPoint c.toNat).any isHalf := by
  obtain ⟨c, hc, hh⟩ := List.any_eq_true.mp h
  refine List.any_eq_true.mpr ⟨half (lowOf c.toNat), List.mem_flatMap.mpr ⟨c, hc, ?_⟩, ?_⟩
  case refine_1 => simp [ofPoint_of_isHalf hh]
  case refine_2 =>
    have hl := (isLowHalf_half (isLow_lowOf (n := c.toNat))).left
    exact (Bool.and_eq_true_iff.mp hl).left

-- Halves apart, a text is sent as it is.
theorem toCharacters_of_any {s : String} (h : s.toList.any isHalf = false) :
    toCharacters s = s := by
  have ha : s.any isHalf = false := String.contains_bool_eq.trans h
  rw [toCharacters, ha]
  rfl

theorem mended_of_any {s : String} (h : s.toList.any isHalf = false) : mended s = s := by
  have ha : s.any isHalf = false := String.contains_bool_eq.trans h
  rw [mended, toCharacters_of_any h, ofCharacters, ha]
  rfl

theorem toCharacters_ofCharacters (s : String) : toCharacters (ofCharacters s) = s := by
  by_cases h : s.any isHalf
  case neg => rw [ofCharacters, if_neg h, toCharacters, if_neg h]
  case pos =>
    have hs : ofCharacters s = String.ofList (s.toList.flatMap fun c => ofPoint c.toNat) := if_pos h
    have hh : (ofCharacters s).any isHalf := by
      refine String.contains_bool_eq.trans ?_
      rw [hs, String.toList_ofList]
      exact any_flatMap_ofPoint (String.contains_bool_eq.symm.trans h)
    rw [toCharacters, if_pos hh, hs, String.toList_ofList, joinHalves_flatMap, String.ofList_toList]

-- What has been sent or stored once is sent and stored as it is.
theorem mended_mended (s : String) : mended (mended s) = mended s := by
  rw [mended, mended, toCharacters_ofCharacters]

end LayeredDiagram.Text
