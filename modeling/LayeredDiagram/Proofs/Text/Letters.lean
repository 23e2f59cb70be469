import LayeredDiagram.Text.Blank
import Mathlib.Data.List.Basic

namespace LayeredDiagram.Text

variable {c d : Char} {cs ds lead rest : List Char}

theorem toNat_of_isName (h : isName c) : 45 ≤ c.toNat ∧ c.toNat ≤ 122 := by
  simp only [isName, isWord, Bool.or_eq_true, beq_iff_eq] at h
  obtain (h | rfl) | rfl := h
  case inl.inr => decide
  case inr     => decide
  case inl.inl =>
    delta Char.isAlphanum Char.isAlpha Char.isUpper Char.isLower Char.isDigit at h
    simp only [UInt32.le_iff_toNat_le, ge_iff_le, Bool.or_eq_true, Bool.and_eq_true,
      decide_eq_true_eq] at h
    change (65 ≤ c.toNat ∧ c.toNat ≤ 90 ∨ 97 ≤ c.toNat ∧ c.toNat ≤ 122) ∨
      48 ≤ c.toNat ∧ c.toNat ≤ 57 at h
    omega

theorem isBlank_of_isName (h : isName c) : isBlank c = false := by
  have := toNat_of_isName h
  simp only [isBlank, Bool.or_eq_false_iff, Bool.and_eq_false_iff, decide_eq_false_iff_not,
    beq_eq_false_iff_ne]
  omega

theorem isWord_of_isBlank (h : isBlank c) : isWord c = false := by
  refine Bool.eq_false_iff.mpr fun hw => ?_
  have hn : isName c := by simp [isName, hw]
  exact Bool.false_ne_true ((isBlank_of_isName hn).symm.trans h)

theorem eq_of_toLower_eq (hd : d.toNat < 'a'.toNat) (h : c.toLower = d) : c = d := by
  delta Char.toLower at h
  split at h
  case isFalse => exact h
  case isTrue hc =>
    subst h
    have hl : 'A'.val ≤ c.val := hc.left
    have hu : c.val ≤ 'Z'.val := hc.right
    rw [UInt32.le_iff_toNat_le] at hl hu
    change (c.val + ('a'.val - 'A'.val)).toNat < 97 at hd
    change 65 ≤ c.val.toNat at hl
    change c.val.toNat ≤ 90 at hu
    have hs : ('a'.val - 'A'.val).toNat = 32 := by decide
    rw [UInt32.toNat_add, hs] at hd
    omega

-- The same text, up to the case of ASCII letters.
def SameLetters (cs ds : List Char) : Prop :=
  cs.map Char.toLower = ds.map Char.toLower

instance : Decidable (SameLetters cs ds) :=
  inferInstanceAs (Decidable (_ = _))

theorem SameLetters.symm (h : SameLetters cs ds) : SameLetters ds cs :=
  Eq.symm h

-- Characters that come before the letters are the same in both.
theorem SameLetters.mem_of_mem (h : SameLetters cs ds) (hd : d.toNat < 'a'.toNat)
    (hl : d.toLower = d) (hm : d ∈ cs) : d ∈ ds := by
  have hin : d ∈ ds.map Char.toLower := h ▸ hl ▸ List.mem_map_of_mem hm
  obtain ⟨c, hin, hc⟩ := List.mem_map.mp hin
  exact eq_of_toLower_eq hd hc ▸ hin

theorem SameLetters.length_eq (h : SameLetters cs ds) : cs.length = ds.length := by
  simpa using congrArg List.length h

theorem afterLetters_eq_some_iff : afterLetters lead cs = some rest ↔
    ∃ front, SameLetters lead front ∧ cs = front ++ rest := by
  induction lead generalizing cs with
  | nil           => simp [afterLetters, SameLetters, eq_comm]
  | cons a lead hi =>
    cases cs with
    | nil       => simp [afterLetters, SameLetters]
    | cons c cs =>
      rw [afterLetters]
      constructor
      case mp =>
        intro h
        split at h
        case isFalse => nomatch h
        case isTrue hs =>
          obtain ⟨front, hf, rfl⟩ := hi.mp h
          exact ⟨c :: front, congrArg₂ List.cons (beq_iff_eq.mp hs) hf, rfl⟩
      case mpr =>
        intro ⟨front, hf, he⟩
        cases front with
        | nil            => nomatch hf
        | cons d front =>
          obtain ⟨rfl, rfl⟩ := List.cons.inj he
          have ⟨ha, hf⟩ := List.cons.inj hf
          have hs : sameLetter a c := beq_iff_eq.mpr ha
          exact (if_pos hs).trans (hi.mpr ⟨front, hf, rfl⟩)

end LayeredDiagram.Text
