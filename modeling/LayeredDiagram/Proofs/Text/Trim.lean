import LayeredDiagram.Text.Blank
import Mathlib.Data.List.DropRight

namespace LayeredDiagram.Text

variable {cs before after : List Char}

-- There is something, and no blank at either end.
def Trimmed (cs : List Char) : Prop :=
  cs ≠ [] ∧ trim cs = cs

instance : Decidable (Trimmed cs) :=
  inferInstanceAs (Decidable (cs ≠ [] ∧ trim cs = cs))

theorem trimEnd_prefix : trimEnd cs <+: cs :=
  List.rdropWhile_prefix isBlank cs

theorem trimStart_eq_self_iff : trimStart cs = cs ↔ ∀ c ∈ cs.head?, isBlank c = false := by
  cases cs <;> simp [trimStart, List.dropWhile_eq_self_iff]

theorem trimEnd_eq_self_iff : trimEnd cs = cs ↔ ∀ c ∈ cs.getLast?, isBlank c = false := by
  rw [← List.head?_reverse, ← trimStart_eq_self_iff, trimEnd, trimStart, List.reverse_eq_iff]

theorem trim_eq_self_iff : trim cs = cs ↔
    (∀ c ∈ cs.head?, isBlank c = false) ∧ ∀ c ∈ cs.getLast?, isBlank c = false := by
  rw [← trimStart_eq_self_iff, ← trimEnd_eq_self_iff, trim]
  constructor
  case mpr => exact fun ⟨hs, he⟩ => by rw [hs, he]
  case mp =>
    intro h
    -- What is cut off at the start would be missing at the end.
    have hl : cs.length ≤ (trimStart cs).length :=
      (congrArg List.length h).symm.trans_le trimEnd_prefix.length_le
    have hs : trimStart cs = cs := (List.dropWhile_suffix isBlank).eq_of_length_le hl
    exact ⟨hs, by rwa [hs] at h⟩

theorem trim_trim : trim (trim cs) = trim cs := by
  refine trim_eq_self_iff.mpr ⟨fun c hc => ?_, ?_⟩
  case refine_1 =>
    have hs : trimStart (trimStart cs) = trimStart cs := List.dropWhile_idempotent isBlank cs
    obtain ⟨as, ha⟩ : trim cs <+: trimStart cs := trimEnd_prefix
    refine trimStart_eq_self_iff.mp hs c ?_
    rw [← ha, List.head?_append, Option.mem_def.mp hc]
    rfl
  case refine_2 => exact trimEnd_eq_self_iff.mp (List.rdropWhile_idempotent isBlank _)

theorem trimStart_eq_nil_iff : trimStart cs = [] ↔ ∀ c ∈ cs, isBlank c :=
  List.dropWhile_eq_nil_iff

theorem trim_eq_nil_iff : trim cs = [] ↔ ∀ c ∈ cs, isBlank c := by
  rw [← trimStart_eq_nil_iff]
  constructor
  case mpr => exact fun h => by rw [trim, h]; rfl
  case mp =>
    intro h
    have hb : ∀ c ∈ trimStart cs, isBlank c := List.rdropWhile_eq_nil_iff.mp h
    rw [← trimStart_eq_nil_iff.mpr hb]
    exact (List.dropWhile_idempotent isBlank cs).symm

theorem trim_append_left (h : ∀ c ∈ before, isBlank c) : trim (before ++ cs) = trim cs := by
  rw [trim, trim, trimStart, List.dropWhile_append_of_pos h]
  rfl

theorem trimEnd_append (h : ∀ c ∈ after, isBlank c) : trimEnd (cs ++ after) = trimEnd cs := by
  rw [trimEnd, List.reverse_append, List.dropWhile_append_of_pos (by simpa using h)]
  rfl

theorem trim_append_right (h : ∀ c ∈ after, isBlank c) : trim (cs ++ after) = trim cs := by
  by_cases hc : ∀ c ∈ cs, isBlank c
  case pos => rw [trim_append_left hc, trim_eq_nil_iff.mpr h, trim_eq_nil_iff.mpr hc]
  case neg =>
    have hs : ¬(cs.dropWhile isBlank).isEmpty := by
      rwa [List.isEmpty_iff, List.dropWhile_eq_nil_iff]
    rw [trim, trim, trimStart, List.dropWhile_append, if_neg hs]
    exact trimEnd_append h

-- What trimming takes away.
theorem exists_blanks (cs : List Char) : ∃ before after, (∀ c ∈ before, isBlank c) ∧
    (∀ c ∈ after, isBlank c) ∧ before ++ (trim cs ++ after) = cs := by
  refine ⟨cs.takeWhile isBlank, (trimStart cs).rtakeWhile isBlank,
    fun c hc => List.mem_takeWhile_imp hc, fun c hc => List.mem_rtakeWhile_imp hc, ?_⟩
  have ht : trim cs ++ (trimStart cs).rtakeWhile isBlank = trimStart cs :=
    List.rdropWhile_append_rtakeWhile
  rw [ht, trimStart, List.takeWhile_append_dropWhile]

-- No other character is taken.
theorem mem_trim {c : Char} (hc : isBlank c = false) (h : c ∈ cs) : c ∈ trim cs := by
  obtain ⟨before, after, hb, ha, he⟩ := exists_blanks cs
  have hno {bs : List Char} (hbs : ∀ b ∈ bs, isBlank b) : c ∉ bs :=
    fun hm => Bool.false_ne_true (hc.symm.trans (hbs c hm))
  rw [← he, List.mem_append, List.mem_append] at h
  exact (h.resolve_left (hno hb)).resolve_right (hno ha)

end LayeredDiagram.Text
