import LayeredDiagram.Text.Units

namespace LayeredDiagram.Text

-- The units that a text is spelled with.
def spelling (s : String) : List Nat :=
  s.toList.flatMap unitsOf

variable {a b c : String}

theorem precedesUnits_iff {ms ns : List Nat} :
    precedesUnits ms ns ↔ List.Lex (· < ·) ms ns ∨ ms = ns := by
  induction ms generalizing ns with
  | nil          => cases ns <;> simp [precedesUnits]
  | cons m ms hi =>
    cases ns with
    | nil       => simp [precedesUnits]
    | cons n ns =>
      simp only [precedesUnits, Bool.or_eq_true, Bool.and_eq_true, decide_eq_true_eq, beq_iff_eq,
        hi, List.cons_lex_cons_iff, List.cons.injEq, and_or_left, or_assoc]

-- It is the lexicographic order on lists of units.
theorem precedes_iff : a.precedes b ↔
    List.Lex (· < ·) (spelling a) (spelling b) ∨ spelling a = spelling b :=
  precedesUnits_iff

theorem precedes_trans (hab : a.precedes b) (hbc : b.precedes c) : a.precedes c := by
  rw [precedes_iff] at *
  cases hab
  case inr hab => rwa [hab]
  case inl hab =>
    cases hbc
    case inl hbc => exact .inl (List.lex_trans Nat.lt_trans hab hbc)
    case inr hbc => exact .inl (hbc ▸ hab)

theorem precedes_total (a b : String) : a.precedes b ∨ b.precedes a := by
  simp only [precedes_iff]
  by_cases hab : List.Lex (· < ·) (spelling a) (spelling b)
  case pos => exact .inl (.inl hab)
  case neg =>
    by_cases hba : List.Lex (· < ·) (spelling b) (spelling a)
    case pos => exact .inr (.inl hba)
    case neg => exact .inl (.inr (List.lex_trichotomous (fun _ _ h h' => by omega) hba hab))

theorem precedes_antisymm (hab : a.precedes b) (hba : b.precedes a) : spelling a = spelling b := by
  rw [precedes_iff] at *
  cases hab
  case inr hab => exact hab
  case inl hab =>
    cases hba
    case inl hba => exact absurd hba (List.lex_asymm Nat.lt_asymm hab)
    case inr hba => exact hba.symm

end LayeredDiagram.Text
