import LayeredDiagram.Proofs.Text.Trim
import LayeredDiagram.Text.Units
import Mathlib.Algebra.Order.BigOperators.Group.List
import Mathlib.Algebra.Order.Ring.Nat

namespace LayeredDiagram.Text

variable {c : Char} {cs ds : List Char} {parts : List (List Char)}

theorem one_le_unitWidth (c : Char) : 1 ≤ unitWidth c := by
  unfold unitWidth
  split <;> omega

theorem units_eq_sum (cs : List Char) : units cs = (cs.map unitWidth).sum := by
  rw [units, ← List.foldl_map, List.sum_eq_foldl]

theorem units_cons : units (c :: cs) = unitWidth c + units cs := by
  rw [units_eq_sum, units_eq_sum, List.map_cons, List.sum_cons]

theorem units_append : units (cs ++ ds) = units cs + units ds := by
  simp only [units_eq_sum, List.map_append, List.sum_append]

theorem one_le_units (h : cs ≠ []) : 1 ≤ units cs := by
  obtain ⟨c, cs, rfl⟩ := List.exists_cons_of_ne_nil h
  exact units_cons ▸ (one_le_unitWidth c).trans (Nat.le_add_right _ _)

theorem one_le_units_of_isIdentifier (h : isIdentifier cs) : 1 ≤ units cs :=
  one_le_units fun he => by simp [he, isIdentifier] at h

theorem units_le_of_sublist (h : cs.Sublist ds) : units cs ≤ units ds := by
  rw [units_eq_sum, units_eq_sum]
  exact (h.map unitWidth).sum_le_sum fun _ _ => Nat.zero_le _

theorem trim_sublist : (trim cs).Sublist cs :=
  trimEnd_prefix.sublist.trans (List.dropWhile_sublist isBlank)

theorem units_trim_le : units (trim cs) ≤ units cs :=
  units_le_of_sublist trim_sublist

theorem units_intercalate (h : parts ≠ []) (hc : unitWidth c = 1) :
    units ([c].intercalate parts) + 1 = (parts.map (units · + 1)).sum := by
  induction parts with
  | nil => contradiction
  | cons part parts hi =>
    by_cases hp : parts = []
    case pos => simp [hp]
    case neg =>
      have hr := hi hp
      rw [List.intercalate_cons_of_ne_nil hp, List.append_assoc, units_append,
        List.singleton_append, units_cons, hc, List.map_cons, List.sum_cons]
      omega

-- A text and its end take up as much as its parts with theirs.
theorem sum_splitOn (hc : unitWidth c = 1) :
    units cs + 1 = ((cs.splitOn c).map (units · + 1)).sum := by
  rw [← units_intercalate (List.splitOn_ne_nil c cs) hc, List.intercalate_splitOn]

end LayeredDiagram.Text
