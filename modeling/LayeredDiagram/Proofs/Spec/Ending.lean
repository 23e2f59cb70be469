import LayeredDiagram.Proofs.Spec.Section
import LayeredDiagram.Spec.Document
import Mathlib

namespace LayeredDiagram

namespace Spec

-- Nothing in the line may be taken for its end.
def Single (line : List Char) : Prop :=
  '\r' ∉ line ∧ '\n' ∉ line

instance : DecidablePred Single := fun line =>
  inferInstanceAs (Decidable ('\r' ∉ line ∧ '\n' ∉ line))

-- Lines, and a text that they are written in. Each line but the last one has an end of its own.
inductive Written : List (List Char) → List Char → Prop
  | last {line} (h : Single line) : Written [line] line
  | feed {line lines text} (h : Single line) (ht : Written lines text) :
    Written (line :: lines) (line ++ '\n' :: text)
  | returnFeed {line lines text} (h : Single line) (ht : Written lines text) :
    Written (line :: lines) (line ++ '\r' :: '\n' :: text)

variable {line text text' : List Char} {lines : List (List Char)}

theorem withoutReturn_concat : withoutReturn (line ++ ['\r']) = line := by
  simp [withoutReturn]

theorem Single.withoutReturn_eq (h : Single line) : withoutReturn line = line :=
  withoutReturn_eq_self fun hl => h.left (List.mem_of_getLast? hl)

theorem Single.splitLines_eq (h : Single line) : splitLines line = [line] := by
  simp [splitLines, List.splitOn_eq_singleton h.right]

theorem splitLines_append (h : '\n' ∉ line) :
    splitLines (line ++ '\n' :: text) = withoutReturn line :: splitLines text := by
  have hs : (line ++ '\n' :: text).splitOn '\n' = line.splitOn '\n' ++ text.splitOn '\n' :=
    List.splitOnP_append_cons line text (beq_self_eq_true '\n')
  have hne : text.splitOn '\n' ≠ [] := List.splitOn_ne_nil _ _
  rw [splitLines, splitLines, hs, List.splitOn_eq_singleton h, List.singleton_append,
    List.dropLast_cons_of_ne_nil hne, List.getLast?_cons_of_ne_nil hne]
  rfl

-- The lines are read back, whatever ends them.
theorem Written.splitLines_eq (h : Written lines text) : splitLines text = lines := by
  induction h with
  | last h             => exact h.splitLines_eq
  | feed h _ hi        => rw [splitLines_append h.right, h.withoutReturn_eq, hi]
  | @returnFeed line _ text h _ hi =>
    have hn : '\n' ∉ line ++ ['\r'] := by simp [h.right]
    have he : line ++ '\r' :: '\n' :: text = line ++ ['\r'] ++ '\n' :: text := by simp
    rw [he, splitLines_append hn, withoutReturn_concat, hi]

theorem sections_congr (h : splitLines text = splitLines text') :
    sections text = sections text' := by
  rw [sections, sections, numberedLines, numberedLines, h]

end Spec

namespace Plan

open Spec

variable {defaultKind text text' : List Char} {lines : List (List Char)}

-- Two texts of the same lines are read as the same plan, or refused with the same message for the
-- same line.
theorem ofSpec_eq_of_written (h : Written lines text) (h' : Written lines text') :
    Plan.ofSpec defaultKind text = Plan.ofSpec defaultKind text' := by
  have hs : sections text = sections text' :=
    sections_congr (h.splitLines_eq.trans h'.splitLines_eq.symm)
  rw [Plan.ofSpec, Plan.ofSpec, hs]

-- A node without a label stands in the second line, and nothing in the third one.
theorem ofSpec_eq_of_written_badNode :
    Written ["## Nodes".toList, "- a".toList, []] "## Nodes\r\n- a\n".toList ∧
    Written ["## Nodes".toList, "- a".toList, []] "## Nodes\n- a\r\n".toList ∧
    Plan.ofSpec LayeredDiagram.defaultKind.toList "## Nodes\r\n- a\n".toList =
      Plan.ofSpec LayeredDiagram.defaultKind.toList "## Nodes\n- a\r\n".toList ∧
    Plan.ofSpec LayeredDiagram.defaultKind.toList "## Nodes\r\n- a\n".toList =
      .error ⟨.badNode "- a", some 2⟩ := by
  have h : Written ["## Nodes".toList, "- a".toList, []] "## Nodes\r\n- a\n".toList :=
    .returnFeed (by decide) (.feed (by decide) (.last (by decide)))
  have h' : Written ["## Nodes".toList, "- a".toList, []] "## Nodes\n- a\r\n".toList :=
    .feed (by decide) (.returnFeed (by decide) (.last (by decide)))
  exact ⟨h, h', ofSpec_eq_of_written h h', by cbv⟩

end Plan

end LayeredDiagram
