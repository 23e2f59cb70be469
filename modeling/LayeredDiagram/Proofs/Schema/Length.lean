import LayeredDiagram.Proofs.Number.Order
import LayeredDiagram.Proofs.Schema.Acceptance
import LayeredDiagram.Schema.Request

namespace LayeredDiagram

-- A length that a canvas may have.
structure IsLength (x : Float) : Prop where
  least : 1 ≤ x
  most  : x ≤ 10000

namespace IsLength

variable {x y : Float}

theorem isFinite (h : IsLength x) : x.isFinite :=
  Number.isFinite_of_between (by decide) (by decide) h.least h.most

theorem isNaN (h : IsLength x) : x.isNaN = false :=
  Number.isNaN_of_isFinite h.isFinite

theorem issue?_eq_none (h : IsLength x) :
    ∀ t ∈ [NumberTest.finite, .atLeast 1, .atMost 10000], t.issue? x = none := by
  simp only [List.forall_mem_cons, List.not_mem_nil, false_implies, implies_true, and_true]
  exact ⟨if_pos h.isFinite, if_neg (Number.not_lt_of_le h.least),
    if_neg (Number.not_lt_of_le h.most)⟩

theorem of_issue?_eq_none
    (h : ∀ t ∈ [NumberTest.finite, .atLeast 1, .atMost 10000], t.issue? x = none) : IsLength x := by
  simp only [List.forall_mem_cons, List.not_mem_nil, false_implies, implies_true, and_true,
    NumberTest.issue?, ite_eq_left_iff, ite_eq_right_iff, reduceCtorEq, imp_false,
    Bool.not_eq_true, Bool.not_eq_false] at h
  exact ⟨(Number.le_iff_not_lt (by decide) h.left).mpr h.right.left,
    (Number.le_iff_not_lt h.left (by decide)).mpr h.right.right⟩

end IsLength

namespace Schema

variable {size : Json} {x y : Float} {default : String}

theorem accepts_canvas (hw : size.get? "width" = some (.num x))
    (hh : size.get? "height" = some (.num y)) (hx : IsLength x) (hy : IsLength y) :
    canvas.Accepts (some size) := by
  have hlength {x : Float} (h : IsLength x) :
      (number [.atLeast Limits.canvasLeast, .atMost Limits.canvasMost]).Accepts (some (.num x)) :=
    accepts_number h.isNaN (List.forall_mem_of_forall_mem_cons h.issue?_eq_none)
  have hobj : ∃ fields, size = .obj fields := by
    cases size with
    | obj fields => exact ⟨fields, rfl⟩
    | _          => nomatch hw
  refine accepts_object_of_forall hobj ?_
  simp only [List.forall_mem_cons, List.not_mem_nil, false_implies, implies_true, and_true, hw, hh]
  exact ⟨hlength hx, hlength hy⟩

theorem exists_keep?_canvas (hw : size.get? "width" = some (.num x))
    (hh : size.get? "height" = some (.num y)) (hx : IsLength x) (hy : IsLength y) :
    ∃ kept, canvas.keep? (some size) = some kept ∧ kept.get? "width" = some (.num x) ∧
      kept.get? "height" = some (.num y) := by
  have ⟨_, kept, hk, hf⟩ := exists_keep?_object (accepts_canvas hw hh hx hy) (by decide) (by decide)
  simp only [List.forall_mem_cons, List.not_mem_nil, false_implies, implies_true, and_true, hw, hh,
    keep?_number hx.isNaN, keep?_number hy.isNaN] at hf
  exact ⟨kept, hk, hf⟩

-- The command line has lengths as texts, requests have them as numbers. Both are accepted within
-- the same limits.
theorem accepts_lengthOption_iff {w : Option String} :
    (lengthOption default).Accepts (w.map .str) ↔
      IsLength (Number.whole (w.getD default).toList) := by
  rw [Accepts, lengthOption, check_numeral_map, ← Accepts, accepts_numeral_iff, accepts_number_iff]
  exact ⟨fun h => .of_issue?_eq_none h.right, fun h => ⟨h.isNaN, h.issue?_eq_none⟩⟩

theorem keep?_lengthOption {w : Option String}
    (h : IsLength (Number.whole (w.getD default).toList)) :
    (lengthOption default).keep? (w.map .str) =
      some (.num (Number.whole (w.getD default).toList)) := by
  rw [keep?, lengthOption, check_numeral_map, ← keep?]
  exact keep?_numeral.trans (keep?_number h.isNaN)

end Schema

end LayeredDiagram
