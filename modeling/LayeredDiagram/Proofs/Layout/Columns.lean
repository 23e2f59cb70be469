import LayeredDiagram.Layout.Columns
import LayeredDiagram.Proofs.Text.Order
import Mathlib.Data.List.Nodup
import Mathlib.Data.List.SplitBy

namespace LayeredDiagram.Layout

open Text

-- The identifiers with the ranks of their layers.
def ranked {L : Type} [Ranked L] (ls : List (String × L)) : List (String × Option Int) :=
  ls.map fun (id, l) => (id, Ranked.rank? l)

theorem isOrdered_trans (a b c : String × Option Int) (hab : isOrdered a b)
    (hbc : isOrdered b c) : isOrdered a c := by
  obtain ⟨a, _ | l⟩ := a <;> obtain ⟨b, _ | m⟩ := b <;> obtain ⟨c, _ | n⟩ := c <;>
    simp only [isOrdered, Bool.or_eq_true, Bool.and_eq_true, decide_eq_true_eq, beq_iff_eq,
      Bool.false_eq_true] at *
  case none.none.none => exact precedes_trans hab hbc
  case some.some.some =>
    obtain hlm | ⟨rfl, hab⟩ := hab <;> obtain hmn | ⟨rfl, hbc⟩ := hbc
    case inl.inl => exact .inl (Int.lt_trans hlm hmn)
    case inl.inr => exact .inl hlm
    case inr.inl => exact .inl hmn
    case inr.inr => exact .inr ⟨rfl, precedes_trans hab hbc⟩

theorem isOrdered_total (a b : String × Option Int) : isOrdered a b || isOrdered b a := by
  have ht := precedes_total a.1 b.1
  obtain ⟨a, _ | m⟩ := a <;> obtain ⟨b, _ | n⟩ := b <;>
    simp only [isOrdered, Bool.or_eq_true, Bool.and_eq_true, decide_eq_true_eq, beq_iff_eq,
      Bool.false_eq_true, or_true, true_or]
  case none.none => exact ht
  case some.some =>
    obtain h | rfl | h := Int.lt_trichotomy m n
    case inl     => exact .inl (.inl h)
    case inr.inl => exact ht.imp (.inr ⟨rfl, ·⟩) (.inr ⟨rfl, ·⟩)
    case inr.inr => exact .inr (.inl h)

theorem isOrdered_antisymm {a b : String × Option Int} (hab : isOrdered a b)
    (hba : isOrdered b a) : spelling a.1 = spelling b.1 := by
  obtain ⟨a, _ | m⟩ := a <;> obtain ⟨b, _ | n⟩ := b <;>
    simp only [isOrdered, Bool.or_eq_true, Bool.and_eq_true, decide_eq_true_eq, beq_iff_eq,
      Bool.false_eq_true] at *
  case none.none => exact precedes_antisymm hab hba
  case some.some =>
    obtain hmn | ⟨rfl, hab⟩ := hab <;> obtain hnm | ⟨_, hba⟩ := hba <;> try omega
    exact precedes_antisymm hab hba

theorem mergeSort_eq_of_perm {rs rs' : List (String × Option Int)} (h : rs'.Perm rs)
    (hn : (rs.map fun r => spelling r.1).Nodup) :
    rs'.mergeSort isOrdered = rs.mergeSort isOrdered := by
  have hp := (List.mergeSort_perm rs' isOrdered).trans
    (h.trans (List.mergeSort_perm rs isOrdered).symm)
  refine hp.eq_of_pairwise (fun a b ha hb hab hba => ?_)
    (List.pairwise_mergeSort isOrdered_trans isOrdered_total _)
    (List.pairwise_mergeSort isOrdered_trans isOrdered_total _)
  have ha := h.mem_iff.mp (List.mem_mergeSort.mp ha)
  exact List.inj_on_of_nodup_map hn ha (List.mem_mergeSort.mp hb) (isOrdered_antisymm hab hba)

section Ranked

variable {L : Type} [Ranked L] {ls ms : List (String × L)}

theorem columns_eq (hr : ∀ e ∈ ls, (Ranked.rank? e.2).isSome) : columns ls =
    (((ranked ls).mergeSort isOrdered).splitBy shareColumn).map (·.map (·.1)) := by
  have ha : (ranked ls).all (·.2.isSome) := by simpa [ranked] using hr
  simp only [columns]
  exact congrArg _ (if_pos ha)

theorem flatten_columns_perm (hr : ∀ e ∈ ls, (Ranked.rank? e.2).isSome) :
    (columns ls).flatten.Perm (ls.map (·.1)) := by
  rw [columns_eq hr, ← List.map_flatten, List.flatten_splitBy]
  simpa [ranked, Function.comp_def] using (List.mergeSort_perm (ranked ls) isOrdered).map (·.1)

-- Identifiers that are spelled differently have one order.
theorem columns_eq_of_perm (hr : ∀ e ∈ ls, (Ranked.rank? e.2).isSome) (h : ms.Perm ls)
    (hn : (ls.map fun e => spelling e.1).Nodup) : columns ms = columns ls := by
  have hr' : ∀ e ∈ ms, (Ranked.rank? e.2).isSome := fun e he => hr e (h.mem_iff.mp he)
  have hs : (ranked ms).Perm (ranked ls) := h.map _
  rw [columns_eq hr, columns_eq hr', mergeSort_eq_of_perm hs]
  simpa [ranked, Function.comp_def] using hn

end Ranked

-- As characters, U+FF5E stands before U+1F600.
example : columns [("～", 1), ("d", 2), ("😀", 1), ("a", 0)] = [["a"], ["😀", "～"], ["d"]] := by
  cbv

end LayeredDiagram.Layout
