import LayeredDiagram.Number.Written
import Mathlib.Data.List.Basic
import Mathlib.Tactic.SplitIfs

namespace LayeredDiagram.Number

def isNumeralChar (c : Char) : Bool :=
  c.isAlphanum || c == '+' || c == '-' || c == '.'

def IsNumeral (cs : List Char) : Prop :=
  ∀ c ∈ cs, isNumeralChar c

instance : DecidablePred IsNumeral :=
  List.decidableBAll (isNumeralChar ·)

variable {c : Char} {cs ds : List Char} {d : Decimal} {n : Nat} {grid : Int}

namespace IsNumeral

theorem append (h₁ : IsNumeral cs) (h₂ : IsNumeral ds) : IsNumeral (cs ++ ds) :=
  List.forall_mem_append.mpr ⟨h₁, h₂⟩

theorem cons (hc : isNumeralChar c) (h : IsNumeral cs) : IsNumeral (c :: cs) :=
  List.forall_mem_cons.mpr ⟨hc, h⟩

theorem subset (h : IsNumeral cs) (hs : ds ⊆ cs) : IsNumeral ds :=
  fun c hc => h c (hs hc)

theorem zeros : IsNumeral (zeros n) := by
  intro c hc
  rw [List.eq_of_mem_replicate hc]
  rfl

theorem toDigits : IsNumeral (Nat.toDigits 10 n) := by
  intro c hc
  have hd : c.isDigit := Nat.isDigit_of_mem_toDigits (by decide) (by decide) hc
  simp [isNumeralChar, Char.isAlphanum, hd]

theorem ofGrid : IsNumeral (Decimal.ofGrid n grid).digits := by
  have hs : (Decimal.ofGrid n grid).digits ⊆ Nat.toDigits 10 n := by
    intro c hc
    exact List.mem_reverse.mp ((List.dropWhile_sublist _).subset (List.mem_reverse.mp hc))
  exact toDigits.subset hs

theorem shortest (v : Neighbourhood) : IsNumeral v.shortest.digits := by
  simp only [Neighbourhood.shortest]
  generalize hf : List.findSome? _ _ = found
  cases found with
  | none   => exact ofGrid
  | some d =>
    obtain ⟨n, _, hd⟩ := List.exists_of_findSome?_eq_some hf
    obtain ⟨k, _, rfl⟩ := Option.map_eq_some_iff.mp hd
    exact ofGrid

theorem exponential (h : IsNumeral d.digits) : IsNumeral d.exponential := by
  refine append (append ?_ ?_) toDigits
  case refine_1 =>
    split
    case h_1 => nofun
    case h_2 c hd => exact hd ▸ h
    case h_3 c cs hd =>
      have ⟨hc, hcs⟩ := List.forall_mem_cons.mp (hd ▸ h)
      exact cons hc (cons rfl hcs)
  case refine_2 => split_ifs <;> decide

theorem write (h : IsNumeral d.digits) : IsNumeral d.write := by
  unfold Decimal.write
  split_ifs
  case pos => exact exponential h
  case pos => exact append (append (by decide) zeros) h
  case pos => exact append h zeros
  case neg =>
    exact append (append (h.subset (List.take_subset _ _)) (by decide))
      (h.subset (List.drop_subset _ _))

-- Whatever a number is, its shortest form consists of letters and digits, signs and points.
theorem text (x : Float) : IsNumeral (text x).toList := by
  unfold Number.text
  split
  case h_1 => decide
  case h_2 => split_ifs <;> decide
  case h_3 => decide
  case h_4 m e _ _ =>
    have hw : IsNumeral (Neighbourhood.ofParts m e).shortest.write := write (shortest _)
    rw [String.toList_ofList]
    split_ifs
    case pos => exact cons rfl hw
    case neg => exact hw

end IsNumeral

end LayeredDiagram.Number
