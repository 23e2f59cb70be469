import LayeredDiagram.Proofs.Spec.Document
import LayeredDiagram.Proofs.Spec.Grammar

namespace LayeredDiagram

open Text

namespace Edge

open Spec

-- What is written behind the bar. Something in it is not the end of a line, and no line ends but in
-- the blanks around the rest.
structure Remark where
  text   : List Char
  plain  : ∃ c ∈ text, isLineEnd c = false
  single : ∀ c ∈ trim text, isLineEnd c = false

namespace Remark

variable {r : Remark} {cs : List Char}

def label (r : Remark) : Option String :=
  if trim r.text = [] then none else some (String.ofList (trim r.text))

theorem text_injective : Function.Injective text := by
  rintro ⟨⟩ ⟨⟩ rfl
  rfl

theorem labelOf?_text : labelOf? r.text = some r.label := by
  have ha : r.text.all isLineEnd = false := by simpa using r.plain
  have ht : (trim r.text).any isLineEnd = false := by simpa using r.single
  rw [labelOf?, ha, ht, label]
  cases trim r.text <;> simp

theorem exists_of_labelOf? {label : Option String} (h : labelOf? cs = some label) :
    ∃ r : Remark, r.text = cs := by
  unfold labelOf? at h
  dsimp only at h
  split at h
  case isTrue     => nomatch h
  case isFalse hn =>
    rw [Bool.or_eq_true, not_or, Bool.not_eq_true, Bool.not_eq_true] at hn
    exact ⟨⟨cs, by simpa using hn.left, by simpa using hn.right⟩, rfl⟩

end Remark

theorem endsOf?_text {b : Bulleted} {p : Padded} :
    endsOf? (b.text ++ ['-']) p.text = some (String.ofList b.id, String.ofList p.id) := by
  simp [endsOf?, Bulleted.bulleted?_text, Padded.identifier?_text]

theorem exists_of_endsOf? {before target : List Char} {ends : String × String}
    (h : endsOf? before target = some ends) :
    ∃ (b : Bulleted) (p : Padded), b.text ++ ['-'] = before ∧ p.text = target := by
  unfold endsOf? at h
  split at h
  case isFalse   => nomatch h
  case isTrue hd =>
    obtain ⟨source, hs, h⟩ := Option.bind_eq_some_iff.mp h
    obtain ⟨_, ht, _⟩ := Option.map_eq_some_iff.mp h
    obtain ⟨b, hb⟩ := Bulleted.exists_of_bulleted? hs
    obtain ⟨p, hp⟩ := Padded.exists_of_identifier? ht
    exact ⟨b, p, hb ▸ List.dropLast_append_getLast? '-' (by simpa using hd), hp⟩

-- How a line may be written that is to be read as an edge.
structure Form where
  source : Bulleted
  target : Padded
  remark : Option Remark

namespace Form

variable {f : Form} {cs : List Char} {e : Edge}

def tail (f : Form) : List Char :=
  f.target.text ++ (f.remark.map ('|' :: ·.text)).getD []

def line (f : Form) : List Char :=
  f.source.text ++ ("->".toList ++ f.tail)

-- The edge that is meant.
def edge (f : Form) : Edge where
  source := String.ofList f.source.id
  target := String.ofList f.target.id
  label  := f.remark.bind (·.label)

theorem cutAt?_line : cutAt? '>' f.line = some (f.source.text ++ ['-'], f.tail) := by
  have hs : '>' ∉ f.source.text := Bulleted.not_mem_text (by decide) (by decide) (by decide)
  exact cutAt?_eq_some_iff.mpr ⟨by simp [hs], by simp [line]⟩

theorem cutAt?_tail : cutAt? '|' f.tail = f.remark.map fun r => (f.target.text, r.text) := by
  have ht : '|' ∉ f.target.text := Padded.not_mem_text (by decide) (by decide)
  rw [tail]
  cases f.remark with
  | none   => simpa using cutAt?_of_not_mem ht
  | some r => exact cutAt?_append ht

-- Neither names nor blanks hold an arrow's head or a bar, so a line can be told apart into its ends
-- and the label behind the first bar.
theorem line_injective : Function.Injective line := by
  intro f g h
  have hl := cutAt?_line.symm.trans ((congrArg _ h).trans cutAt?_line)
  have ⟨hs, ht⟩ := Prod.mk.inj (Option.some.inj hl)
  have hs := Bulleted.text_injective (List.append_cancel_right hs)
  have hr : f.remark = g.remark := by
    have hc := cutAt?_tail.symm.trans ((congrArg _ ht).trans cutAt?_tail)
    refine Option.map_injective Remark.text_injective ?_
    simpa [Function.comp_def] using congrArg (Option.map (·.2)) hc
  have ht : f.target.text = g.target.text := by simpa [tail, hr] using ht
  have ht := Padded.text_injective ht
  cases f
  cases g
  simp_all

theorem ofLine?_line : ofLine? f.line = some f.edge := by
  rw [ofLine?, cutAt?_line, Option.bind_some]
  dsimp only
  rw [cutAt?_tail]
  cases hr : f.remark with
  | none => simp [tail, edge, hr, endsOf?_text]
  | some r => simp [edge, hr, endsOf?_text, Remark.labelOf?_text]

theorem exists_of_ofLine? (h : ofLine? cs = some e) : ∃ f : Form, f.line = cs := by
  rw [ofLine?, Option.bind_eq_some_iff] at h
  obtain ⟨⟨before, after⟩, hc, h⟩ := h
  obtain ⟨_, rfl⟩ := cutAt?_eq_some_iff.mp hc
  dsimp only at h
  split at h
  case h_1 =>
    obtain ⟨_, he, _⟩ := Option.map_eq_some_iff.mp h
    obtain ⟨b, p, rfl, rfl⟩ := exists_of_endsOf? he
    exact ⟨⟨b, p, none⟩, by simp [line, tail]⟩
  case h_2 target label hbar =>
    obtain ⟨_, he, h⟩ := Option.bind_eq_some_iff.mp h
    obtain ⟨_, hl, _⟩ := Option.map_eq_some_iff.mp h
    obtain ⟨_, rfl⟩ := cutAt?_eq_some_iff.mp hbar
    obtain ⟨b, p, rfl, rfl⟩ := exists_of_endsOf? he
    obtain ⟨r, rfl⟩ := Remark.exists_of_labelOf? hl
    exact ⟨⟨b, p, some r⟩, by simp [line, tail]⟩

theorem ofLine?_eq_some_iff (cs : List Char) (e : Edge) :
    ofLine? cs = some e ↔ ∃ f : Form, f.line = cs ∧ f.edge = e := by
  constructor
  case mpr =>
    rintro ⟨f, rfl, rfl⟩
    exact ofLine?_line
  case mp =>
    intro h
    obtain ⟨f, rfl⟩ := exists_of_ofLine? h
    exact ⟨f, rfl, Option.some.inj (ofLine?_line.symm.trans h)⟩

end Form

-- The lines that are read are those of some form, which is the only one of its line, and any other
-- line is reported as it is.
theorem ofLine_iff_exists_form : Function.Injective Form.line ∧ ∀ line,
    (∀ e, ofLine line = .ok e ↔ ∃ f : Form, f.line = line ∧ f.edge = e) ∧
    ∀ e, ofLine line = .error e ↔
      (¬∃ f : Form, f.line = line) ∧ e = ⟨.badEdge (String.ofList line), none⟩ :=
  ⟨Form.line_injective, reports_edge.of_forms Form.ofLine?_eq_some_iff⟩

-- Dashes before the arrow belong to the name, and bars behind the first one to the label.
example : ofLine "--->b| | \n".toList = .ok ⟨"-", "b", some "|"⟩ := by
  cbv

end Edge

end LayeredDiagram
