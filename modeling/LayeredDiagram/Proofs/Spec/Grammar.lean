import LayeredDiagram.Proofs.Sequence
import LayeredDiagram.Proofs.Spec.Entry

namespace LayeredDiagram

open Text

namespace Spec

-- An identifier, and the blanks around it.
structure Padded where
  before       : List Char
  id           : List Char
  after        : List Char
  blank_before : ∀ c ∈ before, isBlank c
  isIdentifier : isIdentifier id
  blank_after  : ∀ c ∈ after, isBlank c

-- The same behind a bullet.
structure Bulleted extends Padded where
  bullet    : Char
  is_bullet : bullet = '-' ∨ bullet = '*'

-- What is written between bars, or behind the last one.
structure Part where
  text        : List Char
  ne_nil      : text ≠ []
  bar_not_mem : '|' ∉ text

variable {cs part : List Char} {c : Char} {id : String}

theorem Part.text_injective : Function.Injective text := by
  rintro ⟨⟩ ⟨⟩ rfl
  rfl

namespace Padded

variable {p q : Padded}

def text (p : Padded) : List Char :=
  p.before ++ (p.id ++ p.after)

theorem trim_text : trim p.text = p.id := by
  rw [text, trim_append_left p.blank_before, trim_append_right p.blank_after,
    (trimmed_of_isIdentifier p.isIdentifier).right]

theorem takeWhile_text : p.text.takeWhile isBlank = p.before := by
  have ⟨hne, _⟩ := trimmed_of_isIdentifier p.isIdentifier
  obtain ⟨c, cs, hid⟩ := List.exists_cons_of_ne_nil hne
  have hc : isBlank c = false :=
    isBlank_of_isName (isName_of_isIdentifier p.isIdentifier (hid ▸ List.mem_cons_self))
  rw [text, List.takeWhile_append_of_pos p.blank_before, hid]
  simp [hc]

theorem text_injective : Function.Injective text := by
  intro p q h
  have hb : p.before = q.before := by rw [← takeWhile_text, h, takeWhile_text]
  have hid : p.id = q.id := by rw [← trim_text, h, trim_text]
  have ha : p.after = q.after := by simpa [text, hb, hid] using h
  cases p
  cases q
  simp_all

theorem not_mem_text (hb : isBlank c = false) (hn : isName c = false) : c ∉ p.text := by
  have hid := not_mem_of_isIdentifier p.isIdentifier hn
  have hbefore : c ∉ p.before := fun h => by simp [p.blank_before c h] at hb
  have hafter : c ∉ p.after := fun h => by simp [p.blank_after c h] at hb
  simp [text, hid, hbefore, hafter]

theorem identifier?_text : identifier? p.text = some (String.ofList p.id) := by
  rw [identifier?, trim_text, if_pos p.isIdentifier]

theorem exists_of_identifier? (h : identifier? cs = some id) : ∃ p : Padded, p.text = cs := by
  rw [identifier?] at h
  split at h
  case isFalse   => cases h
  case isTrue hi =>
    obtain ⟨before, after, hb, ha, he⟩ := exists_blanks cs
    exact ⟨⟨before, trim cs, after, hb, hi, ha⟩, he⟩

end Padded

namespace Bulleted

variable {b : Bulleted}

def text (b : Bulleted) : List Char :=
  b.bullet :: b.toPadded.text

theorem text_injective : Function.Injective text := by
  intro a b h
  have ⟨hb, hp⟩ := List.cons.inj h
  have hp := Padded.text_injective hp
  cases a
  cases b
  simp_all

theorem not_mem_text (hb : isBlank c = false) (hn : isName c = false) (hc : c ≠ '*') :
    c ∉ b.text := by
  have hp : c ∉ b.toPadded.text := Padded.not_mem_text hb hn
  have hd : c ≠ '-' := by
    rintro rfl
    exact absurd hn (by decide)
  obtain h | h := b.is_bullet <;> simp [text, h, hp, hc, hd]

theorem bulleted?_text : bulleted? b.text = some (String.ofList b.id) := by
  have ha : afterBullet? b.text = some b.toPadded.text := by
    obtain hb | hb := b.is_bullet <;> rw [text, hb, afterBullet?]
  rw [bulleted?, ha, Option.bind_some, Padded.identifier?_text]

theorem exists_of_bulleted? (h : bulleted? cs = some id) : ∃ b : Bulleted, b.text = cs := by
  obtain ⟨rest, ha, hi⟩ := Option.bind_eq_some_iff.mp h
  obtain ⟨p, rfl⟩ := Padded.exists_of_identifier? hi
  unfold afterBullet? at ha
  split at ha
  case h_1 => exact ⟨⟨p, '-', .inl rfl⟩, congrArg _ (Option.some.inj ha).symm⟩
  case h_2 => exact ⟨⟨p, '*', .inr rfl⟩, congrArg _ (Option.some.inj ha).symm⟩
  case h_3 => nomatch ha

end Bulleted

theorem not_mem_of_mem_splitOn (h : part ∈ cs.splitOn c) : c ∉ part :=
  fun hc => by simpa using eq_false_of_mem_splitOnP h hc

end Spec

namespace Node

open Spec

-- How a line may be written that is to be read as a node.
structure Form where
  head  : Bulleted
  label : Part
  kind  : Option Part

namespace Form

variable {f : Form} {defaultKind cs : List Char} {n : Node}

def parts (f : Form) : List (List Char) :=
  f.head.text :: f.label.text :: f.kind.toList.map (·.text)

def line (f : Form) : List Char :=
  ['|'].intercalate f.parts

-- The node that is meant, where `defaultKind` stands in for a kind left out.
def node (defaultKind : List Char) (f : Form) : Node where
  id       := String.ofList f.head.id
  label    := String.ofList (trim f.label.text)
  kind     := String.ofList (trim ((f.kind.map (·.text)).getD defaultKind))
  metadata := []

theorem splitOn_line : f.line.splitOn '|' = f.parts := by
  refine List.splitOn_intercalate '|' ?_ (List.cons_ne_nil _ _)
  have hb : '|' ∉ f.head.text := Bulleted.not_mem_text (by decide) (by decide) (by decide)
  have hk : ∀ k ∈ f.kind.toList.map (·.text), '|' ∉ k := by
    simpa using fun k _ => k.bar_not_mem
  exact List.forall_mem_cons.mpr ⟨hb,
    List.forall_mem_cons.mpr ⟨f.label.bar_not_mem, hk⟩⟩

-- Names hold no blanks, so the blanks around a name can be told from it, and neither names nor what
-- stands between bars holds a bar.
theorem line_injective : Function.Injective line := by
  intro f g h
  have hp : f.parts = g.parts := by rw [← splitOn_line, h, splitOn_line]
  have ⟨hh, hp⟩ := List.cons.inj hp
  have ⟨hl, hk⟩ := List.cons.inj hp
  have hh := Bulleted.text_injective hh
  have hl := Part.text_injective hl
  have hk := List.map_injective_iff.mpr Part.text_injective hk
  have hk : f.kind = g.kind := by simpa using congrArg List.head? hk
  cases f
  cases g
  simp_all

theorem ofLine?_line : ofLine? defaultKind f.line = some (f.node defaultKind) := by
  obtain ⟨head, label, kind⟩ := f
  rw [ofLine?, splitOn_line]
  cases kind <;> simp [parts, node, Bulleted.bulleted?_text, Part.ne_nil]

theorem exists_of_ofLine? (h : ofLine? defaultKind cs = some n) : ∃ f : Form, f.line = cs := by
  have hj : ['|'].intercalate (cs.splitOn '|') = cs := List.intercalate_splitOn '|'
  have hb : ∀ part ∈ cs.splitOn '|', '|' ∉ part := fun _ => not_mem_of_mem_splitOn
  unfold ofLine? at h
  split at h
  case h_1 head label hs =>
    rw [hs] at hj hb
    split at h
    case isTrue    => nomatch h
    case isFalse hl =>
      obtain ⟨id, hid, _⟩ := Option.map_eq_some_iff.mp h
      obtain ⟨b, rfl⟩ := Bulleted.exists_of_bulleted? hid
      exact ⟨⟨b, ⟨label, by simpa using hl, hb _ (by simp)⟩, none⟩, hj⟩
  case h_2 head label kind hs =>
    rw [hs] at hj hb
    split at h
    case isTrue    => nomatch h
    case isFalse hn =>
      simp only [Bool.or_eq_true, List.isEmpty_iff, not_or] at hn
      obtain ⟨id, hid, _⟩ := Option.map_eq_some_iff.mp h
      obtain ⟨b, rfl⟩ := Bulleted.exists_of_bulleted? hid
      exact ⟨⟨b, ⟨label, hn.left, hb _ (by simp)⟩, some ⟨kind, hn.right, hb _ (by simp)⟩⟩, hj⟩
  case h_3 => nomatch h

theorem ofLine?_eq_some_iff : ofLine? defaultKind cs = some n ↔
    ∃ f : Form, f.line = cs ∧ f.node defaultKind = n := by
  constructor
  case mpr =>
    rintro ⟨f, rfl, rfl⟩
    exact ofLine?_line
  case mp =>
    intro h
    obtain ⟨f, rfl⟩ := exists_of_ofLine? h
    exact ⟨f, rfl, Option.some.inj (ofLine?_line.symm.trans h)⟩

end Form

-- The lines that are read are those of some form, which is the only one of its line, and any other
-- line is reported as it is.
theorem ofLine_iff_form : Function.Injective Form.line ∧ ∀ defaultKind line,
    (∀ n, ofLine defaultKind line = .ok n ↔ ∃ f : Form, f.line = line ∧ f.node defaultKind = n) ∧
    ∀ e, ofLine defaultKind line = .error e ↔
      (¬∃ f : Form, f.line = line) ∧ e = ⟨.badNode (String.ofList line), none⟩ := by
  refine ⟨Form.line_injective, fun defaultKind line => ?_⟩
  simp only [← Form.ofLine?_eq_some_iff, ofLine]
  cases hl : ofLine? defaultKind line with
  | some n =>
    have ⟨f, hf, _⟩ := Form.ofLine?_eq_some_iff.mp hl
    exact ⟨fun _ => by simp, fun _ => ⟨nofun, fun ⟨hn, _⟩ => absurd ⟨f, hf⟩ hn⟩⟩
  | none =>
    have hn : ¬∃ f : Form, f.line = line := by
      rintro ⟨f, rfl⟩
      nomatch hl.symm.trans Form.ofLine?_line
    exact ⟨fun _ => by simp, fun _ => ⟨fun h => ⟨hn, (Except.error.inj h).symm⟩,
      fun ⟨_, he⟩ => he ▸ rfl⟩⟩

-- A dash alone is a name, and blanks alone are a label.
example : ofLine defaultKind.toList "*-| | \n".toList = .ok ⟨"-", "", "", []⟩ := by
  cbv

end Node

end LayeredDiagram
