import LayeredDiagram.Proofs.Record
import LayeredDiagram.Proofs.Text.Trim
import LayeredDiagram.Spec.Section
import Mathlib.Data.List.Basic

namespace LayeredDiagram.Spec

open Text

variable {cs : List Char} {l : Line} {ls seen : List Line} {name : String}

section Lines

theorem map_text_numberedLines : (numberedLines cs).map (·.text) = splitLines cs :=
  List.ext_getElem (by simp [numberedLines]) (by simp [numberedLines])

theorem mem_numberedLines_iff :
    l ∈ numberedLines cs ↔ 0 < l.number ∧ (splitLines cs)[l.number - 1]? = some l.text := by
  obtain ⟨text, number⟩ := l
  simp only [numberedLines, List.mem_mapIdx, Line.mk.injEq, List.getElem?_eq_some_iff]
  constructor
  case mp  => exact fun ⟨i, hi, ht, hn⟩ => ⟨by omega, by omega, by simp [← hn, ht]⟩
  case mpr => exact fun ⟨h, hi, ht⟩ => ⟨number - 1, hi, ht, by omega⟩

theorem numberedLines_pairwise : (numberedLines cs).Pairwise (·.number < ·.number) := by
  rw [numberedLines, List.pairwise_iff_getElem]
  intro i j hi hj hij
  simpa using hij

theorem withoutReturn_eq_self {line : List Char} (h : line.getLast? ≠ some '\r') :
    withoutReturn line = line := by
  simp [withoutReturn, h]

theorem splitLines_eq_splitOn (h : ∀ part ∈ cs.splitOn '\n', part.getLast? ≠ some '\r') :
    splitLines cs = cs.splitOn '\n' := by
  have hne : cs.splitOn '\n' ≠ [] := List.splitOn_ne_nil _ _
  have hw : (cs.splitOn '\n').dropLast.map withoutReturn = (cs.splitOn '\n').dropLast := by
    rw [List.map_congr_left fun part hp => withoutReturn_eq_self
      (h part (List.dropLast_subset _ hp))]
    exact List.map_id _
  rw [splitLines, hw, List.getLast?_eq_some_getLast hne]
  exact List.dropLast_append_getLast hne

-- Separators put between texts part them, besides those that they hold.
theorem splitOn_intercalate_eq_flatMap {c : Char} {parts : List (List Char)} (h : parts ≠ []) :
    ([c].intercalate parts).splitOn c = parts.flatMap (·.splitOn c) := by
  induction parts with
  | nil => contradiction
  | cons part parts hi =>
    by_cases hp : parts = []
    case pos => simp [hp]
    case neg =>
      rw [List.intercalate_cons_of_ne_nil hp, List.append_assoc, List.flatMap_cons, ← hi hp]
      exact List.splitOnP_append_cons _ _ (beq_self_eq_true c)

theorem flatMap_splitOn_eq_self {c : Char} {parts : List (List Char)}
    (h : ∀ part ∈ parts, c ∉ part) : parts.flatMap (·.splitOn c) = parts := by
  induction parts with
  | nil => rfl
  | cons part parts hi =>
    have ⟨hp, hs⟩ := List.forall_mem_cons.mp h
    rw [List.flatMap_cons, List.splitOn_eq_singleton hp, hi hs, List.singleton_append]

-- A part stands at the end of the whole or in front of a separator.
theorem isSuffix_or_isInfix_intercalate {c : Char} {part : List Char} {parts : List (List Char)}
    (h : part ∈ parts) :
    part <:+ [c].intercalate parts ∨ part ++ [c] <:+: [c].intercalate parts := by
  induction parts with
  | nil => nomatch h
  | cons a parts hi =>
    by_cases hp : parts = []
    case pos =>
      obtain rfl := List.mem_singleton.mp (hp ▸ h)
      exact .inl (by simp [hp])
    case neg =>
      rw [List.intercalate_cons_of_ne_nil hp]
      obtain rfl | h := List.mem_cons.mp h
      case inl => exact .inr ⟨[], [c].intercalate parts, by simp⟩
      case inr =>
        refine (hi h).imp (fun hs => hs.trans ?_) (fun hi => hi.trans ?_)
        case refine_1 => exact List.suffix_append _ _
        case refine_2 => exact (List.suffix_append _ _).isInfix

end Lines

theorem Heading.ofLine?_eq_none_iff {line : List Char} : Heading.ofLine? line = none ↔
    ¬"# ".toList <+: trim line ∧ ¬"## ".toList <+: trim line := by
  rw [ofLine?]
  split
  case h_1 h     => simp [h]
  case h_2 h     => simp [h]
  case h_3 h₂ h₁ =>
    simp only [true_iff]
    constructor
    case left  => exact fun ⟨rest, h⟩ => h₁ rest h.symm
    case right => exact fun ⟨rest, h⟩ => h₂ rest h.symm

theorem Heading.exists_of_opens {line : List Char} (h : ofLine? line = some (.opens name)) :
    ∃ rest, trim line = "## ".toList ++ rest ∧ name = String.ofList (lower (trim rest)) := by
  rw [ofLine?] at h
  split at h
  case h_1 rest hl =>
    cases h
    exact ⟨rest, hl, rfl⟩
  case h_2         => cases h
  case h_3         => cases h

theorem Heading.exists_of_title {line text : List Char} (h : ofLine? line = some (.title text)) :
    ∃ rest, trim line = "# ".toList ++ rest ∧ text = trim rest := by
  rw [ofLine?] at h
  split at h
  case h_1         => cases h
  case h_2 rest hl =>
    cases h
    exact ⟨rest, hl, rfl⟩
  case h_3         => cases h

theorem joined?_eq_some_iff {text : List Char} : joined? ls = some text ↔
    trim (['\n'].intercalate (ls.map (·.text))) = text ∧ text ≠ [] := by
  rw [joined?]
  generalize trim (['\n'].intercalate (ls.map (·.text))) = all
  cases all with
  | nil       => exact ⟨nofun, fun ⟨h, hn⟩ => absurd h.symm hn⟩
  | cons c cs =>
    refine ⟨fun h => ?_, fun h => h.left ▸ rfl⟩
    obtain rfl := Option.some.inj h
    exact ⟨rfl, nofun⟩

-- The name of a section, its heading, and the lines down to the next heading.
structure Block where
  name : String
  heading : List Char
  texts : List (List Char)

def Block.lines (b : Block) : List (List Char) :=
  b.heading :: b.texts

structure Block.Opens (b : Block) : Prop where
  opens : Heading.ofLine? b.heading = some (.opens b.name)
  plain : ∀ text ∈ b.texts, Heading.ofLine? text = none

namespace Splitter

variable {s : Splitter}

theorem lines_put {sections : Sections} {current key : String} :
    (Splitter.mk current (sections.put key ls)).lines name =
      if name = key then ls else (Splitter.mk current sections).lines name := by
  rw [lines, Record.get?_put]
  split <;> rfl

-- The sections are drawn from the lines that have been seen.
def Drawn (seen : List Line) (s : Splitter) : Prop :=
  ∀ name ≠ "title", (s.lines name).reverse.Sublist seen

theorem lines_start : lines {} name = [] := by
  rw [lines, Record.get?_cons]
  split <;> rfl

theorem Drawn.start : Drawn [] {} := by
  intro name _
  rw [lines_start]
  exact List.nil_sublist _

-- A section that is opened again goes on where it was.
theorem lines_reopen {opened : String} :
    (Splitter.mk opened (s.sections.put opened (s.lines opened))).lines name = s.lines name := by
  rw [lines_put]
  split
  case isTrue ho => rw [ho]
  case isFalse   => rfl

-- A line goes to one section at most, and behind what is there.
theorem Drawn.step (h : Drawn seen s) (l : Line) : Drawn (seen ++ [l]) (s.step l) := by
  intro name hn
  have hs : (s.lines name).reverse.Sublist (seen ++ [l]) :=
    (h name hn).trans (List.sublist_append_left _ _)
  rw [Splitter.step]
  split
  case h_1 => rwa [lines_reopen]
  case h_2 => rwa [lines_put, if_neg hn]
  case h_3 =>
    by_cases hc : name = s.current
    case pos =>
      subst hc
      rw [lines_put, if_pos rfl, List.reverse_cons]
      exact (h _ hn).append (List.Sublist.refl _)
    case neg => rwa [lines_put, if_neg hc]

theorem Drawn.foldl (h : Drawn seen s) (ls : List Line) :
    Drawn (seen ++ ls) (ls.foldl Splitter.step s) := by
  induction ls generalizing seen s with
  | nil          => simpa using h
  | cons l ls hi => simpa using hi (h.step l)

-- The texts of the sections, in order.
def texts (s : Splitter) : Record (List (List Char)) :=
  s.sections.map fun (name, ls) => (name, ls.reverse.map (·.text))

theorem foldl_step_plain {before : Sections} (hb : before.get? name = none)
    (hp : ∀ l ∈ ls, Heading.ofLine? l.text = none) (old : List Line) :
    ls.foldl step ⟨name, before ++ [(name, old)]⟩ =
      ⟨name, before ++ [(name, ls.reverse ++ old)]⟩ := by
  induction ls generalizing old with
  | nil => rfl
  | cons l ls hi =>
    have ⟨hl, hp⟩ := List.forall_mem_cons.mp hp
    have hs : step ⟨name, before ++ [(name, old)]⟩ l = ⟨name, before ++ [(name, l :: old)]⟩ := by
      simp [step, hl, lines, Record.get?_append, hb, Record.get?_cons, Record.put_append hb,
        Record.put]
    rw [List.foldl_cons, hs, hi hp, List.reverse_cons, List.append_assoc]
    rfl

theorem foldl_step_block {b : Block} (ho : b.Opens) (hn : b.name ∉ s.texts.keys)
    (h : ls.map (·.text) = b.lines) : (ls.foldl step s).texts = s.texts ++ [(b.name, b.texts)] := by
  obtain ⟨head, body, rfl, hh, hb⟩ := List.map_eq_cons_iff.mp h
  have hs : s.sections.get? b.name = none := by
    have ht := Record.get?_eq_none_iff.mpr hn
    rwa [texts, Record.get?_map fun ls : List Line => ls.reverse.map (·.text),
      Option.map_eq_none_iff] at ht
  have hstep : s.step head = ⟨b.name, s.sections ++ [(b.name, [])]⟩ := by
    simp [step, hh, ho.opens, lines, hs, Record.put_of_get?_eq_none]
  have hp : ∀ l ∈ body, Heading.ofLine? l.text = none := fun l hl =>
    ho.plain l.text (hb ▸ List.mem_map_of_mem hl)
  rw [List.foldl_cons, hstep, foldl_step_plain hs hp, texts, List.map_append]
  simp [texts, hb]

-- Headings that open new sections add these, one behind the other.
theorem foldl_step_blocks {blocks : List Block} (ho : ∀ b ∈ blocks, b.Opens)
    (hn : (s.texts.keys ++ blocks.map (·.name)).Nodup)
    (h : ls.map (·.text) = blocks.flatMap Block.lines) :
    (ls.foldl step s).texts = s.texts ++ blocks.map fun b => (b.name, b.texts) := by
  induction blocks generalizing s ls with
  | nil =>
    obtain rfl := List.map_eq_nil_iff.mp h
    exact (List.append_nil _).symm
  | cons b blocks hi =>
    obtain ⟨ls, rest, rfl, hb, hr⟩ := List.map_eq_append_iff.mp h
    have ⟨hob, ho⟩ := List.forall_mem_cons.mp ho
    have ⟨_, _, hd⟩ := List.nodup_append.mp hn
    have hs : (ls.foldl step s).texts = s.texts ++ [(b.name, b.texts)] :=
      foldl_step_block hob (fun hm => hd _ hm _ List.mem_cons_self rfl) hb
    rw [List.foldl_append, hi ho (by simpa [hs, Record.keys] using hn) hr, hs, List.append_assoc]
    rfl

end Splitter

theorem get?_sections : (sections cs).get? name =
    (((numberedLines cs).foldl Splitter.step {}).sections.get? name).map List.reverse :=
  Record.get?_map List.reverse

theorem getD_get?_sections :
    ((sections cs).get? name).getD [] =
      (((numberedLines cs).foldl Splitter.step {}).lines name).reverse := by
  rw [get?_sections, Splitter.lines]
  cases ((numberedLines cs).foldl Splitter.step {}).sections.get? name <;> rfl

theorem texts_sections : (sections cs).map (fun (name, ls) => (name, ls.map (·.text))) =
    ((numberedLines cs).foldl Splitter.step {}).texts := by
  simp [sections, Splitter.texts]

theorem sublist_of_get?_sections (hn : name ≠ "title") (h : (sections cs).get? name = some ls) :
    ls.Sublist (numberedLines cs) := by
  have hd := Splitter.Drawn.start.foldl (numberedLines cs) name hn
  rw [get?_sections] at h
  obtain ⟨ls, hs, rfl⟩ := Option.map_eq_some_iff.mp h
  simpa [Splitter.lines, hs] using hd

end LayeredDiagram.Spec
