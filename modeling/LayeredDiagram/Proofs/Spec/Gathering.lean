import LayeredDiagram.Proofs.Spec.Outcome

namespace LayeredDiagram.Spec

open Text

theorem trim_withoutReturn (line : List Char) : trim (withoutReturn line) = trim line := by
  rw [withoutReturn]
  split
  case isFalse  => rfl
  case isTrue h =>
    have hl := List.dropLast_append_getLast? '\r' (by simpa using h)
    conv_rhs => rw [← hl]
    exact (trim_append_right (List.forall_mem_singleton.mpr rfl)).symm

theorem map_trim_splitLines (cs : List Char) :
    (splitLines cs).map trim = (cs.splitOn '\n').map trim := by
  have hw : trim ∘ withoutReturn = trim := funext trim_withoutReturn
  have hl := List.dropLast_append_getLast (List.splitOn_ne_nil '\n' cs)
  rw [splitLines, List.map_append, List.map_map, hw, ← List.map_append,
    List.getLast?_eq_some_getLast (List.splitOn_ne_nil '\n' cs), Option.toList_some, hl]

theorem Heading.ofLine?_trim (line : List Char) :
    Heading.ofLine? (trim line) = Heading.ofLine? line := by
  rw [ofLine?, ofLine?, trim_trim]

theorem Heading.prefix_of_opens {line : List Char} {name : String}
    (h : Heading.ofLine? line = some (.opens name)) : "## ".toList <+: trim line := by
  obtain ⟨rest, hl, _⟩ := exists_of_opens h
  exact ⟨rest, hl.symm⟩

theorem Heading.prefix_of_title {line text : List Char}
    (h : Heading.ofLine? line = some (.title text)) : "# ".toList <+: trim line := by
  obtain ⟨rest, hl, _⟩ := exists_of_title h
  exact ⟨rest, hl.symm⟩

theorem Heading.trim_title {line text : List Char} (h : Heading.ofLine? line = some (.title text)) :
    trim text = text := by
  obtain ⟨_, _, rfl⟩ := exists_of_title h
  exact trim_trim

-- The section that the next line goes to, and the texts of one section once it has been opened.
structure Gathering where
  current : String
  texts? : Option (List (List Char))

namespace Gathering

def start (name : String) : Gathering :=
  ⟨"body", if name = "body" then some [] else none⟩

-- What becomes of the section `name` with a line.
def step (name : String) (g : Gathering) (line : List Char) : Gathering :=
  match Heading.ofLine? line with
  | some (.opens opened) => ⟨opened, if name = opened then some (g.texts?.getD []) else g.texts?⟩
  | some (.title text) => ⟨"title", if name = "title" then some [text] else g.texts?⟩
  | none => { g with
      texts? := if name = g.current then some (g.texts?.getD [] ++ [line]) else g.texts? }

def run (name : String) (g : Gathering) (lines : List (List Char)) : Gathering :=
  lines.foldl (step name) g

variable {name current : String} {g : Gathering} {line : List Char}
variable {lines more : List (List Char)} {texts : List (List Char)}
variable {texts? : Option (List (List Char))}

theorem run_append : g.run name (lines ++ more) = (g.run name lines).run name more :=
  List.foldl_append

theorem run_cons : g.run name (line :: lines) = (g.step name line).run name lines :=
  rfl

theorem step_opens (h : Heading.ofLine? line = some (.opens name)) :
    g.step name line = ⟨name, some (g.texts?.getD [])⟩ := by
  simp [step, h]

theorem step_plain (h : Heading.ofLine? line = none) : step name ⟨name, some texts⟩ line =
    ⟨name, some (texts ++ [line])⟩ := by
  simp [step, h]

theorem step_elsewhere (h : Heading.ofLine? line = none) (hn : name ≠ current) :
    step name ⟨current, texts?⟩ line = ⟨current, texts?⟩ := by
  simp [step, h, hn]

theorem step_title {text : List Char} (h : Heading.ofLine? line = some (.title text))
    (hn : name ≠ "title") : step name ⟨current, texts?⟩ line = ⟨"title", texts?⟩ := by
  simp [step, h, hn]

theorem run_plain (h : ∀ line ∈ lines, Heading.ofLine? line = none) :
    run name ⟨name, some texts⟩ lines = ⟨name, some (texts ++ lines)⟩ := by
  induction lines generalizing texts with
  | nil                => simp [run]
  | cons line lines hi =>
    have ⟨hl, hs⟩ := List.forall_mem_cons.mp h
    rw [run_cons, step_plain hl, hi hs, List.append_assoc, List.singleton_append]

theorem run_elsewhere (h : ∀ line ∈ lines, Heading.ofLine? line = none) (hn : name ≠ current) :
    run name ⟨current, texts?⟩ lines = ⟨current, texts?⟩ := by
  induction lines with
  | nil                => rfl
  | cons line lines hi =>
    have ⟨hl, hs⟩ := List.forall_mem_cons.mp h
    rw [run_cons, step_elsewhere hl hn, hi hs]

-- A heading goes on from wherever it stands.
theorem step_heading (h : (Heading.ofLine? line).isSome) :
    step name ⟨current, texts?⟩ line = step name ⟨g.current, texts?⟩ line := by
  obtain ⟨heading, hh⟩ := Option.isSome_iff_exists.mp h
  cases heading <;> simp [step, hh]

theorem texts?_run_heading (h : ∀ line ∈ lines.head?, (Heading.ofLine? line).isSome) :
    (run name ⟨current, texts?⟩ lines).texts? = (run name ⟨g.current, texts?⟩ lines).texts? := by
  cases lines with
  | nil             => rfl
  | cons line lines => rw [run_cons, run_cons, step_heading (h line rfl)]

-- What is gathered is put behind what is there. The title alone may be given up for another one.
theorem exists_texts?_run (hn : name ≠ "title") (current : String) (lines : List (List Char)) :
    ∃ more, ∀ texts, (run name ⟨current, some texts⟩ lines).texts? = some (texts ++ more) := by
  induction lines generalizing current with
  | nil                => exact ⟨[], fun texts => by simp [run]⟩
  | cons line lines hi =>
    simp only [run_cons]
    cases hh : Heading.ofLine? line with
    | none =>
      by_cases hc : name = current
      case pos =>
        subst hc
        have ⟨more, hm⟩ := hi name
        exact ⟨line :: more, fun texts => by rw [step_plain hh, hm]; simp⟩
      case neg =>
        have ⟨more, hm⟩ := hi current
        exact ⟨more, fun texts => by rw [step_elsewhere hh hc, hm]⟩
    | some heading =>
      cases heading with
      | title text =>
        have ⟨more, hm⟩ := hi "title"
        exact ⟨more, fun texts => by rw [step_title hh hn, hm]⟩
      | opens opened =>
        have ⟨more, hm⟩ := hi opened
        refine ⟨more, fun texts => ?_⟩
        rw [← hm texts]
        simp [step, hh]

def trimmed (g : Gathering) : Gathering :=
  { g with texts? := g.texts?.map (·.map trim) }

theorem getD_trimmed : g.trimmed.texts?.getD [] = (g.texts?.getD []).map trim := by
  cases hg : g.texts? <;> simp [trimmed, hg]

theorem step_trimmed : (g.step name line).trimmed = g.trimmed.step name (trim line) := by
  rw [step, step, Heading.ofLine?_trim, getD_trimmed]
  cases hh : Heading.ofLine? line with
  | none => by_cases hn : name = g.current <;> simp [trimmed, hn]
  | some heading =>
    cases heading with
    | title text   => by_cases hn : name = "title" <;> simp [trimmed, hn, Heading.trim_title hh]
    | opens opened => by_cases hn : name = opened <;> simp [trimmed, hn]

theorem run_trimmed : (g.run name lines).trimmed = g.trimmed.run name (lines.map trim) := by
  induction lines generalizing g with
  | nil                => rfl
  | cons line lines hi => rw [run_cons, hi, step_trimmed, List.map_cons, run_cons]

end Gathering

namespace Splitter

variable {s : Splitter} {name : String}

def gathering (s : Splitter) (name : String) : Gathering :=
  ⟨s.current, s.texts.get? name⟩

theorem get?_texts : s.texts.get? name =
    (s.sections.get? name).map fun ls : List Line => ls.reverse.map (·.text) := by
  rw [texts]
  exact Record.get?_map fun ls : List Line => ls.reverse.map (·.text)

theorem gathering_start : gathering {} name = Gathering.start name := by
  rw [gathering, Gathering.start, get?_texts, Record.get?_cons]
  by_cases h : name = "body"
  case pos => simp [h]
  case neg => simp [h, Ne.symm h, Record.get?]

theorem texts_lines : (s.lines name).reverse.map (·.text) = (s.texts.get? name).getD [] := by
  rw [get?_texts, lines]
  cases s.sections.get? name <;> rfl

theorem get?_texts_put {current key : String} {ls : List Line} :
    (texts ⟨current, s.sections.put key ls⟩).get? name =
      if name = key then some (ls.reverse.map (·.text)) else s.texts.get? name := by
  rw [get?_texts, get?_texts, Record.get?_put]
  split <;> rfl

theorem gathering_step (s : Splitter) (name : String) (l : Line) :
    (s.step l).gathering name = (s.gathering name).step name l.text := by
  simp only [step, Gathering.step]
  cases Heading.ofLine? l.text with
  | none =>
    simp only [gathering, get?_texts_put, List.reverse_cons, List.map_append, texts_lines]
    by_cases h : name = s.current <;> simp [h]
  | some heading =>
    cases heading with
    | title text   => simp [gathering, get?_texts_put]
    | opens opened =>
      simp only [gathering, get?_texts_put, texts_lines]
      by_cases h : name = opened <;> simp [h]

theorem gathering_foldl (s : Splitter) (name : String) (ls : List Line) :
    (ls.foldl step s).gathering name = (s.gathering name).run name (ls.map (·.text)) := by
  induction ls generalizing s with
  | nil          => rfl
  | cons l ls hi => rw [List.foldl_cons, hi, gathering_step, List.map_cons, Gathering.run_cons]

end Splitter

-- The texts of a section, trimmed, if it is there.
def textsOf? (s : Sections) (name : String) : Option (List (List Char)) :=
  (s.get? name).map (·.map fun l => trim l.text)

-- Which lines come to stand in a section is told by their texts alone, whatever their numbers are
-- and whatever blanks stand around them.
theorem textsOf?_sections (cs : List Char) (name : String) : textsOf? (sections cs) name =
    ((Gathering.start name).run name (cs.splitOn '\n')).trimmed.texts? := by
  have hg := Splitter.gathering_foldl {} name (numberedLines cs)
  rw [Splitter.gathering_start, map_text_numberedLines] at hg
  rw [Gathering.run_trimmed, ← map_trim_splitLines, ← Gathering.run_trimmed, ← hg, textsOf?,
    get?_sections, Gathering.trimmed, Splitter.gathering, Splitter.get?_texts]
  simp [Function.comp_def]

end LayeredDiagram.Spec
