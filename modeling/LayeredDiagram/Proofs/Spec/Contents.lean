import LayeredDiagram.Proofs.Spec.Section

namespace LayeredDiagram.Spec

open Text

def Line.IsTitle (l : Line) : Prop :=
  "# ".toList <+: trim l.text

instance : DecidablePred Line.IsTitle := fun l =>
  inferInstanceAs (Decidable ("# ".toList <+: trim l.text))

def Line.IsHeading (l : Line) : Prop :=
  "## ".toList <+: trim l.text ∨ l.IsTitle

instance : DecidablePred Line.IsHeading := fun l =>
  inferInstanceAs (Decidable ("## ".toList <+: trim l.text ∨ l.IsTitle))

-- The section that a heading opens.
inductive Opens (l : Line) : String → Prop
  | named {rest} (h : trim l.text = "## ".toList ++ rest) :
    Opens l (String.ofList (lower (trim rest)))
  | title (h : l.IsTitle) : Opens l "title"

-- The section that a line with these lines above it goes to.
inductive Under (above : List Line) : String → Prop
  | body (h : ∀ m ∈ above, ¬m.IsHeading) : Under above "body"
  | heading {m name} (h : (above.filter (·.IsHeading)).getLast? = some m) (ho : Opens m name) :
    Under above name

-- What the sections hold, once these lines have been read.
inductive Holds (lines : List Line) : String → Line → Prop
  | line {before l after name} (h : lines = before ++ l :: after) (plain : ¬l.IsHeading)
    (under : Under before name) (kept : name = "title" → ∀ m ∈ after, ¬m.IsTitle) :
    Holds lines name l
  | title {m rest} (last : (lines.filter (·.IsTitle)).getLast? = some m)
    (h : trim m.text = "# ".toList ++ rest) : Holds lines "title" ⟨trim rest, m.number⟩

variable {above before after seen lines : List Line} {l m e : Line} {name other : String}
variable {rest : List Char}

theorem not_isHeading_iff : ¬l.IsHeading ↔ Heading.ofLine? l.text = none := by
  rw [Heading.ofLine?_eq_none_iff, Line.IsHeading, Line.IsTitle, not_or, and_comm]

theorem Line.IsTitle.isHeading (h : l.IsTitle) : l.IsHeading :=
  .inr h

theorem isTitle_of_eq (h : trim l.text = "# ".toList ++ rest) : l.IsTitle :=
  ⟨rest, h.symm⟩

theorem isHeading_of_eq (h : trim l.text = "## ".toList ++ rest) : l.IsHeading :=
  .inl ⟨rest, h.symm⟩

theorem not_isTitle_of_eq (h : trim l.text = "## ".toList ++ rest) : ¬l.IsTitle := by
  rintro ⟨rest', h'⟩
  simp [h] at h'

theorem Opens.isHeading (h : Opens l name) : l.IsHeading := by
  cases h with
  | named h => exact isHeading_of_eq h
  | title h => exact h.isHeading

theorem Line.IsHeading.exists_opens (h : l.IsHeading) : ∃ name, Opens l name := by
  obtain ⟨rest, h⟩ | h := h
  case inl => exact ⟨_, .named h.symm⟩
  case inr => exact ⟨_, .title h⟩

theorem Opens.unique (h : Opens l name) (h' : Opens l other) : name = other := by
  cases h with
  | named h =>
    cases h' with
    | named h' => rw [List.append_cancel_left (h.symm.trans h')]
    | title h' => exact absurd h' (not_isTitle_of_eq h)
  | title h =>
    cases h' with
    | named h' => exact absurd h (not_isTitle_of_eq h')
    | title    => rfl

namespace Under

theorem unique (h : Under above name) (h' : Under above other) : name = other := by
  have hm {m : Line} (hm : (above.filter (·.IsHeading)).getLast? = some m) :
      m ∈ above ∧ m.IsHeading := by
    simpa using List.mem_of_getLast? hm
  cases h with
  | body h =>
    cases h' with
    | body        => rfl
    | heading h' _ => exact absurd (hm h').right (h _ (hm h').left)
  | heading h ho =>
    cases h' with
    | body h'        => exact absurd (hm h).right (h' _ (hm h).left)
    | heading h' ho' =>
      cases h.symm.trans h'
      exact ho.unique ho'

theorem start : Under [] "body" :=
  .body nofun

theorem plain (h : Under above name) (hl : ¬l.IsHeading) : Under (above ++ [l]) name := by
  cases h with
  | body h       => exact .body (by simpa [or_imp, forall_and, hl] using h)
  | heading h ho => exact .heading (by simpa [hl] using h) ho

theorem opens (h : Opens l name) : Under (above ++ [l]) name :=
  .heading (by simp [h.isHeading]) h

theorem exists_under (above : List Line) : ∃ name, Under above name := by
  cases h : (above.filter (·.IsHeading)).getLast? with
  | none   => exact ⟨"body", .body (by simpa [List.filter_eq_nil_iff] using h)⟩
  | some m =>
    have hm : m.IsHeading := by simpa using List.of_mem_filter (List.mem_of_getLast? h)
    obtain ⟨name, ho⟩ := hm.exists_opens
    exact ⟨name, .heading h ho⟩

theorem opened (h : Under above name) : name = "body" ∨ ∃ m ∈ above, Opens m name := by
  cases h with
  | body         => exact .inl rfl
  | heading h ho => exact .inr ⟨_, List.mem_of_mem_filter (List.mem_of_getLast? h), ho⟩

end Under

theorem concat_eq_append_cons_iff {α : Type} {as before after : List α} {a b : α} :
    as ++ [b] = before ++ a :: after ↔ (as = before ∧ b = a ∧ after = []) ∨
      ∃ between, after = between ++ [b] ∧ as = before ++ a :: between := by
  obtain rfl | ⟨between, c, rfl⟩ := List.eq_nil_or_concat' after
  case inl => simp
  case inr =>
    rw [← List.cons_append, ← List.append_assoc, List.append_singleton_inj]
    constructor
    case mp =>
      rintro ⟨rfl, rfl⟩
      exact .inr ⟨between, rfl, rfl⟩
    case mpr =>
      rintro (⟨_, _, h⟩ | ⟨_, h, rfl⟩)
      case inl => simp at h
      case inr =>
        obtain ⟨rfl, rfl⟩ := List.append_singleton_inj.mp h
        exact ⟨rfl, rfl⟩

namespace Holds

theorem not_start : ¬Holds [] name e := by
  intro h
  cases h with
  | line h       => simp at h
  | title last _ => simp at last

theorem concat_iff_of_not_isTitle (hl : ¬l.IsTitle) : Holds (seen ++ [l]) name e ↔
    Holds seen name e ∨ ¬l.IsHeading ∧ Under seen name ∧ e = l := by
  constructor
  case mp =>
    intro h
    cases h with
    | line h plain under kept =>
      obtain ⟨rfl, rfl, _⟩ | ⟨after, rfl, rfl⟩ := concat_eq_append_cons_iff.mp h
      case inl => exact .inr ⟨plain, under, rfl⟩
      case inr =>
        exact .inl (.line rfl plain under fun hn m hm => kept hn m (List.mem_append_left _ hm))
    | title last h => exact .inl (.title (by simpa [hl] using last) h)
  case mpr =>
    rintro (h | ⟨plain, under, rfl⟩)
    case inr => exact .line rfl plain under (by simp)
    case inl =>
      cases h with
      | @line before _ after _ h plain under kept =>
        have h : seen ++ [l] = before ++ e :: (after ++ [l]) := by simp [h]
        refine .line h plain under fun hn => ?_
        simpa [or_imp, forall_and, hl] using kept hn
      | title last h => exact .title (by simpa [hl] using last) h

theorem concat_iff_of_title (hl : trim l.text = "# ".toList ++ rest) : Holds (seen ++ [l]) name e ↔
    if name = "title" then e = ⟨trim rest, l.number⟩ else Holds seen name e := by
  have ht : l.IsTitle := isTitle_of_eq hl
  constructor
  case mp =>
    intro h
    cases h with
    | line h plain under kept =>
      obtain ⟨_, rfl, _⟩ | ⟨after, rfl, rfl⟩ := concat_eq_append_cons_iff.mp h
      case inl => exact absurd ht.isHeading plain
      case inr =>
        have hn : name ≠ "title" := fun hn => kept hn l (by simp) ht
        rw [if_neg hn]
        exact .line rfl plain under fun h => absurd h hn
    | title last h =>
      obtain rfl : l = _ := by simpa [ht] using last
      rw [if_pos rfl, List.append_cancel_left (h.symm.trans hl)]
  case mpr =>
    split
    case isTrue hn =>
      rintro rfl
      exact hn ▸ .title (by simp [ht]) hl
    case isFalse hn =>
      intro h
      cases h with
      | @line before _ after _ h plain under kept =>
        have h : seen ++ [l] = before ++ e :: (after ++ [l]) := by simp [h]
        exact .line h plain under fun h => absurd h hn
      | title => exact absurd rfl hn

end Holds

namespace Splitter

variable {s : Splitter}

-- A line is put into a section, and the next one goes there as well.
theorem exists_sections_step (s : Splitter) (l : Line) :
    ∃ ls, (s.step l).sections = s.sections.put (s.step l).current ls := by
  rw [step]
  split
  case h_1 => exact ⟨_, rfl⟩
  case h_2 => exact ⟨_, rfl⟩
  case h_3 => exact ⟨_, rfl⟩

-- The sections hold what they should, in the order of the lines.
structure Gathers (seen : List Line) (s : Splitter) : Prop where
  under   : Under seen s.current
  holds   : ∀ name e, e ∈ s.lines name ↔ Holds seen name e
  numbers : ∀ name, ((s.lines name).reverse.map (·.number)).Sublist (seen.map (·.number))
  title   : ∀ m rest, (seen.filter (·.IsTitle)).getLast? = some m →
    trim m.text = "# ".toList ++ rest → (s.lines "title").getLast? = some ⟨trim rest, m.number⟩
  body    : s.sections.keys.head? = some "body"
  nodup   : s.sections.keys.Nodup
  keys    : ∀ name, name ∈ s.sections.keys ↔ name = "body" ∨ ∃ m ∈ seen, Opens m name

namespace Gathers

theorem start : Gathers [] {} where
  under   := .start
  holds   := fun name e => by simp [lines_start, Holds.not_start]
  numbers := fun name => by simp [lines_start]
  title   := nofun
  body    := rfl
  nodup   := List.nodup_singleton _
  keys    := by simp [Record.keys]

section Step

variable (h : Gathers seen s) (l : Line)
include h

theorem under_step : Under (seen ++ [l]) (s.step l).current := by
  rw [Splitter.step]
  split
  case h_1 opened ho =>
    obtain ⟨rest, hl, rfl⟩ := Heading.exists_of_opens ho
    exact .opens (.named hl)
  case h_2 text ht =>
    obtain ⟨rest, hl, rfl⟩ := Heading.exists_of_title ht
    exact .opens (.title (isTitle_of_eq hl))
  case h_3 hn => exact h.under.plain (not_isHeading_iff.mpr hn)

theorem holds_step (name : String) (e : Line) :
    e ∈ (s.step l).lines name ↔ Holds (seen ++ [l]) name e := by
  rw [Splitter.step]
  split
  case h_1 opened ho =>
    obtain ⟨rest, hl, rfl⟩ := Heading.exists_of_opens ho
    rw [lines_reopen, h.holds, Holds.concat_iff_of_not_isTitle (not_isTitle_of_eq hl)]
    simp [isHeading_of_eq hl]
  case h_2 text ht =>
    obtain ⟨rest, hl, rfl⟩ := Heading.exists_of_title ht
    rw [lines_put, Holds.concat_iff_of_title hl]
    split
    case isTrue  => exact List.mem_singleton
    case isFalse => exact h.holds name e
  case h_3 hn =>
    have hl := not_isHeading_iff.mpr hn
    have hc : Under seen name ↔ name = s.current :=
      ⟨fun hu => hu.unique h.under, fun hn => hn ▸ h.under⟩
    rw [lines_put, Holds.concat_iff_of_not_isTitle fun ht => hl ht.isHeading, hc]
    split
    case isTrue hn  => simp [hl, hn, h.holds, or_comm]
    case isFalse hn => simp [hn, h.holds]

theorem numbers_step (name : String) : (((s.step l).lines name).reverse.map (·.number)).Sublist
    ((seen ++ [l]).map (·.number)) := by
  rw [Splitter.step, List.map_append]
  have hs := (h.numbers name).trans (List.sublist_append_left _ [l.number])
  split
  case h_1 => rwa [lines_reopen]
  case h_2 =>
    rw [lines_put]
    split
    case isTrue  => exact List.sublist_append_right _ _
    case isFalse => exact hs
  case h_3 =>
    rw [lines_put]
    split
    case isTrue  =>
      rw [List.reverse_cons, List.map_append]
      exact (h.numbers _).append (List.Sublist.refl _)
    case isFalse => exact hs

theorem title_step {m : Line} {rest : List Char}
    (last : ((seen ++ [l]).filter (·.IsTitle)).getLast? = some m)
    (hm : trim m.text = "# ".toList ++ rest) :
    ((s.step l).lines "title").getLast? = some ⟨trim rest, m.number⟩ := by
  rw [Splitter.step]
  split
  case h_1 opened ho =>
    obtain ⟨_, hl, rfl⟩ := Heading.exists_of_opens ho
    rw [lines_reopen]
    exact h.title m rest (by simpa [not_isTitle_of_eq hl] using last) hm
  case h_2 text ht =>
    obtain ⟨_, hl, rfl⟩ := Heading.exists_of_title ht
    obtain rfl : l = m := by simpa [isTitle_of_eq hl] using last
    rw [lines_put, if_pos rfl, List.append_cancel_left (hl.symm.trans hm)]
    rfl
  case h_3 hn =>
    have hl : ¬l.IsTitle := fun ht => not_isHeading_iff.mpr hn ht.isHeading
    have ht := h.title m rest (by simpa [hl] using last) hm
    rw [lines_put]
    split
    case isTrue hc => rw [← hc, List.getLast?_cons, ht, Option.getD_some]
    case isFalse   => exact ht

theorem keys_step (name : String) : name ∈ (s.step l).sections.keys ↔
    name = "body" ∨ ∃ m ∈ seen ++ [l], Opens m name := by
  have hu := h.under_step l
  obtain ⟨ls, hp⟩ := s.exists_sections_step l
  rw [hp, Record.mem_keys_put_iff, h.keys]
  simp only [List.mem_append, List.mem_singleton, or_and_right, exists_or, exists_eq_left]
  constructor
  case mp =>
    rintro (rfl | hk)
    case inl => simpa [or_and_right, exists_or] using hu.opened
    case inr => exact hk.imp_right .inl
  case mpr =>
    rintro (hb | hm | ho)
    case inl      => exact .inr (.inl hb)
    case inr.inl  => exact .inr (.inr hm)
    case inr.inr  => exact .inl ((Under.opens ho).unique hu)

end Step

theorem step (h : Gathers seen s) (l : Line) : Gathers (seen ++ [l]) (s.step l) where
  under   := h.under_step l
  holds   := h.holds_step l
  numbers := h.numbers_step l
  title   := fun _ _ => h.title_step l
  keys    := h.keys_step l
  body    := by
    obtain ⟨ls, hp⟩ := s.exists_sections_step l
    rw [hp, Record.head?_keys_put, h.body]
    rfl
  nodup   := by
    obtain ⟨ls, hp⟩ := s.exists_sections_step l
    exact hp ▸ Record.nodup_keys_put h.nodup

theorem foldl (h : Gathers seen s) (ls : List Line) :
    Gathers (seen ++ ls) (ls.foldl Splitter.step s) := by
  induction ls generalizing seen s with
  | nil          => simpa using h
  | cons l ls hi => simpa using hi (h.step l)

end Gathers

end Splitter

def linesOf (s : Sections) (name : String) : List Line :=
  (s.get? name).getD []

-- Sections that the lines have been divided into. No line stands in two places, and none is lost
-- but those above the last title that went to the title themselves.
structure Divided (lines : List Line) (s : Sections) : Prop where
  body      : s.keys.head? = some "body"
  distinct  : s.keys.Nodup
  opened    : ∀ name, name ∈ s.keys ↔ name = "body" ∨ ∃ m ∈ lines, Opens m name
  ascending : ∀ name, (linesOf s name).Pairwise (·.number < ·.number)
  once      : ∀ before l after, lines = before ++ l :: after → ¬l.IsHeading →
    ∃ home, Under before home ∧ ∀ name, l ∈ linesOf s name ↔
      name = home ∧ (home = "title" → ∀ m ∈ after, ¬m.IsTitle)
  title     : ∀ m rest, (lines.filter (·.IsTitle)).getLast? = some m →
    trim m.text = "# ".toList ++ rest → (linesOf s "title").head? = some ⟨trim rest, m.number⟩
  only      : ∀ name e, e ∈ linesOf s name → (e ∈ lines ∧ ¬e.IsHeading) ∨ name = "title" ∧
    ∃ m rest, (lines.filter (·.IsTitle)).getLast? = some m ∧
      trim m.text = "# ".toList ++ rest ∧ e = ⟨trim rest, m.number⟩

theorem eq_of_number_eq (hp : lines.Pairwise (·.number < ·.number)) (hl : l ∈ lines)
    (hm : m ∈ lines) (h : l.number = m.number) : l = m := by
  have hn : (lines.map (·.number)).Nodup := List.pairwise_map.mpr (hp.imp Nat.ne_of_lt)
  exact List.inj_on_of_nodup_map hn hl hm h

-- A line with a number of its own is held in one section at most.
theorem holds_iff_of_under {home : String} (hp : lines.Pairwise (·.number < ·.number))
    (h : lines = before ++ l :: after) (plain : ¬l.IsHeading) (under : Under before home) :
    Holds lines name l ↔ name = home ∧ (home = "title" → ∀ m ∈ after, ¬m.IsTitle) := by
  constructor
  case mpr =>
    rintro ⟨rfl, kept⟩
    exact .line h plain under kept
  case mp =>
    intro hl
    cases hl with
    | line h' _ under' kept =>
      have hn : (before ++ l :: after).Nodup := h ▸ hp.imp fun hlt => ne_of_apply_ne _ hlt.ne
      have hm := (List.nodup_cons.mp (List.nodup_middle.mp hn)).left
      rw [List.mem_append, not_or] at hm
      obtain ⟨rfl, _, rfl⟩ :=
        (List.append_cons_inj_of_notMem hm.left hm.right).mp (h.symm.trans h')
      obtain rfl := under.unique under'
      exact ⟨rfl, kept⟩
    | @title m rest last _ =>
      have ⟨hm, ht⟩ : m ∈ lines ∧ m.IsTitle := by simpa using List.mem_of_getLast? last
      have hl : ⟨trim rest, m.number⟩ ∈ lines := by simp [h]
      have he := eq_of_number_eq hp hm hl rfl
      exact absurd (he ▸ ht.isHeading) plain

theorem keys_sections {text : List Char} : (sections text).keys =
    ((numberedLines text).foldl Splitter.step {}).sections.keys := by
  simp [sections, Record.keys]

-- The lines are those of the document, each with its number.
theorem sections_divided (text : List Char) :
    (∀ l, l ∈ numberedLines text ↔
      0 < l.number ∧ (splitLines text)[l.number - 1]? = some l.text) ∧
    Divided (numberedLines text) (sections text) := by
  have hg := Splitter.Gathers.start.foldl (numberedLines text)
  rw [List.nil_append] at hg
  have hh (name : String) (e : Line) : e ∈ linesOf (sections text) name ↔
      Holds (numberedLines text) name e := by
    rw [linesOf, getD_get?_sections, List.mem_reverse, hg.holds]
  refine ⟨fun l => mem_numberedLines_iff, ?_⟩
  constructor
  case body      => exact keys_sections ▸ hg.body
  case distinct  => exact keys_sections ▸ hg.nodup
  case opened    => exact keys_sections ▸ hg.keys
  case ascending =>
    intro name
    have hn := (List.pairwise_map.mpr numberedLines_pairwise).sublist (hg.numbers name)
    rw [linesOf, getD_get?_sections]
    exact List.pairwise_map.mp hn
  case once      =>
    intro before l after h plain
    obtain ⟨home, under⟩ := Under.exists_under before
    refine ⟨home, under, fun name => ?_⟩
    rw [hh, holds_iff_of_under numberedLines_pairwise h plain under]
  case title     =>
    intro m rest last ht
    rw [linesOf, getD_get?_sections, List.head?_reverse]
    exact hg.title m rest last ht
  case only      =>
    intro name e he
    cases (hh name e).mp he with
    | line h plain  => exact .inl ⟨h ▸ by simp, plain⟩
    | title last ht => exact .inr ⟨rfl, _, _, last, ht, rfl⟩

-- Two headings name sections that are there, and the title gives up what stood in one of them.
example : sections "a\n## Title\nb\n# T\nc\n## BODY\nd".toList =
    [("body", [⟨['a'], 1⟩, ⟨['d'], 7⟩]), ("title", [⟨['T'], 4⟩, ⟨['c'], 5⟩])] := by
  decide +kernel

end LayeredDiagram.Spec
