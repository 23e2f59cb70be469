import LayeredDiagram.Markup.Element
import LayeredDiagram.Proofs.Markup.Escape

namespace LayeredDiagram.Markup

-- An element that has been read. The values of its attributes are as they are written.
inductive Branch where
  | node (tag : List Char) (attributes : List (List Char × List Char)) (children : List Branch)

namespace Branch

mutual

def values : Branch → List (List Char)
  | node _ attributes children => attributes.map (·.2) ++ valuesAll children

def valuesAll : List Branch → List (List Char)
  | [] => []
  | t :: ts => t.values ++ valuesAll ts

end

end Branch

-- A tag up to its latest attribute. The latest comes first.
structure Start where
  tag : List Char
  attributes : List (List Char × List Char) := []

namespace Start

-- Children come latest first, too.
def branch (s : Start) (children : List Branch) : Branch :=
  .node s.tag s.attributes.reverse children.reverse

def values (s : Start) : List (List Char) :=
  s.attributes.map (·.2)

end Start

-- Where a reader stands. What it has read of a run is kept in reverse.
inductive Place where
  | content (run : List Char)
  | opened
  | tag (run : List Char)
  | next (s : Start)
  | key (s : Start) (run : List Char)
  | quote (s : Start) (key : List Char)
  | value (s : Start) (key run : List Char)
  | empty (s : Start)
  | closing (run : List Char)

namespace Place

def values : Place → List (List Char)
  | next s | key s _ | quote s _ | value s _ _ | empty s => s.values
  | _ => []

-- The run that has to be read back as a text.
def pending? : Place → Option (List Char)
  | content run | value _ _ run => some run
  | _ => none

end Place

-- A text is read character by character, and the elements that are still open are kept. Each end
-- belongs to the innermost one.
structure Reader where
  place : Place
  -- What the innermost open element holds so far, latest first.
  children : List Branch
  -- The open elements, innermost first, and what is before them in the element around each.
  outer : List (Start × List Branch)

namespace Reader

def start : Reader :=
  ⟨.content [], [], []⟩

def afterName? (r : Reader) (s : Start) (c : Char) : Option Reader :=
  if c = ' ' then some { r with place := .key s [] }
  else if c = '/' then some { r with place := .empty s }
  else if c = '>' then some ⟨.content [], [], (s, r.children) :: r.outer⟩
  else none

def close? (r : Reader) (tag : List Char) : Option Reader :=
  match r.outer with
  | [] => none
  | (s, before) :: outer =>
    if s.tag = tag then some ⟨.content [], s.branch r.children :: before, outer⟩ else none

-- Outside of all elements there is no text.
def step? (r : Reader) (c : Char) : Option Reader :=
  match r.place with
  | .content run =>
    if c = '<' then
      if (unescape? run.reverse).isSome then some { r with place := .opened } else none
    else if r.outer.isEmpty then none
    else some { r with place := .content (c :: run) }
  | .opened =>
    if c = '/' then some { r with place := .closing [] }
    else if c.isAlpha then some { r with place := .tag [c] }
    else none
  | .tag run =>
    if c.isAlpha then some { r with place := .tag (c :: run) }
    else r.afterName? { tag := run.reverse } c
  | .next s => r.afterName? s c
  | .key s run =>
    if isNameChar c then some { r with place := .key s (c :: run) }
    else if c = '=' ∧ run ≠ [] then some { r with place := .quote s run.reverse }
    else none
  | .quote s key => if c = '"' then some { r with place := .value s key [] } else none
  | .value s key run =>
    if c = '"' then
      if (unescape? run.reverse).isSome then
        some { r with place := .next { s with attributes := (key, run.reverse) :: s.attributes } }
      else none
    else some { r with place := .value s key (c :: run) }
  | .empty s => if c = '>' then some ⟨.content [], s.branch [] :: r.children, r.outer⟩ else none
  | .closing run =>
    if c = '>' then r.close? run.reverse
    else if c.isAlpha then some { r with place := .closing (c :: run) }
    else none

-- The values of attributes in what has been read up to the current tag.
def held (r : Reader) : List (List Char) :=
  Branch.valuesAll r.children ++
    r.outer.flatMap fun (s, before) => s.values ++ Branch.valuesAll before

end Reader

-- The one element that a text consists of.
def read? (cs : List Char) : Option Branch :=
  match cs.foldlM Reader.step? Reader.start with
  | some ⟨.content [], [t], []⟩ => some t
  | _ => none

-- A text that is a single well-nested element, told by its characters as well.
structure WellFormed (cs : List Char) (t : Branch) : Prop where
  read : read? cs = some t
  tags : ∀ rest, '<' :: rest <:+ cs → ∃ c rest', rest = c :: rest' ∧ (c = '/' ∨ c.isAlpha)
  values : ∀ v ∈ t.values, ∀ c ∈ v, c ≠ '<' ∧ c ≠ '>' ∧ c ≠ '"' ∧ c ≠ '\''
  entities : ∀ rest, '&' :: rest <:+ cs →
    ∃ name ∈ ["&amp;", "&lt;", "&gt;", "&quot;", "&apos;"], name.toList <+: '&' :: rest

variable {r r' r'' : Reader} {cs ds run : List Char} {c : Char} {t : Branch}

-- Reading `cs` leads from one reader to the other.
def Reads (r : Reader) (cs : List Char) (r' : Reader) : Prop :=
  cs.foldlM Reader.step? r = some r'

namespace Reads

theorem refl : Reads r [] r :=
  rfl

theorem cons_iff : Reads r (c :: cs) r'' ↔ ∃ r', r.step? c = some r' ∧ Reads r' cs r'' := by
  rw [Reads, List.foldlM_cons]
  exact Option.bind_eq_some_iff

theorem append_iff : Reads r (cs ++ ds) r'' ↔ ∃ r', Reads r cs r' ∧ Reads r' ds r'' := by
  rw [Reads, List.foldlM_append]
  exact Option.bind_eq_some_iff

theorem cons (h : r.step? c = some r') (hr : Reads r' cs r'') : Reads r (c :: cs) r'' :=
  cons_iff.mpr ⟨r', h, hr⟩

theorem trans (h₁ : Reads r cs r') (h₂ : Reads r' ds r'') : Reads r (cs ++ ds) r'' :=
  append_iff.mpr ⟨r', h₁, h₂⟩

end Reads

theorem read?_eq_some_iff :
    read? cs = some t ↔ Reads Reader.start cs ⟨.content [], [t], []⟩ := by
  rw [read?, Reads]
  constructor
  case mp =>
    intro h
    split at h
    case h_1 hr =>
      cases h
      exact hr
    case h_2 => nomatch h
  case mpr =>
    intro h
    rw [h]

section Characters

-- A run that has to be read back either can be or goes on.
theorem Reader.pending?_of_step? (h : r.step? c = some r') (hp : r.place.pending? = some run) :
    (unescape? run.reverse).isSome ∨ r'.place.pending? = some (c :: run) := by
  obtain ⟨place, children, outer⟩ := r
  cases place with
  | content run =>
    cases hp
    simp only [step?] at h
    split_ifs at h with hc hu ho
    case pos => exact .inl hu
    case neg =>
      cases h
      exact .inr rfl
  | value s key run =>
    cases hp
    simp only [step?] at h
    split_ifs at h with hc hu
    case pos => exact .inl hu
    case neg =>
      cases h
      exact .inr rfl
  | _ => nomatch hp

-- An ampersand is part of a run wherever it is read. An opening bracket that is not begins a tag.
theorem Reader.pending?_of_mark (hc : c = '&' ∨ c = '<') (h : r.step? c = some r') :
    (c = '<' ∧ r'.place = .opened) ∨ ∃ run, r'.place.pending? = some (c :: run) := by
  have ⟨ha, hn⟩ : c.isAlpha = false ∧ isNameChar c = false := by
    obtain rfl | rfl := hc <;> decide
  have hd : c ≠ ' ' ∧ c ≠ '/' ∧ c ≠ '>' ∧ c ≠ '=' ∧ c ≠ '"' := by
    obtain rfl | rfl := hc <;> decide
  obtain ⟨place, children, outer⟩ := r
  cases place with
  | content run =>
    simp only [step?] at h
    split_ifs at h with hl
    case pos =>
      cases h
      exact .inl ⟨hl, rfl⟩
    case neg =>
      cases h
      exact .inr ⟨run, rfl⟩
  | value s key run =>
    simp only [step?, if_neg hd.right.right.right.right] at h
    cases h
    exact .inr ⟨run, rfl⟩
  | _ => simp [step?, afterName?, ha, hn, hd] at h

theorem Reads.exists_unescape? (h : Reads r cs ⟨.content [], [t], []⟩)
    (hp : r.place.pending? = some run) :
    ∃ more, more <+: cs ∧ (unescape? (run.reverse ++ more)).isSome := by
  induction cs generalizing r run with
  | nil =>
    cases h
    cases hp
    exact ⟨[], List.nil_prefix, by simp [unescape?]⟩
  | cons c cs hi =>
    obtain ⟨r', hs, hr⟩ := cons_iff.mp h
    obtain hu | hc := r.pending?_of_step? hs hp
    case inl => exact ⟨[], List.nil_prefix, by rwa [List.append_nil]⟩
    case inr =>
      obtain ⟨more, hm, hu⟩ := hi hr hc
      exact ⟨c :: more, List.cons_prefix_cons.mpr ⟨rfl, hm⟩, by simpa using hu⟩

-- From a mark on, a text that is read is an entity, or the rest of a tag.
theorem Reads.of_mark (hc : c = '&' ∨ c = '<')
    (h : Reads r (ds ++ c :: cs) ⟨.content [], [t], []⟩) :
    (c = '<' ∧ ∃ r', r'.place = .opened ∧ Reads r' cs ⟨.content [], [t], []⟩) ∨
      ∃ front more, more <+: cs ∧ (unescape? (front ++ c :: more)).isSome := by
  obtain ⟨r₁, _, h⟩ := append_iff.mp h
  obtain ⟨r₂, hs, hr⟩ := cons_iff.mp h
  obtain ⟨rfl, hp⟩ | ⟨run, hp⟩ := Reader.pending?_of_mark hc hs
  case inl => exact .inl ⟨rfl, r₂, hp, hr⟩
  case inr =>
    have ⟨more, hm, hu⟩ := hr.exists_unescape? hp
    exact .inr ⟨run.reverse, more, hm, by simpa using hu⟩

theorem Reads.exists_of_opened (h : Reads r cs ⟨.content [], [t], []⟩) (hp : r.place = .opened) :
    ∃ c cs', cs = c :: cs' ∧ (c = '/' ∨ c.isAlpha) := by
  cases cs with
  | nil       =>
    cases h
    nomatch hp
  | cons c cs =>
    have ⟨r', hs, _⟩ := cons_iff.mp h
    simp only [Reader.step?, hp] at hs
    split_ifs at hs with hc ha
    case pos => exact ⟨c, cs, rfl, .inl hc⟩
    case pos => exact ⟨c, cs, rfl, .inr ha⟩

end Characters

section Values

variable {v : List Char} {s : Start}

theorem Branch.mem_valuesAll {ts : List Branch} : v ∈ valuesAll ts ↔ ∃ t ∈ ts, v ∈ t.values := by
  induction ts with
  | nil          => simp [valuesAll]
  | cons t ts hi => simp [valuesAll, hi]

theorem Start.mem_values_branch {ts : List Branch} :
    v ∈ (s.branch ts).values ↔ v ∈ s.values ∨ v ∈ Branch.valuesAll ts := by
  simp [Start.branch, Branch.values, Start.values, Branch.mem_valuesAll]

def Reader.Holds (r : Reader) (v : List Char) : Prop :=
  v ∈ r.place.values ∨ v ∈ r.held

theorem Reader.holds_of_afterName? (h : r.afterName? s c = some r') (hv : r'.Holds v) :
    v ∈ s.values ∨ v ∈ r.held := by
  unfold afterName? at h
  split_ifs at h
  case pos =>
    cases h
    exact hv
  case pos =>
    cases h
    exact hv
  case pos =>
    cases h
    simpa [Holds, held, Place.values, Branch.valuesAll] using hv

theorem Reader.holds_of_close? {tag : List Char} (h : r.close? tag = some r') (hv : r'.Holds v) :
    v ∈ r.held := by
  unfold close? at h
  split at h
  case h_1 => nomatch h
  case h_2 ho =>
    split_ifs at h
    cases h
    simp only [Holds, held, Place.values, Branch.valuesAll, Start.mem_values_branch, ho,
      List.flatMap_cons, List.mem_append, List.not_mem_nil, false_or, or_assoc] at hv ⊢
    exact or_left_comm.mp hv

-- No value of an attribute comes from anywhere but a run that can be read back.
theorem Reader.holds_of_step? (h : r.step? c = some r') (hv : r'.Holds v) :
    r.Holds v ∨ (unescape? v).isSome := by
  obtain ⟨place, children, outer⟩ := r
  cases place with
  | tag run =>
    simp only [step?] at h
    split_ifs at h
    case pos =>
      cases h
      exact .inl hv
    case neg =>
      obtain hs | hr := holds_of_afterName? h hv
      case inl => nomatch hs
      case inr => exact .inl (.inr hr)
  | next s => exact .inl (holds_of_afterName? h hv)
  | value s key run =>
    simp only [step?] at h
    split_ifs at h with hc hu
    case pos =>
      cases h
      obtain hv | hv := hv
      case inl =>
        obtain rfl | hv := List.mem_cons.mp hv
        case inl => exact .inr hu
        case inr => exact .inl (.inl hv)
      case inr => exact .inl (.inr hv)
    case neg =>
      cases h
      exact .inl hv
  | closing run =>
    simp only [step?] at h
    split_ifs at h
    case pos => exact .inl (.inr (holds_of_close? h hv))
    case pos =>
      cases h
      exact .inl hv
  | empty s =>
    simp only [step?] at h
    split_ifs at h
    cases h
    left
    simpa only [Holds, held, Place.values, Branch.valuesAll, Start.mem_values_branch,
      List.mem_append, List.not_mem_nil, false_or, or_false, or_assoc] using hv
  | _ =>
    simp only [step?] at h
    split_ifs at h <;> cases h <;> exact .inl hv

theorem Reads.holds (h : Reads r cs r') (hv : r'.Holds v) :
    r.Holds v ∨ (unescape? v).isSome := by
  induction cs generalizing r with
  | nil =>
    cases h
    exact .inl hv
  | cons c cs hi =>
    have ⟨_, hs, hr⟩ := cons_iff.mp h
    obtain hv | hu := hi hr
    case inl => exact Reader.holds_of_step? hs hv
    case inr => exact .inr hu

end Values

section WellFormed

-- Only ampersands can be read back as marks, and only as those that begin entities.
theorem exists_of_unescape? (h : (unescape? (ds ++ c :: cs)).isSome) (hc : IsMark c) :
    c = '&' ∧ ∃ e ∈ entities, e.1 <+: c :: cs := by
  obtain ⟨text, ht⟩ := Option.isSome_iff_exists.mp h
  exact exists_of_escape_eq (escape_of_unescape? ht) hc

theorem not_isMark_of_unescape? (h : (unescape? cs).isSome) (hin : c ∈ cs) (ha : c ≠ '&') :
    ¬IsMark c := by
  obtain ⟨front, back, rfl⟩ := List.mem_iff_append.mp hin
  exact fun hc => ha (exists_of_unescape? h hc).left

theorem wellFormed_of_read? (h : read? cs = some t) : WellFormed cs t where
  read := h
  tags rest hs := by
    obtain ⟨front, rfl⟩ := hs
    obtain ⟨_, r, hp, hr⟩ | ⟨front, more, _, hu⟩ := (read?_eq_some_iff.mp h).of_mark (.inr rfl)
    case inl => exact hr.exists_of_opened hp
    case inr => exact absurd (exists_of_unescape? hu (by decide)).left (by decide)
  values v hv c hin := by
    have hv : Reader.Holds ⟨.content [], [t], []⟩ v := by
      simpa [Reader.Holds, Reader.held, Place.values, Branch.valuesAll] using hv
    obtain hs | hu := (read?_eq_some_iff.mp h).holds hv
    case inl => simp [Reader.Holds, Reader.held, Reader.start, Place.values, Branch.valuesAll] at hs
    case inr =>
      have hm (hd : c ≠ '&') : ¬IsMark c := not_isMark_of_unescape? hu hin hd
      refine ⟨?_, ?_, ?_, ?_⟩ <;> rintro rfl <;> exact hm (by decide) (by decide)
  entities rest hs := by
    obtain ⟨front, rfl⟩ := hs
    obtain ⟨hn, _⟩ | ⟨front, more, hm, hu⟩ := (read?_eq_some_iff.mp h).of_mark (.inl rfl)
    case inl => exact absurd hn (by decide)
    case inr =>
      obtain ⟨_, e, he, hp⟩ := exists_of_unescape? hu (by decide)
      have hr : e.1 <+: '&' :: rest := hp.trans (List.cons_prefix_cons.mpr ⟨rfl, hm⟩)
      have hnames : ∀ e ∈ entities,
          String.ofList e.1 ∈ ["&amp;", "&lt;", "&gt;", "&quot;", "&apos;"] := by
        decide
      exact ⟨String.ofList e.1, hnames e he, by rwa [String.toList_ofList]⟩

end WellFormed

end LayeredDiagram.Markup
