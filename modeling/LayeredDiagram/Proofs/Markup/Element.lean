import LayeredDiagram.Proofs.Markup.Attribute
import LayeredDiagram.Proofs.Markup.Reader
import LayeredDiagram.Proofs.Number.Written

namespace LayeredDiagram

namespace Markup

-- A tag consists of letters.
def IsTag (cs : List Char) : Prop :=
  cs ≠ [] ∧ cs.all Char.isAlpha

instance : DecidablePred IsTag := fun cs =>
  inferInstanceAs (Decidable (cs ≠ [] ∧ cs.all Char.isAlpha))

def keyChars (key : String) : List Char :=
  key.toList.filter isNameChar

-- An attribute as it is read.
def pair (a : String × AttributeValue) : List Char × List Char :=
  (keyChars a.1, AttributeValue.write a.2)

-- A name, and a value that can be read back.
structure IsPair (a : List Char × List Char) : Prop where
  nonempty : a.1 ≠ []
  key : ∀ c ∈ a.1, isNameChar c
  value : IsText a.2

def writePair (a : List Char × List Char) : List Char :=
  ' ' :: (a.1 ++ ['=', '"'] ++ a.2 ++ ['"'])

def writeStart (tag : List Char) (pairs : List (List Char × List Char)) : List Char :=
  '<' :: (tag ++ pairs.flatMap writePair)

end Markup

namespace Element

open Markup

mutual

-- All tags and names of attributes are proper ones.
def Named : Element → Prop
  | node tag attributes _ children => IsTag tag.toList ∧
    (∀ key ∈ attributes.map (·.1), keyChars key ≠ []) ∧ NamedAll children

def NamedAll : List Element → Prop
  | [] => True
  | e :: es => e.Named ∧ NamedAll es

end

mutual

def branch : Element → Branch
  | node tag attributes _ children => .node tag.toList (attributes.map pair) (branches children)

def branches : List Element → List Branch
  | [] => []
  | e :: es => e.branch :: branches es

end

end Element

namespace Markup

variable {r r' : Reader} {cs run : List Char} {c : Char} {p : Place} {s : Start} {ts : List Branch}
variable {outer : List (Start × List Branch)} {tag : List Char}
variable {a : List Char × List Char} {pairs : List (List Char × List Char)}

section Runs

theorem unmarked_of_isNumeral (h : Number.IsNumeral cs) : Unmarked cs := by
  intro c hc hm
  have hn := h c hc
  obtain rfl | rfl | rfl | rfl | rfl := hm <;> exact absurd hn (by decide)

theorem Unmarked.isText (h : Unmarked cs) : IsText cs :=
  ⟨cs, escape_of_unmarked h⟩

theorem IsText.append {ds : List Char} (hc : IsText cs) (hd : IsText ds) : IsText (cs ++ ds) := by
  obtain ⟨text, rfl⟩ := hc
  obtain ⟨more, rfl⟩ := hd
  exact ⟨text ++ more, escape_append⟩

theorem isText_write (v : AttributeValue) : IsText (AttributeValue.write v) := by
  cases v with
  | text s =>
    have ⟨ds, _, h⟩ := exists_escape_of_escapeAttribute s.toList
    exact ⟨ds, h.symm⟩
  | number x => exact (unmarked_of_isNumeral (.text _)).isText

theorem isPair_pair {a : String × AttributeValue} (h : keyChars a.1 ≠ []) : IsPair (pair a) where
  nonempty := h
  key _ hc := (List.mem_filter.mp hc).right
  value := isText_write a.2

theorem isPair_of_mem_map {attributes : List (String × AttributeValue)}
    (h : ∀ key ∈ attributes.map (·.1), keyChars key ≠ []) :
    ∀ a ∈ attributes.map pair, IsPair a := by
  intro a ha
  obtain ⟨b, hb, rfl⟩ := List.mem_map.mp ha
  exact isPair_pair (h b.1 (List.mem_map_of_mem hb))

theorem openTag_eq {tag : String} {attributes : List (String × AttributeValue)} :
    openTag tag attributes = writeStart tag.toList (attributes.map pair) := by
  rw [writeStart, List.flatMap_map]
  rfl

theorem IsText.ne_of_mem (ht : IsText cs) (h : c ∈ cs) : c ≠ '<' ∧ c ≠ '"' := by
  have hu := isSome_unescape?.mpr ht
  constructor <;> rintro rfl <;> exact not_isMark_of_unescape? hu h (by decide) (by decide)

namespace Reads

-- A run is kept in reverse.
theorem collect {r : List Char → Reader}
    (h : ∀ c ∈ cs, ∀ run, (r run).step? c = some (r (c :: run))) :
    Reads (r run) cs (r (cs.reverse ++ run)) := by
  induction cs generalizing run with
  | nil          => exact refl
  | cons c cs hi =>
    have ⟨hc, hcs⟩ := List.forall_mem_cons.mp h
    rw [List.reverse_cons, List.append_assoc]
    exact cons (hc run) (hi hcs)

theorem tagRun (h : ∀ c ∈ cs, c.isAlpha) :
    Reads ⟨.tag run, ts, outer⟩ cs ⟨.tag (cs.reverse ++ run), ts, outer⟩ :=
  @collect cs run (⟨.tag ·, ts, outer⟩) fun c hc run => by simp [Reader.step?, h c hc]

theorem keyRun (h : ∀ c ∈ cs, isNameChar c) :
    Reads ⟨.key s run, ts, outer⟩ cs ⟨.key s (cs.reverse ++ run), ts, outer⟩ :=
  @collect cs run (⟨.key s ·, ts, outer⟩) fun c hc run => by simp [Reader.step?, h c hc]

theorem valueRun {key : List Char} (h : ∀ c ∈ cs, c ≠ '"') :
    Reads ⟨.value s key run, ts, outer⟩ cs ⟨.value s key (cs.reverse ++ run), ts, outer⟩ :=
  @collect cs run (⟨.value s key ·, ts, outer⟩) fun c hc run => by simp [Reader.step?, h c hc]

theorem textRun (h : ∀ c ∈ cs, c ≠ '<') (ho : outer ≠ []) :
    Reads ⟨.content run, ts, outer⟩ cs ⟨.content (cs.reverse ++ run), ts, outer⟩ :=
  @collect cs run (⟨.content ·, ts, outer⟩) fun c hc run => by simp [Reader.step?, h c hc, ho]

theorem closingRun (h : ∀ c ∈ cs, c.isAlpha) :
    Reads ⟨.closing run, ts, outer⟩ cs ⟨.closing (cs.reverse ++ run), ts, outer⟩ :=
  @collect cs run (⟨.closing ·, ts, outer⟩) fun c hc run => by
    have hd : c ≠ '>' := by
      rintro rfl
      exact absurd (h _ hc) (by decide)
    simp [Reader.step?, h c hc, hd]

end Reads

end Runs

section Tags

-- The tag that is complete so far, if a reader stands at the end of a name or a value.
def Place.start? : Place → Option Start
  | .tag run => some { tag := run.reverse }
  | .next s => some s
  | _ => none

theorem Reader.step?_of_start? (h : p.start? = some s) (hc : c.isAlpha = false) :
    step? ⟨p, ts, outer⟩ c = afterName? ⟨p, ts, outer⟩ s c := by
  cases p <;> cases h
  case tag => simp [step?, hc]
  case next => rfl

namespace Reads

theorem ofPair (h : p.start? = some s) (ha : IsPair a) :
    Reads ⟨p, ts, outer⟩ (writePair a)
      ⟨.next { s with attributes := a :: s.attributes }, ts, outer⟩ := by
  obtain ⟨key, value⟩ := a
  obtain ⟨hne, hk, hv⟩ := ha
  have h₁ : Reads ⟨p, ts, outer⟩ [' '] ⟨.key s [], ts, outer⟩ :=
    cons (Reader.step?_of_start? h rfl) refl
  have h₂ : Reads ⟨.key s (key.reverse ++ []), ts, outer⟩ ['=', '"']
      ⟨.value s key [], ts, outer⟩ := by
    simp [Reads, Reader.step?, hne, show isNameChar '=' = false by rfl]
  have h₃ : Reads ⟨.value s key (value.reverse ++ []), ts, outer⟩ ['"']
      ⟨.next { s with attributes := (key, value) :: s.attributes }, ts, outer⟩ := by
    simp [Reads, Reader.step?, isSome_unescape?.mpr hv]
  have hq : ∀ c ∈ value, c ≠ '"' := fun _ hc => (hv.ne_of_mem hc).right
  exact h₁.trans ((((keyRun hk).trans h₂).trans (valueRun hq)).trans h₃)

theorem ofPairs (h : p.start? = some s) (hp : ∀ a ∈ pairs, IsPair a) :
    ∃ p', p'.start? = some { s with attributes := pairs.reverse ++ s.attributes } ∧
      Reads ⟨p, ts, outer⟩ (pairs.flatMap writePair) ⟨p', ts, outer⟩ := by
  induction pairs generalizing p s with
  | nil             => exact ⟨p, h, refl⟩
  | cons a pairs hi =>
    have ⟨ha, has⟩ := List.forall_mem_cons.mp hp
    obtain ⟨p', hp', hr⟩ := @hi (.next _) _ rfl has
    exact ⟨p', by simpa using hp', (ofPair h ha).trans hr⟩

theorem ofStart (ht : IsTag tag) (hp : ∀ a ∈ pairs, IsPair a) (hr : IsText run.reverse) :
    ∃ p, p.start? = some ⟨tag, pairs.reverse⟩ ∧
      Reads ⟨.content run, ts, outer⟩ (writeStart tag pairs) ⟨p, ts, outer⟩ := by
  cases tag with
  | nil       => exact absurd rfl ht.left
  | cons c cs =>
    have ⟨hc, hcs⟩ := List.forall_mem_cons.mp (List.all_eq_true.mp ht.right)
    have h₁ : Reads ⟨.content run, ts, outer⟩ ['<', c] ⟨.tag [c], ts, outer⟩ := by
      have hd : c ≠ '/' := by
        rintro rfl
        exact absurd hc (by decide)
      simp [Reads, Reader.step?, isSome_unescape?.mpr hr, hc, hd]
    have hs : (Place.tag (cs.reverse ++ [c])).start? = some { tag := c :: cs } := by
      simp [Place.start?]
    obtain ⟨p, hp, h₂⟩ := ofPairs hs hp
    exact ⟨p, by simpa using hp, h₁.trans ((tagRun hcs).trans h₂)⟩

theorem ofEnd {before : List Branch} (ht : IsTag s.tag) (hr : IsText run.reverse) :
    Reads ⟨.content run, ts, (s, before) :: outer⟩ (['<', '/'] ++ s.tag ++ ['>'])
      ⟨.content [], s.branch ts :: before, outer⟩ := by
  have h₁ : Reads ⟨.content run, ts, (s, before) :: outer⟩ ['<', '/']
      ⟨.closing [], ts, (s, before) :: outer⟩ := by
    simp [Reads, Reader.step?, isSome_unescape?.mpr hr]
  have h₂ : Reads ⟨.closing (s.tag.reverse ++ []), ts, (s, before) :: outer⟩ ['>']
      ⟨.content [], s.branch ts :: before, outer⟩ := by
    simp [Reads, Reader.step?, Reader.close?]
  exact (h₁.trans (closingRun (List.all_eq_true.mp ht.right))).trans h₂

-- An element that closes itself.
theorem ofLeaf (ht : IsTag tag) (hp : ∀ a ∈ pairs, IsPair a) (hr : IsText run.reverse) :
    Reads ⟨.content run, ts, outer⟩ (writeStart tag pairs ++ ['/', '>'])
      ⟨.content [], .node tag pairs [] :: ts, outer⟩ := by
  obtain ⟨p, hs, h⟩ := ofStart ht hp hr
  refine h.trans ?_
  have h₁ : Reads ⟨p, ts, outer⟩ ['/'] ⟨.empty ⟨tag, pairs.reverse⟩, ts, outer⟩ :=
    cons (Reader.step?_of_start? hs rfl) refl
  have h₂ : Reads ⟨.empty ⟨tag, pairs.reverse⟩, ts, outer⟩ ['>']
      ⟨.content [], .node tag pairs [] :: ts, outer⟩ := by
    simp [Reads, Reader.step?, Start.branch]
  exact h₁.trans h₂

-- An element around what is read as `children`.
theorem ofBranch {children : List Branch} {run' : List Char} (ht : IsTag tag)
    (hp : ∀ a ∈ pairs, IsPair a) (hr : IsText run.reverse)
    (hr' : IsText run'.reverse)
    (hc : Reads ⟨.content [], [], (⟨tag, pairs.reverse⟩, ts) :: outer⟩ cs
      ⟨.content run', children.reverse, (⟨tag, pairs.reverse⟩, ts) :: outer⟩) :
    Reads ⟨.content run, ts, outer⟩
      (writeStart tag pairs ++ ['>'] ++ cs ++ (['<', '/'] ++ tag ++ ['>']))
      ⟨.content [], .node tag pairs children :: ts, outer⟩ := by
  obtain ⟨p, hs, h⟩ := ofStart ht hp hr
  have h₁ : Reads ⟨p, ts, outer⟩ ['>'] ⟨.content [], [], (⟨tag, pairs.reverse⟩, ts) :: outer⟩ :=
    cons (Reader.step?_of_start? hs rfl) refl
  have h₂ : Reads ⟨.content run', children.reverse, (⟨tag, pairs.reverse⟩, ts) :: outer⟩
      (['<', '/'] ++ tag ++ ['>'])
      ⟨.content [], (Start.mk tag pairs.reverse).branch children.reverse :: ts, outer⟩ :=
    ofEnd ht hr'
  have hn : (Start.mk tag pairs.reverse).branch children.reverse = .node tag pairs children := by
    simp [Start.branch]
  exact hn ▸ ((h.trans h₁).trans hc).trans h₂

end Reads

end Tags

end Markup

namespace Element

variable {es : List Element}

theorem namedAll_iff : NamedAll es ↔ ∀ e ∈ es, e.Named := by
  induction es with
  | nil          => simp [NamedAll]
  | cons e es hi => simp [NamedAll, hi]

theorem branches_eq : branches es = es.map branch := by
  induction es with
  | nil          => rfl
  | cons e es hi => rw [branches, hi, List.map_cons]

end Element

namespace Markup

section Elements

variable {run : List Char} {text : Option String} {children : List (List Char)}

theorem serialize_eq_of_ne {name : String} {attributes : List (String × AttributeValue)}
    (h : text ≠ none ∨ children ≠ []) : serialize name attributes text children =
      writeStart name.toList (attributes.map pair) ++ ['>'] ++
        (escape ((text.map String.toList).getD []) ++ children.flatten) ++
        (['<', '/'] ++ name.toList ++ ['>']) := by
  unfold serialize
  split
  case h_1 => simp at h
  case h_2 => simp [openTag_eq]

mutual

-- What the texts hold does not matter: a text ends at an opening bracket and a value at a double
-- quote, and neither stands in an escaped text.
theorem reads_render : ∀ {e : Element} {run : List Char} {ts : List Branch} {outer}, e.Named →
    IsText run.reverse →
    Reads ⟨.content run, ts, outer⟩ e.render ⟨.content [], e.branch :: ts, outer⟩
  | .node name attributes text children, run, ts, outer, ⟨ht, hk, hc⟩, hr => by
    have hp : ∀ a ∈ attributes.map pair, IsPair a := isPair_of_mem_map hk
    rw [Element.render]
    by_cases hne : text ≠ none ∨ Element.renderAll children ≠ []
    case pos =>
      rw [serialize_eq_of_ne hne]
      have ht' : IsText (escape ((text.map String.toList).getD [])) := ⟨_, rfl⟩
      have hb : ∀ c ∈ escape ((text.map String.toList).getD []), c ≠ '<' :=
        fun _ hc => (ht'.ne_of_mem hc).left
      obtain ⟨run', hr', hrs⟩ := @reads_renderAll children
        ((escape ((text.map String.toList).getD [])).reverse ++ []) []
        ((⟨name.toList, (attributes.map pair).reverse⟩, ts) :: outer) hc (by simpa using ht')
      rw [(Element.branches children).reverse.append_nil] at hrs
      exact .ofBranch ht hp hr hr' ((Reads.textRun hb (List.cons_ne_nil _ _)).trans hrs)
    case neg =>
      obtain ⟨rfl, hn⟩ : text = none ∧ Element.renderAll children = [] := by simpa using hne
      cases children with
      | nil =>
        have h : Reads ⟨.content run, ts, outer⟩ _ _ := .ofLeaf ht hp hr
        rwa [← openTag_eq] at h
      | cons c _ => nomatch hn

theorem reads_renderAll : ∀ {es : List Element} {run : List Char} {ts : List Branch} {outer},
    Element.NamedAll es → IsText run.reverse → ∃ run', IsText run'.reverse ∧
      Reads ⟨.content run, ts, outer⟩ (Element.renderAll es).flatten
        ⟨.content run', (Element.branches es).reverse ++ ts, outer⟩
  | [], run, _, _, _, hr => ⟨run, hr, .refl⟩
  | e :: es, run, ts, outer, ⟨he, hes⟩, hr => by
    obtain ⟨run', hr', hrs⟩ := @reads_renderAll es [] (e.branch :: ts) outer hes isText_nil
    have h₁ : Reads ⟨.content run, ts, outer⟩ e.render ⟨.content [], e.branch :: ts, outer⟩ :=
      reads_render he hr
    exact ⟨run', hr', by simpa [Element.renderAll, Element.branches] using h₁.trans hrs⟩

end

end Elements

end Markup

end LayeredDiagram
