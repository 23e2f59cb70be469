import LayeredDiagram.Proofs.Markup.Element

namespace LayeredDiagram

namespace Markup

-- An element that has been read, with the text that stands right inside of it.
inductive TextTree where
  | node (tag text : List Char) (children : List TextTree)

-- An element that is being read. The latest of its children comes first.
structure Draft where
  tag : List Char
  text : List Char := []
  children : List TextTree := []

namespace Draft

def say (d : Draft) (text : List Char) : Draft :=
  { d with text := d.text ++ text }

def add (d : Draft) (t : TextTree) : Draft :=
  { d with children := t :: d.children }

def tree (d : Draft) : TextTree :=
  .node d.tag d.text d.children.reverse

end Draft

-- Where the reader stands: the characters since the latest bracket in reverse, and the elements
-- that are open, innermost first. Around all of them is the document.
structure Scan where
  inTag : Bool
  run : List Char
  inner : Draft
  outer : List Draft

namespace Scan

def start : Scan :=
  ⟨false, [], { tag := [] }, []⟩

-- What stands between the brackets of a tag ends an element or begins one, or does both.
def tag? (d : Draft) (outer : List Draft) (cs : List Char) : Option Scan :=
  match cs, outer with
  | '/' :: _, [] => none
  | '/' :: name, next :: outer =>
    if name = d.tag then some ⟨false, [], next.add d.tree, outer⟩ else none
  | cs, outer =>
    let name := cs.takeWhile Char.isAlpha
    if cs.getLast? = some '/' then some ⟨false, [], d.add (.node name [] []), outer⟩
    else some ⟨false, [], { tag := name }, d :: outer⟩

def step? (s : Scan) (c : Char) : Option Scan :=
  if s.inTag then
    if c = '>' then tag? s.inner s.outer s.run.reverse else some { s with run := c :: s.run }
  else if c = '<' then
    (unescape? s.run.reverse).map fun text => ⟨true, [], s.inner.say text, s.outer⟩
  else some { s with run := c :: s.run }

end Scan

-- The one element that a text consists of.
def TextTree.read? (cs : List Char) : Option TextTree :=
  match cs.foldlM Scan.step? Scan.start with
  | some ⟨false, [], ⟨_, _, [t]⟩, []⟩ => some t
  | _ => none

end Markup

namespace Element

open Markup

mutual

def textTree : Element → TextTree
  | node tag _ text children =>
    .node tag.toList ((text.map String.toList).getD []) (textTrees children)

def textTrees : List Element → List TextTree
  | [] => []
  | e :: es => e.textTree :: textTrees es

end

theorem textTrees_eq {es : List Element} : textTrees es = es.map textTree := by
  induction es with
  | nil          => rfl
  | cons e es hi => rw [textTrees, hi, List.map_cons]

theorem textTree_node {tag : String} {attributes : List (String × AttributeValue)}
    {text : Option String} {children : List Element} :
    (node tag attributes text children).textTree =
      .node tag.toList ((text.map String.toList).getD []) (children.map textTree) := by
  rw [textTree, textTrees_eq]

end Element

namespace Markup

variable {s s' s'' : Scan} {cs ds text tag : List Char} {d d' d'' : Draft} {outer : List Draft}
variable {pairs : List (List Char × List Char)}

def Scans (s : Scan) (cs : List Char) (s' : Scan) : Prop :=
  cs.foldlM Scan.step? s = some s'

theorem Scans.trans (h₁ : Scans s cs s') (h₂ : Scans s' ds s'') : Scans s (cs ++ ds) s'' := by
  rw [Scans, List.foldlM_append, h₁]
  exact h₂

-- The innermost element is `d`, and the end of its text is still to be decoded.
def Scan.Holds (s : Scan) (d : Draft) (outer : List Draft) : Prop :=
  ∃ before text, before.say text = d ∧ s = ⟨false, (escape text).reverse, before, outer⟩

-- Whatever is open around it, `cs` turns the innermost element from `d` into `d'`.
def Tells (cs : List Char) (d d' : Draft) : Prop :=
  ∀ s outer, s.Holds d outer → ∃ s', Scans s cs s' ∧ s'.Holds d' outer

theorem Scan.holds : Holds ⟨false, [], d, outer⟩ d outer :=
  ⟨d, [], by simp [Draft.say], rfl⟩

namespace Tells

theorem refl : Tells [] d d :=
  fun s _ hs => ⟨s, rfl, hs⟩

theorem trans (h₁ : Tells cs d d') (h₂ : Tells ds d' d'') : Tells (cs ++ ds) d d'' := by
  intro s outer hs
  have ⟨s', h₁, hs'⟩ := h₁ s outer hs
  have ⟨s'', h₂, hs''⟩ := h₂ s' outer hs'
  exact ⟨s'', h₁.trans h₂, hs''⟩

end Tells

section Runs

-- A run goes on up to the bracket that ends it.
theorem scans_run {inTag : Bool} {run : List Char} (h : (if inTag then '>' else '<') ∉ cs) :
    Scans ⟨inTag, run, d, outer⟩ cs ⟨inTag, cs.reverse ++ run, d, outer⟩ := by
  induction cs generalizing run with
  | nil          => rfl
  | cons c cs hi =>
    have ⟨hc, hcs⟩ := List.ne_and_not_mem_of_not_mem_cons h
    have hstep : Scans ⟨inTag, run, d, outer⟩ [c] ⟨inTag, c :: run, d, outer⟩ := by
      cases inTag with
      | true  => simp [Scans, Scan.step?, show c ≠ '>' from Ne.symm hc]
      | false => simp [Scans, Scan.step?, show c ≠ '<' from Ne.symm hc]
    simpa using hstep.trans (hi hcs)

theorem tells_text : Tells (escape text) d (d.say text) := by
  rintro s outer ⟨before, said, rfl, rfl⟩
  refine ⟨_, scans_run fun h => (IsText.ne_of_mem ⟨text, rfl⟩ h).left rfl, before, said ++ text,
    by simp [Draft.say], ?_⟩
  rw [escape_append, List.reverse_append]

theorem tells_unmarked (h : Unmarked cs) : Tells cs d (d.say cs) := by
  have ht : Tells (escape cs) d (d.say cs) := tells_text
  rwa [escape_of_unmarked h] at ht

-- A tag is decided by what stands between its brackets.
theorem Scan.Holds.scans_tag (hs : s.Holds d outer) (h : '>' ∉ cs)
    (ht : Scan.tag? d outer cs = some s') : Scans s ('<' :: (cs ++ ['>'])) s' := by
  obtain ⟨before, text, rfl, rfl⟩ := hs
  have hopen : Scans ⟨false, (escape text).reverse, before, outer⟩ ['<']
      ⟨true, [], before.say text, outer⟩ := by
    simp [Scans, Scan.step?, unescape?_escape]
  have hclose : Scans ⟨true, cs.reverse ++ [], before.say text, outer⟩ ['>'] s' := by
    simpa [Scans, Scan.step?] using ht
  exact hopen.trans ((scans_run h).trans hclose)

end Runs

section Tags

-- What is written between the brackets of a tag that begins an element.
def tagRun (tag : List Char) (pairs : List (List Char × List Char)) : List Char :=
  tag ++ pairs.flatMap writePair

theorem IsTag.not_mem (ht : IsTag tag) {c : Char} (hc : c.isAlpha = false) : c ∉ tag :=
  fun h => Bool.false_ne_true (hc.symm.trans (List.all_eq_true.mp ht.right c h))

theorem not_mem_tagRun (ht : IsTag tag) (hp : ∀ a ∈ pairs, IsPair a) : '>' ∉ tagRun tag pairs := by
  intro h
  have h := (List.mem_append.mp h).resolve_left (ht.not_mem (by decide))
  obtain ⟨a, ha, h⟩ := List.mem_flatMap.mp h
  have hk : '>' ∉ a.1 := fun hk => absurd ((hp a ha).key _ hk) (by decide)
  have hv : '>' ∉ a.2 := fun hv =>
    not_isMark_of_unescape? (isSome_unescape?.mpr (hp a ha).value) hv (by decide) (by decide)
  simp [writePair, hk, hv] at h

theorem head?_tagRun_append (ht : IsTag tag) : (tagRun tag pairs ++ cs).head? ≠ some '/' := by
  cases tag with
  | nil         => exact absurd rfl ht.left
  | cons c rest =>
    rintro ⟨⟩
    exact ht.not_mem (by decide) List.mem_cons_self

-- The name ends where the first attribute begins, or with the tag.
theorem takeWhile_tagRun_append (ht : IsTag tag) (hc : ∀ c ∈ cs.head?, c.isAlpha = false) :
    (tagRun tag pairs ++ cs).takeWhile Char.isAlpha = tag := by
  have hend {rest : List Char} (hr : ∀ c ∈ rest.head?, c.isAlpha = false) :
      (tag ++ rest).takeWhile Char.isAlpha = tag := by
    rw [List.takeWhile_append_of_pos (List.all_eq_true.mp ht.right)]
    cases rest with
    | nil         => simp
    | cons c rest => simp [hr c rfl]
  rw [tagRun, List.append_assoc]
  refine hend ?_
  cases pairs with
  | nil      => exact hc
  | cons a _ =>
    rintro c ⟨⟩
    rfl

theorem getLast?_tagRun (ht : IsTag tag) : (tagRun tag pairs).getLast? ≠ some '/' := by
  obtain rfl | ⟨pairs, a, rfl⟩ := List.eq_nil_or_concat' pairs
  case inl =>
    rw [tagRun, List.flatMap_nil, List.append_nil]
    exact fun h => ht.not_mem (by decide) (List.mem_of_getLast? h)
  case inr =>
    have hlast : tagRun tag (pairs ++ [a]) =
        tag ++ pairs.flatMap writePair ++ ' ' :: (a.1 ++ ['=', '"'] ++ a.2) ++ ['"'] := by
      simp [tagRun, writePair]
    rw [hlast, List.getLast?_concat]
    decide

theorem tag?_of_head?_ne (h : cs.head? ≠ some '/') : Scan.tag? d outer cs =
    if cs.getLast? = some '/' then
      some ⟨false, [], d.add (.node (cs.takeWhile Char.isAlpha) [] []), outer⟩
    else some ⟨false, [], { tag := cs.takeWhile Char.isAlpha }, d :: outer⟩ := by
  unfold Scan.tag?
  split
  case h_1 => exact absurd rfl h
  case h_2 => exact absurd rfl h
  case h_3 => rfl

theorem tag?_begin (ht : IsTag tag) :
    Scan.tag? d outer (tagRun tag pairs) = some ⟨false, [], { tag }, d :: outer⟩ := by
  have hhead : (tagRun tag pairs ++ []).head? ≠ some '/' := head?_tagRun_append ht
  have hname : (tagRun tag pairs ++ []).takeWhile Char.isAlpha = tag :=
    takeWhile_tagRun_append ht nofun
  rw [List.append_nil] at hhead hname
  rw [tag?_of_head?_ne hhead, if_neg (getLast?_tagRun ht), hname]

theorem tag?_leaf (ht : IsTag tag) : Scan.tag? d outer (tagRun tag pairs ++ ['/']) =
    some ⟨false, [], d.add (.node tag [] []), outer⟩ := by
  have hslash : ∀ c ∈ ['/'].head?, c.isAlpha = false := by
    rintro c ⟨⟩
    rfl
  rw [tag?_of_head?_ne (head?_tagRun_append ht), if_pos (by simp),
    takeWhile_tagRun_append ht hslash]

theorem tag?_end : Scan.tag? d (d' :: outer) ('/' :: d.tag) =
    some ⟨false, [], d'.add d.tree, outer⟩ := by
  simp [Scan.tag?]

theorem tells_leaf (ht : IsTag tag) (hp : ∀ a ∈ pairs, IsPair a) :
    Tells (writeStart tag pairs ++ ['/', '>']) d (d.add (.node tag [] [])) := by
  intro s outer hs
  have hn : '>' ∉ tagRun tag pairs ++ ['/'] := by simpa using not_mem_tagRun ht hp
  refine ⟨_, ?_, Scan.holds⟩
  simpa [writeStart, tagRun] using hs.scans_tag hn (tag?_leaf ht)

theorem tells_node (ht : IsTag tag) (hp : ∀ a ∈ pairs, IsPair a) (h : Tells cs { tag } d')
    (hd : d'.tag = tag) :
    Tells (writeStart tag pairs ++ ['>'] ++ cs ++ (['<', '/'] ++ tag ++ ['>'])) d
      (d.add d'.tree) := by
  intro s outer hs
  have hbegin := hs.scans_tag (not_mem_tagRun ht hp) (tag?_begin ht)
  have ⟨s', hcs, hs'⟩ := h _ (d :: outer) Scan.holds
  have hn : '>' ∉ '/' :: d'.tag := by simpa [hd] using ht.not_mem (by decide)
  have hend := hs'.scans_tag hn tag?_end
  refine ⟨_, ?_, Scan.holds⟩
  simpa [writeStart, tagRun, hd] using (hbegin.trans hcs).trans hend

end Tags

section Elements

mutual

theorem tells_render : ∀ {e : Element} {d : Draft}, e.Named → Tells e.render d (d.add e.textTree)
  | .node name attributes text children, d, ⟨ht, hk, hc⟩ => by
    have hp : ∀ a ∈ attributes.map pair, IsPair a := isPair_of_mem_map hk
    rw [Element.render]
    by_cases hne : text ≠ none ∨ Element.renderAll children ≠ []
    case pos =>
      rw [serialize_eq_of_ne hne]
      have hbody := tells_text.trans (@tells_renderAll children
        (Draft.say { tag := name.toList } ((text.map String.toList).getD [])) hc)
      have h := @tells_node _ _ d _ _ ht hp hbody rfl
      simpa [Draft.tree, Draft.say, Element.textTree] using h
    case neg =>
      obtain ⟨rfl, hn⟩ : text = none ∧ Element.renderAll children = [] := by simpa using hne
      cases children with
      | nil =>
        have h := @tells_leaf _ d _ ht hp
        rwa [← openTag_eq] at h
      | cons c _ => nomatch hn

theorem tells_renderAll : ∀ {es : List Element} {d : Draft}, Element.NamedAll es →
    Tells (Element.renderAll es).flatten d
      { d with children := (Element.textTrees es).reverse ++ d.children }
  | [], _, _ => .refl
  | e :: es, d, ⟨he, hes⟩ => by
    have h := (@tells_render e d he).trans (@tells_renderAll es (d.add e.textTree) hes)
    simpa [Element.renderAll, Element.textTrees, Draft.add] using h

end

theorem read?_of_tells {t : TextTree} (h : Tells cs { tag := [] } (Draft.add { tag := [] } t)) :
    TextTree.read? cs = some t := by
  obtain ⟨_, hs, before, text, hd, rfl⟩ := h Scan.start [] Scan.holds
  obtain ⟨tag, said, children⟩ := before
  obtain ⟨rfl, ht, rfl⟩ := Draft.mk.inj hd
  obtain ⟨rfl, rfl⟩ := List.append_eq_nil_iff.mp ht
  rw [TextTree.read?, hs]
  rfl

-- Entities are decoded once.
example : TextTree.read? "<a x=\"1\">b &amp;lt;<c/>d</a>".toList =
    some (.node ['a'] "b &lt;d".toList [.node ['c'] [] []]) := by
  cbv

end Elements

end Markup

end LayeredDiagram
