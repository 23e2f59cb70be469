import LayeredDiagram.Proofs.Spec.Document

namespace LayeredDiagram

namespace Spec

open Text

def contentOf (s : Sections) (name : String) : List Line :=
  content ((s.get? name).getD [])

def Line.node? (defaultKind : List Char) (l : Line) : Option Node :=
  Node.ofLine? defaultKind (trim l.text)

def Line.id? (defaultKind : List Char) (l : Line) : Option String :=
  (l.node? defaultKind).map (·.id)

def Line.edge? (l : Line) : Option Edge :=
  Edge.ofLine? (trim l.text)

-- The outcome of a document with these sections. Each case but the first one takes for granted that
-- the faults of the cases before it are absent.
inductive Outcome (defaultKind : List Char) (s : Sections) : Except SpecError Plan → Prop where
  | noNodes (h : ¬∃ text, Says s "nodes" text) : Outcome defaultKind s (.error ⟨.noNodes, none⟩)
  | badNode {before : List Line} {l : Line} {after : List Line}
    (h : ∃ text, Says s "nodes" text)
    (hl : contentOf s "nodes" = before ++ l :: after)
    (first : ∀ m ∈ before, m.node? defaultKind ≠ none)
    (bad : l.node? defaultKind = none) :
    Outcome defaultKind s (.error ⟨.badNode (String.ofList (trim l.text)), some l.number⟩)
  | badEdge {before : List Line} {l : Line} {after : List Line}
    (h : ∃ text, Says s "nodes" text)
    (nodes : ∀ m ∈ contentOf s "nodes", m.node? defaultKind ≠ none)
    (hl : contentOf s "edges" = before ++ l :: after)
    (first : ∀ m ∈ before, m.edge? ≠ none)
    (bad : l.edge? = none) :
    Outcome defaultKind s (.error ⟨.badEdge (String.ofList (trim l.text)), some l.number⟩)
  | repeatedNode {l : Line} {id : String}
    (h : ∃ text, Says s "nodes" text)
    (nodes : ∀ m ∈ contentOf s "nodes", m.node? defaultKind ≠ none)
    (edges : ∀ m ∈ contentOf s "edges", m.edge? ≠ none)
    (hl : FirstRepeat (·.id? defaultKind) (contentOf s "nodes") l)
    (hid : l.id? defaultKind = some id) :
    Outcome defaultKind s (.error ⟨.repeatedNode id, some l.number⟩)
  | plan {p : Plan}
    (h : ∃ text, Says s "nodes" text)
    (nodes : (contentOf s "nodes").map (·.node? defaultKind) = p.nodes.map some)
    (edges : (contentOf s "edges").map (·.edge?) = p.edges.map some)
    (distinct : (p.nodes.map (·.id)).Nodup)
    (title : ∀ t, p.title = some t ↔ Says s "title" t)
    (description : ∀ d, p.description = some d ↔
      Says s (if s.has "description" then "description" else "body") d) :
    Outcome defaultKind s (.ok p)

-- What is reported is what is wrong with this line.
def IsAbout (e : SpecError) (defaultKind line : List Char) : Prop :=
  e.fault = .badNode (String.ofList (trim line)) ∨ e.fault = .badEdge (String.ofList (trim line)) ∨
    ∃ n, Node.ofLine? defaultKind (trim line) = some n ∧ e.fault = .repeatedNode n.id

variable {defaultKind : List Char} {s : Sections} {ls : List Line} {ns : List (Node × Nat)}

theorem mem_numberedLines_of_contentOf {text : List Char} {name : String} {l : Line}
    (hn : name ≠ "title") (h : l ∈ contentOf (sections text) name) : l ∈ numberedLines text := by
  replace h := List.mem_of_mem_filter h
  cases hs : (sections text).get? name with
  | none    => simp [hs] at h
  | some ls =>
    rw [hs] at h
    exact (sublist_of_get?_sections hn hs).subset h

theorem content_eq_contentOf (h : requireNodes s = .ok ls) : content ls = contentOf s "nodes" := by
  rw [contentOf, (requireNodes_eq_ok_iff.mp h).left]
  rfl

theorem exists_requireNodes (h : ∃ text, Says s "nodes" text) :
    ∃ ls, requireNodes s = .ok ls ∧ contentOf s "nodes" = content ls := by
  have ⟨_, ls, hs, _⟩ := h
  have hls := requireNodes_eq_ok_iff.mpr ⟨hs, h⟩
  exact ⟨ls, hls, (content_eq_contentOf hls).symm⟩

theorem ne_none_of_map_eq {α β : Type} {f : α → Option β} {as : List α} {bs : List β}
    (h : as.map f = bs.map some) : ∀ a ∈ as, f a ≠ none := by
  intro a ha hn
  have hm : none ∈ bs.map some := h ▸ hn ▸ List.mem_map_of_mem ha
  simp at hm

-- Among what was read and among the lines it was read from, the same one repeats an identifier.
theorem firstRepeat_iff_of_readEntries {id : String} {n : Nat}
    (h : readEntries (Node.ofLine defaultKind) ls = .ok ns) :
    (∃ r, FirstRepeat (·.1.id) ns r ∧ r.1.id = id ∧ r.2 = n) ↔
    ∃ l, FirstRepeat (·.id? defaultKind) (content ls) l ∧ l.id? defaultKind = some id ∧
      l.number = n := by
  let key (p : Option Node × Nat) : Option String := p.1.map (·.id)
  have hk : key ∘ (fun r : Node × Nat => (some r.1, r.2)) = some ∘ (·.1.id) := rfl
  calc (∃ r, FirstRepeat (·.1.id) ns r ∧ r.1.id = id ∧ r.2 = n)
    _ ↔ ∃ p, FirstRepeat key (ns.map fun r => (some r.1, r.2)) p ∧ key p = some id ∧ p.2 = n := by
      rw [exists_firstRepeat_map_iff, hk]
      simp only [firstRepeat_comp_iff fun _ _ => Option.some.inj, key, Option.map_some,
        Option.some.injEq]
    _ ↔ ∃ l, FirstRepeat (·.id? defaultKind) (content ls) l ∧ l.id? defaultKind = some id ∧
        l.number = n := by
      rw [(reports_node defaultKind).map_eq_of_readEntries h, exists_firstRepeat_map_iff]
      rfl

end Spec

namespace Plan

open Spec Text

variable {defaultKind text : List Char} {r : Except SpecError Plan}

theorem ofSpec_eq_ok_iff {p : Plan} : Plan.ofSpec defaultKind text = .ok p ↔
    ∃ ls, requireNodes (sections text) = .ok ls ∧
    ∃ ns, readEntries (Node.ofLine defaultKind) ls = .ok ns ∧
    ∃ es, readEntries Edge.ofLine (((sections text).get? "edges").getD []) = .ok es ∧
    requireDistinct ns = .ok () ∧ ⟨ns.map (·.1), es.map (·.1), title? (sections text),
      description? (sections text)⟩ = p := by
  simp only [Plan.ofSpec, bind_eq_ok_iff, pure, Except.pure, Except.ok.injEq,
    Unique.exists_iff, PUnit.default_eq_unit]

theorem ofSpec_eq_error_iff {e : SpecError} : Plan.ofSpec defaultKind text = .error e ↔
    requireNodes (sections text) = .error e ∨ ∃ ls, requireNodes (sections text) = .ok ls ∧
    (readEntries (Node.ofLine defaultKind) ls = .error e ∨
      ∃ ns, readEntries (Node.ofLine defaultKind) ls = .ok ns ∧
    (readEntries Edge.ofLine (((sections text).get? "edges").getD []) = .error e ∨
      ∃ es, readEntries Edge.ofLine (((sections text).get? "edges").getD []) = .ok es ∧
    requireDistinct ns = .error e)) := by
  simp [Plan.ofSpec, bind_eq_error_iff, pure, Except.pure]

theorem outcome_of_ofSpec (h : Plan.ofSpec defaultKind text = r) :
    Outcome defaultKind (sections text) r := by
  cases r with
  | ok p =>
    obtain ⟨ls, hls, ns, hns, es, hes, hd, rfl⟩ := ofSpec_eq_ok_iff.mp h
    have hn := (reports_node defaultKind).map_read?_of_readEntries hns
    rw [content_eq_contentOf hls] at hn
    exact .plan (requireNodes_eq_ok_iff.mp hls).right hn (reports_edge.map_read?_of_readEntries hes)
      (by simpa [Function.comp_def] using requireDistinct_eq_ok_iff.mp hd)
      (fun _ => title?_eq_some_iff) fun _ => description?_eq_some_iff
  | error e =>
    obtain h | ⟨ls, hls, h⟩ := ofSpec_eq_error_iff.mp h
    case inl =>
      obtain ⟨hs, rfl⟩ := requireNodes_eq_error_iff.mp h
      exact .noNodes hs
    case inr =>
      have ⟨_, hs⟩ := requireNodes_eq_ok_iff.mp hls
      have hc := content_eq_contentOf hls
      obtain h | ⟨ns, hns, h⟩ := h
      case inl =>
        obtain ⟨before, l, after, hl, hb, hn, rfl⟩ :=
          (reports_node defaultKind).readEntries_eq_error_iff.mp h
        exact .badNode hs (hc ▸ hl) hb hn
      case inr =>
        have hn := ne_none_of_map_eq ((reports_node defaultKind).map_read?_of_readEntries hns)
        rw [hc] at hn
        obtain h | ⟨es, hes, h⟩ := h
        case inl =>
          obtain ⟨before, l, after, hl, hb, he, rfl⟩ := reports_edge.readEntries_eq_error_iff.mp h
          exact .badEdge hs hn hl hb he
        case inr =>
          obtain ⟨r, hr, rfl⟩ := requireDistinct_eq_error_iff.mp h
          obtain ⟨l, hl, hid, hnum⟩ := (firstRepeat_iff_of_readEntries hns).mp ⟨r, hr, rfl, rfl⟩
          have he := ne_none_of_map_eq (reports_edge.map_read?_of_readEntries hes)
          rw [← hnum]
          exact .repeatedNode hs hn he (hc ▸ hl) hid

theorem ofSpec_of_outcome (h : Outcome defaultKind (sections text) r) :
    Plan.ofSpec defaultKind text = r := by
  cases h with
  | noNodes h => exact ofSpec_eq_error_iff.mpr (.inl (requireNodes_eq_error_iff.mpr ⟨h, rfl⟩))
  | badNode h hl first bad =>
    have ⟨ls, hls, hc⟩ := exists_requireNodes h
    have hn := (reports_node defaultKind).readEntries_eq_error_iff.mpr
      ⟨_, _, _, hc ▸ hl, first, bad, rfl⟩
    exact ofSpec_eq_error_iff.mpr (.inr ⟨ls, hls, .inl hn⟩)
  | badEdge h nodes hl first bad =>
    have ⟨ls, hls, hc⟩ := exists_requireNodes h
    have ⟨ns, hns⟩ := (reports_node defaultKind).exists_readEntries (hc ▸ nodes)
    have he := reports_edge.readEntries_eq_error_iff.mpr ⟨_, _, _, hl, first, bad, rfl⟩
    exact ofSpec_eq_error_iff.mpr (.inr ⟨ls, hls, .inr ⟨ns, hns, .inl he⟩⟩)
  | repeatedNode h nodes edges hl hid =>
    have ⟨ls, hls, hc⟩ := exists_requireNodes h
    have ⟨ns, hns⟩ := (reports_node defaultKind).exists_readEntries (hc ▸ nodes)
    have ⟨es, hes⟩ := reports_edge.exists_readEntries edges
    obtain ⟨r, hr, rfl, hnum⟩ :=
      (firstRepeat_iff_of_readEntries hns).mpr ⟨_, hc ▸ hl, hid, rfl⟩
    have hd := requireDistinct_eq_error_iff.mpr ⟨r, hr, rfl⟩
    rw [← hnum]
    exact ofSpec_eq_error_iff.mpr (.inr ⟨ls, hls, .inr ⟨ns, hns, .inr ⟨es, hes, hd⟩⟩⟩)
  | @plan p h nodes edges distinct title description =>
    have ⟨ls, hls, hc⟩ := exists_requireNodes h
    have hsome {α : Type} : Function.Injective (List.map (some : α → Option α)) :=
      List.map_injective_iff.mpr fun _ _ => Option.some.inj
    have ⟨ns, hns⟩ := (reports_node defaultKind).exists_readEntries (hc ▸ ne_none_of_map_eq nodes)
    have ⟨es, hes⟩ := reports_edge.exists_readEntries (ne_none_of_map_eq edges)
    have hn : ns.map (·.1) = p.nodes :=
      hsome (((reports_node defaultKind).map_read?_of_readEntries hns).symm.trans (hc ▸ nodes))
    have he : es.map (·.1) = p.edges :=
      hsome ((reports_edge.map_read?_of_readEntries hes).symm.trans edges)
    have hd : requireDistinct ns = .ok () :=
      requireDistinct_eq_ok_iff.mpr (by rwa [← hn, List.map_map] at distinct)
    have ht : title? (sections text) = p.title :=
      Option.ext fun t => title?_eq_some_iff.trans (title t).symm
    have hs : description? (sections text) = p.description :=
      Option.ext fun d => description?_eq_some_iff.trans (description d).symm
    exact ofSpec_eq_ok_iff.mpr ⟨ls, hls, ns, hns, es, hes, hd, by rw [hn, he, ht, hs]⟩

theorem exists_line_of_ofSpec {e : SpecError} {k : Nat}
    (h : Plan.ofSpec defaultKind text = .error e) (hk : e.line = some k) :
    ∃ line, 0 < k ∧ (splitLines text)[k - 1]? = some line ∧ IsAbout e defaultKind line := by
  have hmem (name : String) (l : Line) (hn : name ≠ "title")
      (hl : l ∈ contentOf (sections text) name) :
      0 < l.number ∧ (splitLines text)[l.number - 1]? = some l.text :=
    mem_numberedLines_iff.mp (mem_numberedLines_of_contentOf hn hl)
  cases outcome_of_ofSpec h with
  | noNodes h => nomatch hk
  | @badNode before l after h hl first bad =>
    obtain rfl := Option.some.inj hk
    have ⟨hp, ht⟩ := hmem "nodes" l (by decide) (by simp [hl])
    exact ⟨l.text, hp, ht, .inl rfl⟩
  | @badEdge before l after h nodes hl first bad =>
    obtain rfl := Option.some.inj hk
    have ⟨hp, ht⟩ := hmem "edges" l (by decide) (by simp [hl])
    exact ⟨l.text, hp, ht, .inr (.inl rfl)⟩
  | @repeatedNode l id h nodes edges hl hid =>
    obtain rfl := Option.some.inj hk
    obtain ⟨before, after, hl, _⟩ := hl
    have ⟨hp, ht⟩ := hmem "nodes" l (by decide) (by simp [hl])
    obtain ⟨n, hn, rfl⟩ := Option.map_eq_some_iff.mp hid
    exact ⟨l.text, hp, ht, .inr (.inr ⟨n, hn, rfl⟩)⟩

-- The outcome of a document, for every one there is. The lines of a section are lines of the
-- document in its order, the title apart, and so the number reported is that of the line it is
-- reported for.
theorem ofSpec_outcome (defaultKind text : List Char) :
    (∀ r, Plan.ofSpec defaultKind text = r ↔ Outcome defaultKind (sections text) r) ∧
    (∀ name ls, name ≠ "title" → (sections text).get? name = some ls →
      ls.Pairwise (·.number < ·.number) ∧
      ∀ l ∈ ls, 0 < l.number ∧ (splitLines text)[l.number - 1]? = some l.text) ∧
    ∀ e k, Plan.ofSpec defaultKind text = .error e → e.line = some k →
      ∃ line, 0 < k ∧ (splitLines text)[k - 1]? = some line ∧ IsAbout e defaultKind line := by
  refine ⟨fun r => ⟨outcome_of_ofSpec, ofSpec_of_outcome⟩, fun name ls hn hs => ?_,
    fun e k => exists_line_of_ofSpec⟩
  have hsub := sublist_of_get?_sections hn hs
  exact ⟨numberedLines_pairwise.sublist hsub, fun l hl => mem_numberedLines_iff.mp (hsub.subset hl)⟩

-- The node that is none is reported, though the edge that is none comes first, and an identifier
-- is repeated as well.
example : Plan.ofSpec LayeredDiagram.defaultKind.toList
    "## Edges\n?\n## Nodes\n- a | A\n-\n- a | B".toList = .error ⟨.badNode "-", some 5⟩ := by
  decide +kernel

end Plan

end LayeredDiagram
