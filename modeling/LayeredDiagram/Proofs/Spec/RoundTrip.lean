import LayeredDiagram.Proofs.Spec.Entry
import LayeredDiagram.Proofs.Spec.Outcome

namespace LayeredDiagram

open Text Spec

namespace Spec

variable {line : List Char} {s : Sections} {ls : List Line} {name text : String}

theorem Item.plain (h : Item line) : Heading.ofLine? line = none := by
  rw [Heading.ofLine?_eq_none_iff, h.trimmed]
  obtain ⟨rest, rfl⟩ := List.head?_eq_some_iff.mp h.dash
  constructor <;> simp

theorem getLast?_ne_of_trimmed (h : trim line = line) : line.getLast? ≠ some '\r' := by
  intro hl
  exact absurd ((trim_eq_self_iff.mp h).right _ hl) (by decide)

theorem getLast?_ne_of_mem_splitOn {cs : List Char} (ht : trim cs = cs)
    (hn : ¬"\r\n".toList <:+: cs) (hl : line ∈ cs.splitOn '\n') : line.getLast? ≠ some '\r' := by
  intro hr
  obtain ⟨front, rfl⟩ := List.getLast?_eq_some_iff.mp hr
  have hj : ['\n'].intercalate (cs.splitOn '\n') = cs := List.intercalate_splitOn '\n'
  obtain ⟨rest, hs⟩ | hi := hj ▸ isSuffix_or_isInfix_intercalate hl
  case inl => exact getLast?_ne_of_trimmed ht (by simp [← hs])
  case inr =>
    have hi' : "\r\n".toList <:+: front ++ ['\r'] ++ ['\n'] := ⟨front, [], by simp⟩
    exact hn (hi'.trans hi)

theorem isContent_of_item {l : Line} (h : Item l.text) : l.IsContent := by
  rw [Line.IsContent, h.trimmed]
  obtain ⟨rest, hl⟩ := List.head?_eq_some_iff.mp h.dash
  simp [hl]

-- Every line that has been written for an entry is read as that entry.
theorem map_content_of_items {α : Type} {as : List α} {write : α → List Char}
    {read? : List Char → Option α} (hl : ls.map (·.text) = as.map write)
    (hi : ∀ a ∈ as, Item (write a)) (hr : ∀ a ∈ as, read? (write a) = some a) :
    (content ls).map (fun l => read? (trim l.text)) = as.map some := by
  have hc : content ls = ls := by
    refine List.filter_eq_self.mpr fun l h => decide_eq_true (isContent_of_item ?_)
    obtain ⟨a, ha, he⟩ := List.mem_map.mp (hl ▸ List.mem_map_of_mem h)
    exact he ▸ hi a ha
  calc (content ls).map (fun l => read? (trim l.text))
    _ = (ls.map (·.text)).map fun text => read? (trim text) := by rw [hc, List.map_map]; rfl
    _ = as.map fun a => read? (trim (write a)) := by rw [hl, List.map_map]; rfl
    _ = as.map some := List.map_congr_left fun a ha => by rw [(hi a ha).trimmed, hr a ha]

end Spec

namespace Plan

variable {p : Plan}

-- The blocks that a plan is written in, behind its title.
def blocks (p : Plan) : List Block :=
  (p.description.map fun d =>
      ⟨"description", "## Description".toList, d.toList.splitOn '\n'⟩).toList ++
    [⟨"nodes", "## Nodes".toList, p.nodes.map (·.line.toList)⟩,
      ⟨"edges", "## Edges".toList, p.edges.map (·.line.toList)⟩]

-- The texts of the sections that a plan is read back from.
def outline (p : Plan) : Record (List (List Char)) :=
  ("body", []) :: (p.title.map fun t => ("title", [t.toList])).toList ++
    p.blocks.map fun b => (b.name, b.texts)

-- The document that a plan is written in.
def document (p : Plan) : String :=
  "\n".intercalate ((p.title.map ("# " ++ ·)).toList ++
    (p.description.map (["## Description", ·])).getD [] ++
    "## Nodes" :: p.nodes.map Node.line ++ "## Edges" :: p.edges.map Edge.line)

-- What can be said in a document. Texts must not be taken for several lines or several parts, and
-- no line of a description for a heading.
structure Writable (p : Plan) : Prop where
  nonempty    : p.nodes ≠ []
  distinct    : (p.nodes.map (·.id)).Nodup
  nodes       : ∀ n ∈ p.nodes, n.Writable
  edges       : ∀ e ∈ p.edges, e.Writable
  title       : ∀ t ∈ p.title, Trimmed t.toList ∧ '\n' ∉ t.toList
  description : ∀ d ∈ p.description, Trimmed d.toList ∧ ¬"\r\n".toList <:+: d.toList ∧
    ∀ line ∈ d.toList.splitOn '\n', ¬"# ".toList <+: trim line ∧ ¬"## ".toList <+: trim line

instance : Decidable p.Writable :=
  decidable_of_iff (p.nodes ≠ [] ∧ (p.nodes.map (·.id)).Nodup ∧ (∀ n ∈ p.nodes, n.Writable) ∧
      (∀ e ∈ p.edges, e.Writable) ∧ (∀ t ∈ p.title, Trimmed t.toList ∧ '\n' ∉ t.toList) ∧
      ∀ d ∈ p.description, Trimmed d.toList ∧ ¬"\r\n".toList <:+: d.toList ∧
        ∀ line ∈ d.toList.splitOn '\n', ¬"# ".toList <+: trim line ∧ ¬"## ".toList <+: trim line)
    ⟨fun ⟨nonempty, distinct, nodes, edges, title, description⟩ =>
        { nonempty, distinct, nodes, edges, title, description },
      fun h => ⟨h.nonempty, h.distinct, h.nodes, h.edges, h.title, h.description⟩⟩

theorem Writable.opens_blocks (h : p.Writable) : ∀ b ∈ p.blocks, b.Opens := by
  have hd : Heading.ofLine? "## Description".toList = some (.opens "description") := by
    decide +kernel
  have hn : Heading.ofLine? "## Nodes".toList = some (.opens "nodes") := by decide +kernel
  have he : Heading.ofLine? "## Edges".toList = some (.opens "edges") := by decide +kernel
  intro b hb
  obtain hb | hb := List.mem_append.mp hb
  case inl =>
    obtain ⟨d, hm, rfl⟩ := Option.map_eq_some_iff.mp (Option.mem_toList.mp hb)
    obtain ⟨_, _, hp⟩ := h.description d hm
    exact ⟨hd, fun text ht => Heading.ofLine?_eq_none_iff.mpr (hp text ht)⟩
  case inr =>
    obtain rfl | rfl := List.mem_pair.mp hb
    case inl => exact ⟨hn, List.forall_mem_map.mpr fun n hm => (h.nodes n hm).item.plain⟩
    case inr => exact ⟨he, List.forall_mem_map.mpr fun e hm => (h.edges e hm).item.plain⟩

theorem names_blocks : p.blocks.map (·.name) =
    (p.description.map fun _ => "description").toList ++ ["nodes", "edges"] := by
  rw [blocks]
  cases p.description <;> rfl

theorem document_toList : p.document.toList = ['\n'].intercalate
    ((p.title.map fun t => "# ".toList ++ t.toList).toList ++
    ((p.description.map fun d => ["## Description".toList, d.toList]).getD [] ++
    ("## Nodes".toList :: p.nodes.map (·.line.toList) ++
      "## Edges".toList :: p.edges.map (·.line.toList)))) := by
  rw [document, String.toList_intercalate]
  cases p.title <;> cases p.description <;> simp [Function.comp_def]

theorem Writable.splitOn_document (h : p.Writable) : p.document.toList.splitOn '\n' =
    (p.title.map fun t => "# ".toList ++ t.toList).toList ++ p.blocks.flatMap Block.lines := by
  have ht : ∀ part ∈ (p.title.map fun t => "# ".toList ++ t.toList).toList, '\n' ∉ part := by
    intro part hp
    obtain ⟨t, ht, rfl⟩ := Option.map_eq_some_iff.mp (Option.mem_toList.mp hp)
    simp [(h.title t ht).right]
  have hb : ∀ part ∈ "## Nodes".toList :: p.nodes.map (·.line.toList) ++
      "## Edges".toList :: p.edges.map (·.line.toList), '\n' ∉ part := by
    simp only [List.forall_mem_append, List.forall_mem_cons, List.forall_mem_map]
    exact ⟨⟨by decide, fun n hn => (h.nodes n hn).item.single⟩, by decide,
      fun e he => (h.edges e he).item.single⟩
  rw [document_toList, splitOn_intercalate_eq_flatMap (by simp), List.flatMap_append,
    List.flatMap_append, flatMap_splitOn_eq_self ht, flatMap_splitOn_eq_self hb, blocks]
  cases p.description with
  | none => simp [Block.lines]
  | some d =>
    have hd : ["## Description".toList, d.toList].flatMap (·.splitOn '\n') =
        "## Description".toList :: d.toList.splitOn '\n' := by
      rw [List.flatMap_cons, List.splitOn_eq_singleton (by decide), List.flatMap_singleton]
      rfl
    rw [Option.map_some, Option.getD_some, hd]
    simp [Block.lines]

theorem Writable.trimmed_title {t : String} (h : p.Writable) (ht : t ∈ p.title) :
    trim ("# ".toList ++ t.toList) = "# ".toList ++ t.toList := by
  have ⟨hn, htt⟩ := (h.title t ht).left
  have ⟨_, hl⟩ := trim_eq_self_iff.mp htt
  refine trim_eq_self_iff.mpr ⟨by simp; decide, ?_⟩
  rwa [List.getLast?_append_of_ne_nil _ hn]

theorem Writable.splitLines_document (h : p.Writable) :
    splitLines p.document.toList = p.document.toList.splitOn '\n' := by
  refine splitLines_eq_splitOn ?_
  rw [h.splitOn_document]
  simp only [List.forall_mem_append, List.forall_mem_flatMap, blocks, Block.lines,
    List.forall_mem_cons, List.forall_mem_map, Option.mem_toList]
  refine ⟨fun line hl => ?_, fun b hb => ?_, ⟨by decide, fun n hn => ?_⟩,
    ⟨by decide, fun e he => ?_⟩, nofun⟩
  case refine_1 =>
    obtain ⟨t, ht, rfl⟩ := Option.map_eq_some_iff.mp hl
    exact getLast?_ne_of_trimmed (h.trimmed_title ht)
  case refine_2 =>
    obtain ⟨d, hd, rfl⟩ := Option.map_eq_some_iff.mp hb
    have ⟨⟨_, ht⟩, hn, _⟩ := h.description d hd
    exact ⟨by simp, fun line => getLast?_ne_of_mem_splitOn ht hn⟩
  case refine_3 => exact getLast?_ne_of_trimmed (h.nodes n hn).item.trimmed
  case refine_4 => exact getLast?_ne_of_trimmed (h.edges e he).item.trimmed

theorem Writable.step_title {t : String} {first : Line} (h : p.Writable) (ht : t ∈ p.title)
    (hf : first.text = "# ".toList ++ t.toList) : Splitter.step {} first =
      ⟨"title", [("body", []), ("title", [⟨t.toList, first.number⟩])]⟩ := by
  have hh : Heading.ofLine? first.text = some (.title t.toList) := by
    rw [hf, Heading.ofLine?, h.trimmed_title ht]
    simp [(h.title t ht).left.right]
  rw [Splitter.step, hh]
  rfl

theorem Writable.texts_document (h : p.Writable) :
    (sections p.document.toList).map (fun (name, ls) => (name, ls.map (·.text))) = p.outline := by
  have hl : (numberedLines p.document.toList).map (·.text) = splitLines p.document.toList :=
    map_text_numberedLines
  rw [h.splitLines_document, h.splitOn_document] at hl
  have hn : (["body", "title"] ++ p.blocks.map (·.name)).Nodup := by
    rw [names_blocks]
    cases p.description <;> simp
  rw [texts_sections, outline]
  cases ht : p.title with
  | none =>
    rw [ht] at hl
    refine Splitter.foldl_step_blocks h.opens_blocks (hn.sublist ?_) hl
    exact .cons_cons "body" (.cons "title" (List.Sublist.refl _))
  | some t =>
    rw [ht] at hl
    obtain ⟨first, rest, hns, hf, hr⟩ := List.map_eq_cons_iff.mp hl
    have hs := h.step_title ht hf
    have hb := Splitter.foldl_step_blocks (s := Splitter.step {} first) h.opens_blocks
      (by rw [hs]; exact hn) hr
    rw [hns, List.foldl_cons, hb, hs]
    rfl

theorem Writable.get?_document (h : p.Writable) (name : String) :
    ((sections p.document.toList).get? name).map (·.map (·.text)) = p.outline.get? name := by
  rw [← h.texts_document]
  exact (Record.get?_map _).symm

theorem outline_body : p.outline.get? "body" = some [] :=
  rfl

theorem outline_title : p.outline.get? "title" = p.title.map fun t => [t.toList] := by
  rw [outline, blocks]
  cases p.title <;> cases p.description <;> rfl

theorem outline_description :
    p.outline.get? "description" = p.description.map (·.toList.splitOn '\n') := by
  rw [outline, blocks]
  cases p.title <;> cases p.description <;> rfl

theorem outline_nodes : p.outline.get? "nodes" = some (p.nodes.map (·.line.toList)) := by
  rw [outline, blocks]
  cases p.title <;> cases p.description <;> rfl

theorem outline_edges : p.outline.get? "edges" = some (p.edges.map (·.line.toList)) := by
  rw [outline, blocks]
  cases p.title <;> cases p.description <;> rfl

theorem Writable.exists_section {name : String} {texts : List (List Char)} (h : p.Writable)
    (ho : p.outline.get? name = some texts) :
    ∃ ls, (sections p.document.toList).get? name = some ls ∧ ls.map (·.text) = texts :=
  Option.map_eq_some_iff.mp ((h.get?_document name).trans ho)

theorem Writable.not_says {name text : String} (h : p.Writable) (ho : p.outline.get? name = none) :
    ¬Says (sections p.document.toList) name text := by
  rintro ⟨ls, hs, _⟩
  have hg := h.get?_document name
  simp [hs, ho] at hg

theorem Writable.says_iff {name text : String} {texts : List (List Char)} (h : p.Writable)
    (ho : p.outline.get? name = some texts) : Says (sections p.document.toList) name text ↔
      trim (['\n'].intercalate texts) = text.toList ∧ text ≠ "" := by
  obtain ⟨ls, hs, rfl⟩ := h.exists_section ho
  constructor
  case mp =>
    rintro ⟨_, hs', hw⟩
    obtain rfl := Option.some.inj (hs.symm.trans hs')
    exact hw
  case mpr => exact fun hw => ⟨ls, hs, hw⟩

-- A section says the trimmed text that its lines make up.
theorem Writable.says_iff_eq {name text t : String} (h : p.Writable) (ht : Trimmed t.toList)
    (ho : p.outline.get? name = some (t.toList.splitOn '\n')) :
    Says (sections p.document.toList) name text ↔ t = text := by
  rw [h.says_iff ho, List.intercalate_splitOn, ht.right, String.toList_inj, and_iff_left_iff_imp]
  rintro rfl he
  exact ht.left (by simp [he])

theorem Writable.title_iff (h : p.Writable) (t : String) : p.title = some t ↔
    Says (sections p.document.toList) "title" t := by
  have ho := p.outline_title
  cases hp : p.title with
  | none       => simp [h.not_says (ho.trans (by rw [hp]; rfl))]
  | some title =>
    have ⟨ht, hn⟩ := h.title title hp
    rw [hp, Option.map_some, ← List.splitOn_eq_singleton hn] at ho
    rw [h.says_iff_eq ht ho, Option.some.injEq]

theorem Writable.description_iff (h : p.Writable) (d : String) : p.description = some d ↔
    Says (sections p.document.toList)
      (if (sections p.document.toList).has "description" then "description" else "body") d := by
  have hh : (sections p.document.toList).has "description" = p.description.isSome := by
    rw [Record.has_eq_isSome, ← Option.isSome_map, h.get?_document, outline_description,
      Option.isSome_map]
  rw [hh]
  cases hp : p.description with
  | none =>
    refine ⟨nofun, fun hs => ?_⟩
    have ⟨he, hn⟩ := (h.says_iff outline_body).mp hs
    exact absurd (String.toList_eq_nil_iff.mp he.symm) hn
  | some description =>
    have ⟨ht, _⟩ := h.description description hp
    have ho := p.outline_description
    rw [hp] at ho
    exact Option.some_inj.trans (h.says_iff_eq ht ho).symm

-- The dash of the first node is not blank.
theorem Writable.exists_says_nodes (h : p.Writable) :
    ∃ text, Says (sections p.document.toList) "nodes" text := by
  obtain ⟨n, rest, hn⟩ := List.exists_cons_of_ne_nil h.nonempty
  have hd : '-' ∈ n.line.toList := List.mem_of_head? (h.nodes n (by simp [hn])).item.dash
  have hm : '-' ∈ ['\n'].intercalate (p.nodes.map (·.line.toList)) := by
    obtain hs | hi := isSuffix_or_isInfix_intercalate (c := '\n')
      (List.mem_map_of_mem (f := (·.line.toList)) (hn ▸ List.mem_cons_self : n ∈ p.nodes))
    case inl => exact hs.mem hd
    case inr => exact hi.mem (List.mem_append_left _ hd)
  have hne : trim (['\n'].intercalate (p.nodes.map (·.line.toList))) ≠ [] := fun he =>
    absurd (trim_eq_nil_iff.mp he _ hm) (by decide)
  exact ⟨_, (h.says_iff outline_nodes).mpr ⟨String.toList_ofList.symm, by simpa using hne⟩⟩

theorem Writable.outcome_document (h : p.Writable) (defaultKind : List Char) :
    Outcome defaultKind (sections p.document.toList) (.ok p) := by
  refine .plan h.exists_says_nodes ?_ ?_ h.distinct h.title_iff h.description_iff
  case refine_1 =>
    obtain ⟨ns, hs, hl⟩ := h.exists_section outline_nodes
    rw [contentOf, hs]
    exact map_content_of_items hl (fun n hn => (h.nodes n hn).item) fun n hn =>
      Node.ofLine?_line (h.nodes n hn) defaultKind
  case refine_2 =>
    obtain ⟨es, hs, hl⟩ := h.exists_section outline_edges
    rw [contentOf, hs]
    exact map_content_of_items hl (fun e he => (h.edges e he).item) fun e he =>
      Edge.ofLine?_line (h.edges e he)

-- A plan that can be written is read back as it is, whatever kind stands in for kinds left out.
theorem ofSpec_document (h : p.Writable) (defaultKind : List Char) :
    Plan.ofSpec defaultKind p.document.toList = .ok p :=
  ofSpec_of_outcome (h.outcome_document defaultKind)

-- Names that look like bullets and arrows, and texts that look like lines.
def disguised : Plan where
  nodes := [⟨"--", "# a\u3000-> b", "i\ro", []⟩, ⟨"a-", "- b", "## Edges", []⟩]
  edges := [⟨"a-", "--", some "| c | ->"⟩, ⟨"--", "missing", none⟩]
  title := some "# Nodes"
  description := some "One line,\n  #another\n\n- a | line"

theorem ofSpec_document_disguised : disguised.Writable ∧
    Plan.ofSpec LayeredDiagram.defaultKind.toList disguised.document.toList = .ok disguised :=
  have h : disguised.Writable := by decide +kernel
  ⟨h, ofSpec_document h _⟩

end Plan

end LayeredDiagram
