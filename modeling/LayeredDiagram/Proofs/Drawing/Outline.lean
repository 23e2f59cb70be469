import LayeredDiagram.Proofs.Drawing.Elements
import LayeredDiagram.Proofs.Markup.Element

namespace LayeredDiagram

open Markup

-- Elements without their attributes and texts.
inductive Outline where
  | node (tag : String) (children : List Outline)

def Outline.leaf (tag : String) : Outline :=
  node tag []

namespace Markup.Branch

mutual

def outline : Branch → Outline
  | node tag _ children => .node (String.ofList tag) (outlines children)

def outlines : List Branch → List Outline
  | [] => []
  | t :: ts => t.outline :: outlines ts

end

theorem outlines_eq {ts : List Branch} : outlines ts = ts.map outline := by
  induction ts with
  | nil          => rfl
  | cons t ts hi => rw [outlines, hi, List.map_cons]

end Markup.Branch

namespace Drawing

-- A label with several lines has an element for each.
def nodeOutlines (n : Placed Float) : List Outline :=
  let lines := wrapLabel n.label.toList
  [.leaf "rect", .node "text" (if 1 < lines.length then lines.map fun _ => .leaf "tspan" else [])]

def edgeOutlines (e : Edge) : List Outline :=
  if e.label.getD "" = "" then [.leaf "line"] else [.leaf "line", .leaf "text"]

def titleOutlines (title : Option String) : List Outline :=
  if title.getD "" = "" then [] else [.leaf "title"]

end Drawing

open Drawing

-- Which tags there are is decided by the number of nodes and edges, the lines of labels, and
-- whether a title and the labels of edges are empty.
def Layout.outline (l : Layout Float) (title : Option String) : Outline :=
  .node "svg" (titleOutlines title ++ [.node "defs" [.node "marker" [.leaf "path"]]] ++
    l.nodes.flatMap nodeOutlines ++ l.edges.flatMap edgeOutlines)

namespace Element

def outline (e : Element) : Outline :=
  e.branch.outline

variable {tag : String} {attributes : List (String × AttributeValue)} {text : Option String}
variable {children : List Element}

theorem outline_node :
    (node tag attributes text children).outline = .node tag (children.map outline) := by
  rw [outline, branch, Branch.outline, String.ofList_toList, branches_eq, Branch.outlines_eq,
    List.map_map]
  rfl

end Element

namespace Drawing

variable {n : Placed Float} {e : Edge} {t : StyleTable} {s : ShapeStyle} {title : Option String}
variable {source target : Placed Float}

theorem outline_nodeLabel : (nodeLabel n s).outline = .node "text"
    (if 1 < (wrapLabel n.label.toList).length then
      (wrapLabel n.label.toList).map fun _ => .leaf "tspan" else []) := by
  unfold nodeLabel
  generalize wrapLabel n.label.toList = lines
  split
  case h_1 line => rw [Element.outline_node, List.map_nil, if_neg (by simp)]
  case h_2 hl =>
    have hlines : lines.zipIdx.map (Element.outline ∘ labelLine (coordinate n.x)) =
        lines.map fun _ => .leaf "tspan" := by
      refine List.ext_getElem (by simp) fun i _ _ => ?_
      simp [labelLine, Element.outline_node, Outline.leaf]
    rw [Element.outline_node, List.map_map, hlines]
    match lines, hl with
    | [], _          => rfl
    | [line], hl     => exact (hl line rfl).elim
    | _ :: _ :: _, _ => rfl

theorem outline_nodeElements : (nodeElements t n).map Element.outline = nodeOutlines n := by
  rw [nodeElements, List.map_cons, List.map_singleton, outline_nodeLabel, nodeBox,
    Element.outline_node]
  rfl

theorem outline_edgeShapes : (edgeShapes e source target).map Element.outline = edgeOutlines e := by
  rw [edgeShapes, List.map_cons, edgeOutlines, edgeLabel?, edgeLine, Element.outline_node]
  cases e.label with
  | none       => rfl
  | some label =>
    by_cases hl : label = ""
    case pos => simp [hl, Outline.leaf]
    case neg => simp [hl, Outline.leaf, edgeText, Element.outline_node]

theorem outline_titleElements :
    (titleElements title).map Element.outline = titleOutlines title := by
  rw [titleElements, titleOutlines]
  cases title with
  | none       => rfl
  | some title =>
    by_cases ht : title = ""
    case pos => simp [ht]
    case neg => simp [ht, Outline.leaf, Element.outline_node]

theorem outline_arrowHead :
    arrowHead.outline = .node "defs" [.node "marker" [.leaf "path"]] := by
  simp [arrowHead, Element.outline_node, Outline.leaf]

-- The names of attributes that there are in drawings.
def attributeNames : List String :=
  ["class", "d", "data-label", "dominant-baseline", "dy", "fill", "font-family", "font-size",
    "height", "id", "marker-end", "markerHeight", "markerUnits", "markerWidth", "orient", "refX",
    "refY", "rx", "ry", "stroke", "stroke-width", "text-anchor", "width", "x", "x1", "x2", "y",
    "y1", "y2"]

theorem keyChars_ne_nil : ∀ key ∈ attributeNames, keyChars key ≠ [] := by
  decide

theorem named_node {tag : String} {attributes : List (String × AttributeValue)}
    {children : List Element} {text : Option String} (ht : IsTag tag.toList)
    (hk : ∀ key ∈ attributes.map (·.1), key ∈ attributeNames) (hc : ∀ e ∈ children, e.Named) :
    (Element.node tag attributes text children).Named :=
  ⟨ht, fun key h => keyChars_ne_nil key (hk key h), Element.namedAll_iff.mpr hc⟩

theorem named_nodeElements : ∀ e ∈ nodeElements t n, e.Named := by
  refine List.forall_mem_cons.mpr ⟨?box, List.forall_mem_singleton.mpr ?label⟩
  case box => exact named_node (by decide) (by simp [Element.attributes, attributeNames]) nofun
  case label =>
    unfold nodeLabel
    split
    case h_1 => exact named_node (by decide) (by simp [Element.attributes, attributeNames]) nofun
    case h_2 =>
      refine named_node (by decide) (by simp [Element.attributes, attributeNames]) ?_
      intro e he
      obtain ⟨line, _, rfl⟩ := List.mem_map.mp he
      exact named_node (by decide) (by simp [Element.attributes, attributeNames]) nofun

theorem named_edgeShapes : ∀ s ∈ edgeShapes e source target, s.Named := by
  refine List.forall_mem_cons.mpr ⟨?line, ?label⟩
  case line => exact named_node (by decide) (by simp [Element.attributes, attributeNames]) nofun
  case label =>
    intro s hs
    obtain ⟨label, _, rfl⟩ := Option.map_eq_some_iff.mp (Option.mem_toList.mp hs)
    exact named_node (by decide) (by simp [Element.attributes, attributeNames]) nofun

theorem named_body {elements : List Element} (h : ∀ e ∈ elements, e.Named) :
    ∀ e ∈ body title elements, e.Named := by
  refine List.forall_mem_append.mpr ⟨List.forall_mem_append.mpr ⟨?title, ?arrow⟩, h⟩
  case title =>
    intro s hs
    obtain ⟨text, _, rfl⟩ := Option.map_eq_some_iff.mp (Option.mem_toList.mp hs)
    exact named_node (by decide) nofun nofun
  case arrow =>
    refine List.forall_mem_singleton.mpr (named_node (by decide) nofun ?_)
    refine List.forall_mem_singleton.mpr (named_node (by decide) (by simp [attributeNames]) ?_)
    refine List.forall_mem_singleton.mpr (named_node (by decide) ?_ nofun)
    simp [Element.attributes, attributeNames]

end Drawing

section Document

variable {l : Layout Float} {title : Option String} {elements : List Element}

-- Each element stands on a line of its own.
def indented (e : Element) : List Char :=
  ['\n', ' ', ' '] ++ e.render

theorem reads_indented {run : List Char} {ts : List Branch} {outer : List (Start × List Branch)}
    (h : ∀ e ∈ elements, e.Named) (ho : outer ≠ []) (hr : IsText run.reverse) :
    ∃ run', IsText run'.reverse ∧ Reads ⟨.content run, ts, outer⟩ (elements.flatMap indented)
      ⟨.content run', (elements.map Element.branch).reverse ++ ts, outer⟩ := by
  induction elements generalizing run ts with
  | nil                => exact ⟨run, hr, .refl⟩
  | cons e elements hi =>
    have ⟨he, hes⟩ := List.forall_mem_cons.mp h
    have h₁ : Reads ⟨.content run, ts, outer⟩ ['\n', ' ', ' ']
        ⟨.content ([' ', ' ', '\n'] ++ run), ts, outer⟩ :=
      .textRun (by simp) ho
    have ht : IsText ([' ', ' ', '\n'] ++ run).reverse := by
      rw [List.reverse_append]
      exact hr.append (Unmarked.isText (by decide))
    have h₂ : Reads ⟨.content ([' ', ' ', '\n'] ++ run), ts, outer⟩ e.render
        ⟨.content [], e.branch :: ts, outer⟩ :=
      reads_render he ht
    obtain ⟨run', hr', h₃⟩ := @hi [] (e.branch :: ts) hes isText_nil
    exact ⟨run', hr', by simpa [indented] using (h₁.trans h₂).trans h₃⟩

-- The attributes of the outermost element.
def rootPairs (width height : String) : List (List Char × List Char) :=
  [("xmlns".toList, "http://www.w3.org/2000/svg".toList), ("width".toList, width.toList),
    ("height".toList, height.toList),
    ("viewBox".toList, ['0', ' ', '0', ' '] ++ width.toList ++ [' '] ++ height.toList)]

theorem toList_openLine {width height : String} : (openLine width height).toList =
    writeStart "svg".toList (rootPairs width height) ++ ['>'] := by
  have happ (a b c d e : String) :
      (a ++ width ++ b ++ height ++ c ++ width ++ d ++ height ++ e).toList =
        a.toList ++ width.toList ++ b.toList ++ height.toList ++ c.toList ++ width.toList ++
          d.toList ++ height.toList ++ e.toList := by
    simp only [String.toList_append]
  -- The same text, cut where a number is inserted.
  have hcut : writeStart "svg".toList (rootPairs width height) ++ ['>'] =
      ('<' :: ("svg".toList ++ writePair ("xmlns".toList, "http://www.w3.org/2000/svg".toList) ++
          ' ' :: ("width".toList ++ ['=', '"']))) ++ width.toList ++
        ('"' :: ' ' :: ("height".toList ++ ['=', '"'])) ++ height.toList ++
        ('"' :: ' ' :: ("viewBox".toList ++ ['=', '"', '0', ' ', '0', ' '])) ++ width.toList ++
        [' '] ++ height.toList ++ ['"', '>'] := by
    simp only [writeStart, rootPairs, writePair, List.flatMap_cons, List.flatMap_nil,
      List.append_assoc, List.cons_append, List.nil_append]
  exact (happ _ _ _ _ _).trans hcut.symm

theorem isPair_rootPairs {x y : Float} : ∀ a ∈ rootPairs (dimension x) (dimension y), IsPair a := by
  have hd (x : Float) : Unmarked (dimension x).toList := unmarked_of_isNumeral (.text _)
  have hb : Unmarked
      (['0', ' ', '0', ' '] ++ (dimension x).toList ++ [' '] ++ (dimension y).toList) := by
    simp only [Unmarked, List.forall_mem_append]
    exact ⟨⟨⟨(by decide : Unmarked _), hd x⟩, (by decide : Unmarked _)⟩, hd y⟩
  have hk : ∀ key ∈ ["xmlns", "width", "height", "viewBox"],
      key.toList ≠ [] ∧ key.toList.all isNameChar := by
    decide
  have hp {key : String} (h : key ∈ ["xmlns", "width", "height", "viewBox"]) {value : List Char}
      (hv : Unmarked value) : IsPair (key.toList, value) :=
    ⟨(hk key h).left, List.all_eq_true.mp (hk key h).right, hv.isText⟩
  simp only [rootPairs, List.forall_mem_cons]
  exact ⟨hp (by decide) (by decide), hp (by decide) (hd x), hp (by decide) (hd y),
    hp (by decide) hb, nofun⟩

theorem intercalate_cons {c : Char} {part : List Char} {parts : List (List Char)} :
    [c].intercalate (part :: parts) = part ++ parts.flatMap (c :: ·) := by
  induction parts generalizing part with
  | nil                 => simp
  | cons next parts hi =>
    rw [List.intercalate_cons_of_ne_nil (List.cons_ne_nil _ _), hi, List.flatMap_cons]
    simp

theorem document_eq : document l title elements =
    writeStart "svg".toList (rootPairs (dimension l.width) (dimension l.height)) ++ ['>'] ++
      ((body title elements).flatMap indented ++ ['\n']) ++
      (['<', '/'] ++ "svg".toList ++ ['>']) := by
  rw [document, toList_openLine, List.singleton_append, List.cons_append, intercalate_cons,
    List.flatMap_append, List.flatMap_map]
  simp only [List.append_assoc]
  rfl

theorem read?_document (h : ∀ e ∈ elements, e.Named) :
    read? (document l title elements) = some (.node "svg".toList
      (rootPairs (dimension l.width) (dimension l.height))
      ((body title elements).map Element.branch)) := by
  have ho : [(Start.mk "svg".toList (rootPairs (dimension l.width) (dimension l.height)).reverse,
      ([] : List Branch))] ≠ [] := List.cons_ne_nil _ _
  obtain ⟨run, hr, h₁⟩ := @reads_indented (body title elements) [] [] _ (named_body h) ho isText_nil
  have h₂ :=
    @Reads.textRun ['\n'] run ((body title elements).map Element.branch).reverse _ (by simp) ho
  rw [read?_eq_some_iff, document_eq]
  have hn : IsText (['\n'].reverse ++ run).reverse := by
    rw [List.reverse_append]
    exact hr.append (Unmarked.isText (by decide))
  rw [List.append_nil] at h₁
  exact .ofBranch (by decide) isPair_rootPairs isText_nil hn (h₁.trans h₂)

theorem outline_body : (body title elements).map Element.outline = titleOutlines title ++
    [.node "defs" [.node "marker" [.leaf "path"]]] ++ elements.map Element.outline := by
  rw [body, List.map_append, List.map_append, outline_titleElements, List.map_singleton,
    outline_arrowHead]

theorem wellFormed_document (h : ∀ e ∈ elements, e.Named) :
    ∃ root, WellFormed (document l title elements) root ∧ root.outline = .node "svg"
      (titleOutlines title ++ [.node "defs" [.node "marker" [.leaf "path"]]] ++
        elements.map Element.outline) := by
  refine ⟨_, wellFormed_of_read? (read?_document h), ?_⟩
  rw [Branch.outline, String.ofList_toList, Branch.outlines_eq, List.map_map, ← outline_body]
  rfl

end Document

namespace Layout

variable {l : Layout Float} {t : StyleTable} {edges : List Edge} {ess : List (List Element)}

theorem named_flatten
    (h : List.Forall₂ (fun e es => ∃ source target, edgeShapes e source target = es) edges ess) :
    ∀ e ∈ ess.flatten, e.Named := by
  induction h with
  | nil          => nofun
  | cons he _ hi =>
    obtain ⟨source, target, rfl⟩ := he
    exact List.forall_mem_append.mpr ⟨named_edgeShapes, hi⟩

theorem outline_flatten
    (h : List.Forall₂ (fun e es => ∃ source target, edgeShapes e source target = es) edges ess) :
    ess.flatten.map Element.outline = edges.flatMap edgeOutlines := by
  induction h with
  | nil          => rfl
  | cons he _ hi =>
    obtain ⟨source, target, rfl⟩ := he
    rw [List.flatten_cons, List.map_append, outline_edgeShapes, hi, List.flatMap_cons]

theorem named_nodes : ∀ e ∈ l.nodes.flatMap (nodeElements t), e.Named := by
  intro e he
  obtain ⟨n, _, hn⟩ := List.mem_flatMap.mp he
  exact named_nodeElements e hn

theorem outline_nodes :
    (l.nodes.flatMap (nodeElements t)).map Element.outline = l.nodes.flatMap nodeOutlines := by
  rw [List.map_flatMap]
  simp only [outline_nodeElements]

-- Whatever its texts are, a drawing is one well-nested element with the tags of its structure.
theorem render_wellFormed (h : l.Joined) (overrides : Record StyleOverride)
    (title : Option String) : ∃ svg root, l.render overrides title = .ok svg ∧
      WellFormed svg.toList root ∧ root.outline = l.outline title := by
  obtain ⟨ess, hes, hall⟩ := elements_of_joined h (StyleTable.resolve overrides)
  have hn : ∀ e ∈ l.nodes.flatMap (nodeElements (StyleTable.resolve overrides)) ++ ess.flatten,
      e.Named :=
    List.forall_mem_append.mpr ⟨named_nodes, named_flatten hall⟩
  have hr : l.render overrides title = .ok (String.ofList (document l title
      (l.nodes.flatMap (nodeElements (StyleTable.resolve overrides)) ++ ess.flatten))) := by
    rw [render, hes]
    rfl
  obtain ⟨root, hw, ho⟩ := @wellFormed_document l title _ hn
  refine ⟨_, root, hr, by rwa [String.toList_ofList], ?_⟩
  rw [ho, List.map_append, outline_nodes, outline_flatten hall, outline, ← List.append_assoc]

-- Texts that look like tags, entities and handlers.
def hostile : Layout Float where
  width := 800
  height := 600
  nodes := [⟨⟨"\"><script>", "</text></svg><script>alert(1)</script> &lt; & onload=", "'\"<&>", []⟩,
    60, 60⟩, ⟨⟨"b", "", "io", []⟩, 260, 60⟩]
  edges := [⟨"\"><script>", "b", some "\" onclick=\"javascript:f()&quot; <!-- ]]>"⟩]

theorem render_wellFormed_hostile : hostile.Joined ∧ ∃ svg root,
    hostile.render [("io", { fill := some "\"/><script>" })] (some "</title>") = .ok svg ∧
      WellFormed svg.toList root ∧ root.outline = .node "svg"
        [.leaf "title", .node "defs" [.node "marker" [.leaf "path"]],
          .leaf "rect", .node "text" [.leaf "tspan", .leaf "tspan"], .leaf "rect", .leaf "text",
          .leaf "line", .leaf "text"] := by
  have h : hostile.Joined := by decide
  obtain ⟨svg, root, hr, hw, ho⟩ :=
    render_wellFormed h [("io", { fill := some "\"/><script>" })] (some "</title>")
  exact ⟨h, svg, root, hr, hw, ho.trans (by rfl)⟩

end Layout

end LayeredDiagram
