import LayeredDiagram.Proofs.Drawing.Label
import LayeredDiagram.Proofs.Drawing.Outline
import LayeredDiagram.Proofs.Markup.TextTree

namespace LayeredDiagram

open Markup

namespace Markup.TextTree

def tag : TextTree → List Char
  | node tag _ _ => tag

def text : TextTree → List Char
  | node _ text _ => text

def children : TextTree → List TextTree
  | node _ _ children => children

def tagged (tag : String) (ts : List TextTree) : List TextTree :=
  ts.filter (·.tag = tag.toList)

-- The single text of an element, or its lines with a blank in between.
def content (t : TextTree) : List Char :=
  if t.children.isEmpty then t.text else Drawing.joinWords ((tagged "tspan" t.children).map text)

-- What the elements with a tag say.
def contents (tag : String) (ts : List TextTree) : List (List Char) :=
  (tagged tag ts).map content

end Markup.TextTree

namespace Drawing

open Text TextTree

variable {n : Placed Float} {e : Edge} {t : StyleTable} {look : ShapeStyle} {title : Option String}
variable {source target : Placed Float} {s : Element} {elements : List Element}
  {tag : String}

-- What the elements with a tag say in the drawing.
def shown (tag : String) (elements : List Element) : List (List Char) :=
  contents tag (elements.map Element.textTree)

theorem shown_cons : shown tag (s :: elements) =
    (if s.textTree.tag = tag.toList then [s.textTree.content] else []) ++ shown tag elements := by
  rw [shown, List.map_cons, contents, tagged, List.filter_cons]
  by_cases hs : s.textTree.tag = tag.toList <;> simp [hs, shown, contents, tagged]

theorem shown_append {more : List Element} :
    shown tag (elements ++ more) = shown tag elements ++ shown tag more := by
  simp [shown, contents, tagged]

theorem shown_flatMap {α : Type} {as : List α} {f : α → List Element} :
    shown tag (as.flatMap f) = as.flatMap fun a => shown tag (f a) := by
  induction as with
  | nil          => rfl
  | cons a as hi => rw [List.flatMap_cons, shown_append, hi, List.flatMap_cons]

-- Each line is read back from an element of its own.
theorem map_text_labelLine {x : String} {lines : List (List Char)} :
    (tagged "tspan" ((lines.zipIdx.map (labelLine x)).map Element.textTree)).map text = lines := by
  have hall : ∀ t ∈ (lines.zipIdx.map (labelLine x)).map Element.textTree,
      t.tag = "tspan".toList := by
    simp only [List.forall_mem_map]
    exact fun _ _ => rfl
  rw [tagged, List.filter_eq_self.mpr (by simpa using hall), List.map_map, List.map_map]
  calc lines.zipIdx.map (text ∘ Element.textTree ∘ labelLine x)
    _ = lines.zipIdx.map Prod.fst := List.map_congr_left fun line _ => String.toList_ofList
    _ = lines                     := List.zipIdx_map_fst 0 lines

theorem content_nodeLabel :
    (nodeLabel n look).textTree.content = joinWords (words n.label.toList) := by
  rw [← joinWords_wrapLabel, nodeLabel]
  generalize wrapLabel n.label.toList = lines
  split
  case h_1 line => exact String.toList_ofList.trans joinWords_singleton.symm
  case h_2      =>
    rw [Element.textTree_node, content]
    cases lines with
    | nil    => rfl
    | cons _ => rw [if_neg (by simp [children]), children, map_text_labelLine]

theorem tag_nodeLabel : (nodeLabel n look).textTree.tag = "text".toList := by
  unfold nodeLabel
  split <;> rfl

theorem shown_nodeElements :
    shown "text" (nodeElements t n) = [joinWords (words n.label.toList)] ∧
      shown "title" (nodeElements t n) = [] := by
  have hbox {look : ShapeStyle} : (nodeBox n look).textTree.tag = "rect".toList := rfl
  constructor
  case left  =>
    rw [nodeElements, shown_cons, hbox, if_neg (by decide), shown_cons, tag_nodeLabel, if_pos rfl,
      content_nodeLabel]
    rfl
  case right =>
    rw [nodeElements, shown_cons, hbox, if_neg (by decide), shown_cons, tag_nodeLabel,
      if_neg (by decide)]
    rfl

theorem shown_edgeShapes :
    shown "text" (edgeShapes e source target) = ((edgeLabel? e).map String.toList).toList ∧
      shown "title" (edgeShapes e source target) = [] := by
  have hline : (edgeLine e source target).textTree.tag = "line".toList := rfl
  rw [edgeShapes, shown_cons, hline, if_neg (by decide), shown_cons, hline, if_neg (by decide)]
  cases edgeLabel? e <;> exact ⟨rfl, rfl⟩

theorem shown_titleElements :
    shown "text" (titleElements title) = [] ∧
      shown "title" (titleElements title) =
        ((title.filter (· != "")).map String.toList).toList := by
  rw [titleElements]
  cases title.filter (· != "") <;> exact ⟨rfl, rfl⟩

theorem shown_arrowHead : shown "text" [arrowHead] = [] ∧ shown "title" [arrowHead] = [] :=
  ⟨rfl, rfl⟩

section Document

variable {l : Layout Float} {d : Draft}

theorem exists_tells_indented (h : ∀ e ∈ elements, e.Named) :
    ∃ text, Tells (elements.flatMap indented) d
      ⟨d.tag, text, (elements.map Element.textTree).reverse ++ d.children⟩ := by
  induction elements generalizing d with
  | nil                => exact ⟨d.text, .refl⟩
  | cons e elements hi =>
    have ⟨he, hes⟩ := List.forall_mem_cons.mp h
    have ⟨text, hrest⟩ := @hi ((d.say ['\n', ' ', ' ']).add e.textTree) hes
    have hfirst : Tells (indented e) d ((d.say ['\n', ' ', ' ']).add e.textTree) :=
      (tells_unmarked (by decide)).trans (tells_render he)
    exact ⟨text, by simpa [Draft.add, Draft.say] using hfirst.trans hrest⟩

theorem exists_read?_document (h : ∀ e ∈ elements, e.Named) :
    ∃ text, TextTree.read? (document l title elements) =
      some (.node "svg".toList text ((body title elements).map Element.textTree)) := by
  have ⟨text, hbody⟩ := @exists_tells_indented (body title elements) { tag := "svg".toList }
    (named_body h)
  have hend (d : Draft) : Tells ['\n'] d (d.say ['\n']) := tells_unmarked (by decide)
  have hroot := tells_node (d := { tag := [] }) (by decide)
    (isPair_rootPairs (x := l.width) (y := l.height)) (hbody.trans (hend _)) rfl
  rw [document_eq]
  exact ⟨text ++ ['\n'], read?_of_tells (by simpa [Draft.tree, Draft.say] using hroot)⟩

end Document

end Drawing

namespace Layout

open Drawing Text TextTree

variable {l : Layout Float} {t : StyleTable} {title : Option String} {edges : List Edge}
  {ess : List (List Element)}

theorem shown_flatten
    (h : List.Forall₂ (fun e es => ∃ source target, edgeShapes e source target = es) edges ess) :
    shown "text" ess.flatten = edges.filterMap (fun e => (edgeLabel? e).map String.toList) ∧
      shown "title" ess.flatten = [] := by
  induction h with
  | nil                   => exact ⟨rfl, rfl⟩
  | @cons e _ _ _ he _ hi =>
    obtain ⟨source, target, rfl⟩ := he
    rw [List.flatten_cons, shown_append, shown_append, shown_edgeShapes.left,
      shown_edgeShapes.right, hi.left, hi.right, List.filterMap_cons]
    cases (edgeLabel? e).map String.toList <;> exact ⟨rfl, rfl⟩

theorem shown_nodes :
    shown "text" (l.nodes.flatMap (nodeElements t)) =
        l.nodes.map (fun n => joinWords (words n.label.toList)) ∧
      shown "title" (l.nodes.flatMap (nodeElements t)) = [] := by
  simp [shown_flatMap, shown_nodeElements, ← List.map_eq_flatMap]

-- What a drawing of a layout says: the words of each label, whatever blanks there were between
-- them, and the label of each edge and the title as they are. So no label has lost anything but
-- blanks.
structure Shows (l : Layout Float) (title : Option String) (root : TextTree) : Prop where
  title  : contents "title" root.children = ((title.filter (· != "")).map String.toList).toList
  labels : contents "text" root.children =
    l.nodes.map (fun n => joinWords (words n.label.toList)) ++
      l.edges.filterMap fun e => (edgeLabel? e).map String.toList
  kept   : (contents "text" root.children).map (·.filter (!isBlank ·)) =
    l.nodes.map (fun n => n.label.toList.filter (!isBlank ·)) ++
      l.edges.filterMap fun e => (edgeLabel? e).map (·.toList.filter (!isBlank ·))

theorem Shows.of_contents {root : TextTree}
    (ht : contents "title" root.children = ((title.filter (· != "")).map String.toList).toList)
    (hl : contents "text" root.children =
      l.nodes.map (fun n => joinWords (words n.label.toList)) ++
        l.edges.filterMap fun e => (edgeLabel? e).map String.toList) : l.Shows title root where
  title  := ht
  labels := hl
  kept   := by
    rw [hl, List.map_append, List.map_map, List.map_filterMap]
    simp only [Function.comp_def, filter_joinWords_words, Option.map_map]

-- Every text is read back from the characters of a drawing.
theorem render_shows (h : l.Joined) (overrides : Record StyleOverride) (title : Option String) :
    ∃ svg root, l.render overrides title = .ok svg ∧ TextTree.read? svg.toList = some root ∧
      l.Shows title root := by
  obtain ⟨ess, hes, hall⟩ := elements_of_joined h (StyleTable.resolve overrides)
  let elements := l.nodes.flatMap (nodeElements (StyleTable.resolve overrides)) ++ ess.flatten
  have hn : ∀ e ∈ elements, e.Named := List.forall_mem_append.mpr ⟨named_nodes, named_flatten hall⟩
  have hr : l.render overrides title = .ok (String.ofList (document l title elements)) := by
    rw [render, hes]
    rfl
  obtain ⟨text, hread⟩ := @exists_read?_document title elements l hn
  refine ⟨_, _, hr, by rwa [String.toList_ofList], .of_contents ?titles ?labels⟩
  case titles =>
    change shown "title" (body title elements) = _
    rw [body, shown_append, shown_append, shown_titleElements.right, shown_arrowHead.right,
      shown_append, shown_nodes.right, (shown_flatten hall).right, List.append_nil, List.append_nil,
      List.append_nil]
  case labels =>
    change shown "text" (body title elements) = _
    rw [body, shown_append, shown_append, shown_titleElements.left, shown_arrowHead.left,
      shown_append, shown_nodes.left, (shown_flatten hall).left, List.nil_append, List.nil_append]

theorem render_shows_hostile : hostile.Joined ∧ ∃ svg root,
    hostile.render [] (some "</title> &lt;") = .ok svg ∧ TextTree.read? svg.toList = some root ∧
      contents "title" root.children = ["</title> &lt;".toList] ∧
      contents "text" root.children =
        ["</text></svg><script>alert(1)</script> &lt; & onload=".toList, [],
          "\" onclick=\"javascript:f()&quot; <!-- ]]>".toList] := by
  have h : hostile.Joined := by decide
  obtain ⟨svg, root, hr, hread, hs⟩ := render_shows h [] (some "</title> &lt;")
  exact ⟨h, svg, root, hr, hread, hs.title.trans (by decide), hs.labels.trans (by decide)⟩

end Layout

end LayeredDiagram
