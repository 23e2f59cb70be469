import LayeredDiagram.Drawing.Document
import LayeredDiagram.Proofs.Layout.Outcome

namespace LayeredDiagram

namespace Drawing

variable {nodes : List (Placed Float)} {e : Edge} {es : List Element} {id : String}

-- What is drawn for an edge between two nodes.
def edgeShapes (e : Edge) (source target : Placed Float) : List Element :=
  edgeLine e source target :: ((edgeLabel? e).map (edgeText · source target)).toList

theorem getElem?_foldl_insert (m : PlacedNodes) :
    (nodes.foldl (fun m n => m.insert n.id n) m)[id]? =
      (nodes.reverse.find? (·.id == id)).or m[id]? := by
  induction nodes generalizing m with
  | nil            => rfl
  | cons n nodes hi =>
    rw [List.foldl_cons, hi, List.reverse_cons, List.find?_append, Option.or_assoc,
      Std.HashMap.getElem?_insert]
    by_cases hn : n.id = id <;> simp [hn]

-- The node that counts is the last one with the identifier.
theorem getElem?_placedNodes :
    (placedNodes nodes)[id]? = nodes.reverse.find? (·.id == id) := by
  simp [placedNodes, getElem?_foldl_insert]

theorem exists_getElem?_placedNodes (h : id ∈ nodes.map (·.id)) :
    ∃ n, (placedNodes nodes)[id]? = some n := by
  obtain ⟨n, hn, rfl⟩ := List.mem_map.mp h
  rw [getElem?_placedNodes, ← Option.isSome_iff_exists, List.find?_isSome]
  exact ⟨n, List.mem_reverse.mpr hn, beq_self_eq_true _⟩

theorem edgeElements_eq_ok_iff : edgeElements (placedNodes nodes) e = .ok es ↔
    ∃ source target, (placedNodes nodes)[e.source]? = some source ∧
      (placedNodes nodes)[e.target]? = some target ∧ edgeShapes e source target = es := by
  rw [edgeElements]
  cases (placedNodes nodes)[e.source]? <;> cases (placedNodes nodes)[e.target]? <;>
    simp [edgeShapes]

end Drawing

namespace Layout

open Drawing

variable {l : Layout Float}

-- What is drawn for each edge, in their order.
theorem exists_edgeElements (h : l.Joined) :
    ∃ ess, l.edges.mapM (edgeElements (placedNodes l.nodes)) = .ok ess ∧
      List.Forall₂ (fun e es => ∃ source target, edgeShapes e source target = es) l.edges ess := by
  have hok (e : Edge) (he : e ∈ l.edges) :
      ∃ es, edgeElements (placedNodes l.nodes) e = .ok es := by
    have ⟨source, hs⟩ := exists_getElem?_placedNodes (h e he).left
    have ⟨target, ht⟩ := exists_getElem?_placedNodes (h e he).right
    exact ⟨_, edgeElements_eq_ok_iff.mpr ⟨source, target, hs, ht, rfl⟩⟩
  have ⟨ess, hess⟩ := exists_mapM_eq_ok hok
  refine ⟨ess, hess, (mapM_eq_ok_iff.mp hess).imp fun e es he => ?_⟩
  have ⟨source, target, _, _, hes⟩ := edgeElements_eq_ok_iff.mp he
  exact ⟨source, target, hes⟩

-- If its edges join nodes that have been placed, every layout has a drawing: a box and a label for
-- each node, and then a line for each edge, with its label if it has one.
theorem elements_of_joined (h : l.Joined) (t : StyleTable) :
    ∃ ess, l.elements t = .ok (l.nodes.flatMap (nodeElements t) ++ ess.flatten) ∧
      List.Forall₂ (fun e es => ∃ source target, edgeShapes e source target = es) l.edges ess := by
  have ⟨ess, hess, hall⟩ := exists_edgeElements h
  refine ⟨ess, ?_, hall⟩
  rw [elements, hess]
  rfl

theorem render_of_joined (h : l.Joined) (overrides : Record StyleOverride)
    (title : Option String) : ∃ svg, l.render overrides title = .ok svg := by
  have ⟨ess, hes, _⟩ := elements_of_joined h (StyleTable.resolve overrides)
  rw [render, hes]
  exact ⟨_, rfl⟩

end Layout

end LayeredDiagram
