import LayeredDiagram.Figure.Generator
import LayeredDiagram.Proofs.Layout.Outcome
import Mathlib.Algebra.BigOperators.Ring.Finset

namespace LayeredDiagram

open Spec (FirstRepeat)

variable {α : Type} {key : α → String} {as : List α} {ids : List String}

-- Each element is counted under one of the keys.
theorem sum_countP_of_nodup (hn : ids.Nodup) (h : ∀ a ∈ as, key a ∈ ids) :
    (ids.map fun id => as.countP (key · = id)).sum = as.length := by
  rw [← List.sum_toFinset _ hn]
  induction as with
  | nil          => simp
  | cons a as hi =>
    have ⟨ha, has⟩ := List.forall_mem_cons.mp h
    simp [List.countP_cons, Finset.sum_add_distrib, hi has, ha]

namespace Graph

variable {g : Graph} {p : Plan}

-- The tables of the graph, told from the plan.
structure Exact (g : Graph) (p : Plan) : Prop where
  ids           : g.ids.toList = p.ids
  index         : ∀ (id : String) (u : Nat), g.index[id]? = some u ↔ p.ids[u]? = some id
  outgoing      : g.outgoing.toList.map Array.toList = p.ids.map fun id =>
    (p.edges.filter (·.source = id)).map fun e => p.ids.idxOf e.target
  incoming      : g.incoming.toList = p.ids.map fun id => p.edges.countP (·.target = id)
  outgoingTotal : g.edgeCount = p.edges.length
  incomingTotal : g.incoming.toList.sum = p.edges.length

namespace Indexes

variable {edges : List Edge}

-- What holds at the place of each identifier holds at each place.
theorem outgoing_eq (h : g.Indexes ids edges) (hn : ids.Nodup) :
    g.outgoing.toList.map Array.toList = ids.map fun id =>
      (edges.filter (·.source = id)).map fun e => ids.idxOf e.target := by
  refine List.ext_getElem (by simp [h.outgoing_size]) fun u hu hu' => ?_
  rw [List.length_map, Array.length_toList] at hu
  rw [List.length_map] at hu'
  have ht := h.targets_eq ids[u] (List.getElem_mem hu')
  rw [hn.idxOf_getElem, targets, Array.getElem?_eq_getElem hu, Option.getD_some] at ht
  simpa using ht

theorem incoming_eq_map (h : g.Indexes ids edges) (hn : ids.Nodup) :
    g.incoming.toList = ids.map fun id => edges.countP (·.target = id) := by
  refine List.ext_getElem (by simp [h.incoming_size]) fun u hu hu' => ?_
  rw [Array.length_toList] at hu
  rw [List.length_map] at hu'
  have hi := h.incoming_eq ids[u] (List.getElem_mem hu')
  rw [hn.idxOf_getElem, Array.getElem?_eq_getElem hu, Option.some.injEq] at hi
  simpa using hi

theorem index_eq_some_iff (h : g.Indexes ids edges) (hn : ids.Nodup) {id : String} {u : Nat} :
    g.index[id]? = some u ↔ ids[u]? = some id := by
  rw [h.index_eq]
  constructor
  case mp =>
    intro hu
    split_ifs at hu with hm
    cases hu
    exact List.getElem?_idxOf hm
  case mpr =>
    intro hu
    obtain ⟨hlt, rfl⟩ := List.getElem?_eq_some_iff.mp hu
    rw [if_pos (List.getElem_mem hlt), hn.idxOf_getElem]

end Indexes

theorem edgeCount_eq_sum (g : Graph) :
    g.edgeCount = ((g.outgoing.toList.map Array.toList).map List.length).sum := by
  rw [edgeCount, ← Array.foldl_toList, List.map_map, List.sum_eq_foldl, List.foldl_map]
  rfl

theorem exact_of_ofPlan (h : ofPlan p = .ok g) : g.Exact p := by
  have hp := valid_of_ofPlan h
  have hg := indexes_of_ofPlan h
  have hout := hg.outgoing_eq hp.distinct
  have hin := hg.incoming_eq_map hp.distinct
  constructor
  case ids           => exact hg.ids_eq
  case index         => exact fun _ _ => hg.index_eq_some_iff hp.distinct
  case outgoing      => exact hout
  case incoming      => exact hin
  case outgoingTotal =>
    rw [edgeCount_eq_sum, hout, List.map_map,
      ← sum_countP_of_nodup hp.distinct fun e he => (hp.declared e he).left]
    simp only [Function.comp_def, List.length_map, List.countP_eq_length_filter]
  case incomingTotal =>
    rw [hin]
    exact sum_countP_of_nodup hp.distinct fun e he => (hp.declared e he).right

end Graph

namespace Plan

variable {p : Plan} {o : LayoutOptions} {e : LayoutError}

-- A layout that fails does so for want of a graph, or at its cap.
theorem layout_eq_error_cases (h : p.layout o = .error e) :
    Graph.ofPlan p = .error e ∨ p.Valid ∧ ∃ x, o.cap = some x ∧ e = .notSettled x := by
  cases hg : Graph.ofPlan p with
  | error e' =>
    rw [layout_of_ofPlan_eq_error hg] at h
    exact .inl (congrArg _ (Except.error.inj h))
  | ok g     =>
    have hp := Graph.valid_of_ofPlan hg
    rw [layout_eq_error_iff] at h
    obtain ⟨ls, hl, _⟩ | ⟨x, hc, _, hl⟩ := layers_of_valid hp o.cap
    case inl => nomatch h.symm.trans hl
    case inr => exact .inr ⟨hp, x, hc, Except.error.inj (h.symm.trans hl)⟩

-- A plan has a graph with exact tables, unless an identifier is repeated, whatever its edges are,
-- or an edge names an undeclared node. These are the ways in which it has no layout, too, apart
-- from its cap, and what a layout fails with is what is reported of it.
theorem indexed_or_refused (p : Plan) :
    (¬p.ids.Nodup → ∃ n, FirstRepeat (·.id) p.nodes n ∧
      Graph.ofPlan p = .error (.duplicateNode n.id)) ∧
    (p.ids.Nodup → ¬(∀ e ∈ p.edges, e.source ∈ p.ids ∧ e.target ∈ p.ids) →
      ∃ id e, p.FirstUndeclared id e ∧ Graph.ofPlan p = .error (.unknownNode id e)) ∧
    (p.Valid → ∃ g, Graph.ofPlan p = .ok g ∧ g.Exact p) ∧
    ∀ o, (∀ e, Graph.ofPlan p = .error e → p.layout o = .error e) ∧
      (∀ e, p.layout o = .error e →
        Graph.ofPlan p = .error e ∨ p.Valid ∧ ∃ x, o.cap = some x ∧ e = .notSettled x) ∧
      (p.tryLayout o).2 = p.layout o := by
  refine ⟨fun hn => ?repeated, fun hn hd => ?undeclared, fun hp => ?graph, fun o =>
    ⟨fun _ => layout_of_ofPlan_eq_error, fun _ => layout_eq_error_cases, ?reported⟩⟩
  case repeated =>
    have ⟨n, h⟩ := Spec.exists_firstRepeat hn
    exact ⟨n, h, Graph.ofPlan_of_firstRepeat h⟩
  case undeclared =>
    have ⟨id, e, h⟩ := exists_firstUndeclared hd
    exact ⟨id, e, h, Graph.ofPlan_of_firstUndeclared hn h⟩
  case graph =>
    have ⟨g, hg, _⟩ := Graph.ofPlan_of_valid hp
    exact ⟨g, hg, Graph.exact_of_ofPlan hg⟩
  case reported =>
    rw [tryLayout]
    cases p.layout o <;> rfl

-- Of several faults that of the nodes is reported.
example : Graph.ofPlan (ofEnds ["a", "b", "a", "b"] [("a", "x"), ("y", "z")]) =
    .error (.duplicateNode "a") := by
  cbv

end Plan

end LayeredDiagram
