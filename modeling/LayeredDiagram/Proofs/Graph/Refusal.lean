import LayeredDiagram.Proofs.Graph.Indexing
import LayeredDiagram.Proofs.Spec.Document

namespace LayeredDiagram

open Spec (FirstRepeat)

-- The first end of the edge that is not declared.
def Edge.Misses (e : Edge) (ids : List String) (id : String) : Prop :=
  (e.source ∉ ids ∧ e.source = id) ∨ (e.source ∈ ids ∧ e.target ∉ ids ∧ e.target = id)

namespace Plan

-- The first edge that names an undeclared node, and what it calls that node.
def FirstUndeclared (p : Plan) (id : String) (e : Edge) : Prop :=
  ∃ before after, p.edges = before ++ e :: after ∧
    (∀ d ∈ before, d.source ∈ p.ids ∧ d.target ∈ p.ids) ∧ e.Misses p.ids id

variable {p : Plan} {id : String} {e : Edge}

theorem FirstUndeclared.not_valid (h : p.FirstUndeclared id e) : ¬p.Valid := by
  obtain ⟨before, after, he, _, hm⟩ := h
  intro hp
  have ⟨hs, ht⟩ := hp.declared e (by simp [he])
  cases hm
  case inl hm => exact hm.left hs
  case inr hm => exact hm.right.left ht

theorem exists_firstUndeclared (h : ¬∀ e ∈ p.edges, e.source ∈ p.ids ∧ e.target ∈ p.ids) :
    ∃ id e, p.FirstUndeclared id e := by
  have ⟨e, he⟩ : ∃ e, p.edges.find? (fun e => ¬(e.source ∈ p.ids ∧ e.target ∈ p.ids)) = some e := by
    rw [← Option.isSome_iff_exists, List.find?_isSome]
    simpa only [decide_eq_true_eq, not_forall, exists_prop] using h
  obtain ⟨hn, before, after, he, hb⟩ := List.find?_eq_some_iff_append.mp he
  have hb : ∀ d ∈ before, d.source ∈ p.ids ∧ d.target ∈ p.ids := by simpa using hb
  by_cases hs : e.source ∈ p.ids
  case pos => exact ⟨e.target, e, before, after, he, hb, .inr ⟨hs, by simpa [hs] using hn, rfl⟩⟩
  case neg => exact ⟨e.source, e, before, after, he, hb, .inl ⟨hs, rfl⟩⟩

end Plan

namespace Graph

variable {g : Graph} {ids : List String} {edges : List Edge} {p : Plan}

namespace Indexes

theorem connect_eq_error (h : g.Indexes ids edges) {id : String} {e : Edge} (he : e.Misses ids id) :
    g.connect e = .error (.unknownNode id e) := by
  obtain ⟨hs, rfl⟩ | ⟨hs, ht, rfl⟩ := he
  case inl => exact h.connect_eq_error_of_source hs
  case inr => exact h.connect_eq_error_of_target hs ht

theorem foldlM_declare_eq_error (h : g.Indexes ids []) {before after : List Node} {n : Node}
    (hn : (ids ++ before.map (·.id)).Nodup) (hm : n.id ∈ ids ++ before.map (·.id)) :
    (before ++ n :: after).foldlM Graph.declare g = .error (.duplicateNode n.id) := by
  have ⟨g', hg', hi⟩ := h.foldlM_declare hn
  rw [List.foldlM_append, hg']
  change (n :: after).foldlM Graph.declare g' = _
  rw [List.foldlM_cons, hi.declare_eq_error hm]
  rfl

theorem foldlM_connect_eq_error (h : g.Indexes ids edges) {before after : List Edge} {id : String}
    {e : Edge} (hb : ∀ d ∈ before, d.source ∈ ids ∧ d.target ∈ ids) (he : e.Misses ids id) :
    (before ++ e :: after).foldlM Graph.connect g = .error (.unknownNode id e) := by
  have ⟨g', hg', hi⟩ := h.foldlM_connect hb
  rw [List.foldlM_append, hg']
  change (e :: after).foldlM Graph.connect g' = _
  rw [List.foldlM_cons, hi.connect_eq_error he]
  rfl

end Indexes

-- All nodes are declared before the first edge is drawn.
theorem ofPlan_of_firstRepeat {n : Node} (h : FirstRepeat (·.id) p.nodes n) :
    ofPlan p = .error (.duplicateNode n.id) := by
  obtain ⟨before, after, hp, hn, hm⟩ := h
  unfold ofPlan
  rw [hp, Indexes.empty.foldlM_declare_eq_error hn hm]
  rfl

theorem ofPlan_of_firstUndeclared {id : String} {e : Edge} (hn : p.ids.Nodup)
    (h : p.FirstUndeclared id e) : ofPlan p = .error (.unknownNode id e) := by
  obtain ⟨before, after, hp, hb, he⟩ := h
  have ⟨g, hg, hi⟩ := Indexes.empty.foldlM_declare hn
  unfold ofPlan
  rw [hg, hp]
  exact hi.foldlM_connect_eq_error hb he

end Graph

end LayeredDiagram
