import LayeredDiagram.Proofs.Graph.Layering
import LayeredDiagram.Proofs.Sequence

namespace LayeredDiagram

open Relation

namespace Plan

open LayeredDiagram.Graph

def Joins (p : Plan) (a b : String) : Prop :=
  ∃ e ∈ p.edges, e.source = a ∧ e.target = b

-- The identifier in place `u`.
def idAt (p : Plan) (u : Nat) : String :=
  p.ids[u]?.getD ""

-- The lengths of the walks from sources to `id`.
def wayLengths (p : Plan) (id : String) : Set Nat :=
  { n | ∃ s ∈ p.ids, (∀ a, ¬p.Joins a s) ∧ Walk p.Joins s id n }

variable {p q : Plan} {g : Graph} {u v n l : Nat} {a b id : String} {cap : Option Float}
variable {ls : List (String × Nat)}

theorem idAt_idxOf (h : id ∈ p.ids) : p.idAt (p.ids.idxOf id) = id := by
  have hlt := List.idxOf_lt_length_iff.mpr h
  simp [idAt, List.getElem?_eq_getElem hlt]

theorem idxOf_idAt (hp : p.Valid) (hu : u < p.ids.length) : p.ids.idxOf (p.idAt u) = u := by
  simp [idAt, hu, hp.distinct.idxOf_getElem]

theorem idAt_mem (hu : u < p.ids.length) : p.idAt u ∈ p.ids := by
  simp [idAt, hu]

theorem targets_eq_of_ofPlan (h : ofPlan p = .ok g) (hu : u < p.ids.length) :
    g.targets u = (p.edges.filter (·.source = p.idAt u)).map fun e => p.ids.idxOf e.target := by
  have ht := (indexes_of_ofPlan h).targets_eq _ (idAt_mem hu)
  rwa [idxOf_idAt (valid_of_ofPlan h) hu] at ht

theorem targets_eq_nil_of_ofPlan (h : ofPlan p = .ok g) (hu : ¬u < p.ids.length) :
    g.targets u = [] := by
  rw [targets_eq_listAt, listAt_of_size_le]
  exact (indexes_of_ofPlan h).outgoing_size ▸ Nat.le_of_not_lt hu

theorem Valid.joins (hp : p.Valid) (e : p.Joins a b) : a ∈ p.ids ∧ b ∈ p.ids := by
  obtain ⟨e, he, rfl, rfl⟩ := e
  exact hp.declared e he

theorem leads_of_joins (h : ofPlan p = .ok g) (e : p.Joins a b) :
    Leads g.outgoing (p.ids.idxOf a) (p.ids.idxOf b) := by
  have ⟨ha, _⟩ := (valid_of_ofPlan h).joins e
  obtain ⟨e, he, rfl, rfl⟩ := e
  rw [Leads, ← targets_eq_listAt, (indexes_of_ofPlan h).targets_eq _ ha]
  exact List.mem_map_of_mem (List.mem_filter.mpr ⟨he, by simp⟩)

theorem lt_of_leads (h : ofPlan p = .ok g) (e : Leads g.outgoing u v) :
    u < p.ids.length ∧ v < p.ids.length := by
  have hg := indexes_of_ofPlan h
  exact ⟨hg.outgoing_size ▸ lt_size_of_leads e, hg.size_eq ▸ targets_lt_of_ofPlan h e⟩

theorem joins_of_leads (h : ofPlan p = .ok g) (e : Leads g.outgoing u v) :
    p.Joins (p.idAt u) (p.idAt v) := by
  have hp := valid_of_ofPlan h
  have ⟨hu, _⟩ := lt_of_leads h e
  rw [Leads, ← targets_eq_listAt, targets_eq_of_ofPlan h hu, List.mem_map] at e
  obtain ⟨e, he, rfl⟩ := e
  obtain ⟨he, hs⟩ := List.mem_filter.mp he
  exact ⟨e, he, by simpa using hs, (idAt_idxOf (hp.declared e he).right).symm⟩

theorem isSource_idxOf_iff (h : id ∈ p.ids) :
    p.IsSource (p.ids.idxOf id) ↔ ∀ a, ¬p.Joins a id := by
  have hlt := List.idxOf_lt_length_iff.mpr h
  simp only [IsSource, Joins, List.getElem?_eq_getElem hlt, List.getElem_idxOf]
  constructor
  case mp  => exact fun ⟨_, rfl, hn⟩ a ⟨e, he, _, ht⟩ => hn e he ht
  case mpr => exact fun hn => ⟨id, rfl, fun e he ht => hn e.source ⟨e, he, rfl, ht⟩⟩

theorem IsSource.lt (h : p.IsSource u) : u < p.ids.length :=
  have ⟨_, hid, _⟩ := h
  (List.getElem?_eq_some_iff.mp hid).choose

theorem acyclic_leads (h : ofPlan p = .ok g) (ha : Acyclic p.Joins) : Acyclic (Leads g.outgoing) :=
  fun u hc => ha (p.idAt u) (TransGen.lift p.idAt (fun _ _ => joins_of_leads h) u u hc)

theorem isSeed_iff_isSource (h : ofPlan p = .ok g) (ha : Acyclic p.Joins) :
    p.IsSeed u ↔ p.IsSource u := by
  refine ⟨fun hs => hs.resolve_right fun ⟨_, hne, hn⟩ => ?_, .inl⟩
  have hp := valid_of_ofPlan h
  have hpos : 0 < p.ids.length := by simpa [ids, List.length_pos_iff] using hne
  obtain ⟨v, hv, hin⟩ := (acyclic_leads h ha).exists_source (fun _ _ => lt_of_leads h) hpos
  refine hn v ?_
  rw [← idxOf_idAt hp hv, isSource_idxOf_iff (idAt_mem hv)]
  intro a e
  exact hin _ (idxOf_idAt hp hv ▸ leads_of_joins h e)

theorem wayLengths_idxOf (h : ofPlan p = .ok g) (ha : Acyclic p.Joins) (hid : id ∈ p.ids) :
    g.wayLengths (p.ids.idxOf id) = p.wayLengths id := by
  have hp := valid_of_ofPlan h
  have hf : g.forward g.seeds = g.outgoing :=
    (forward_maximal h g.seeds).right.mpr (acyclic_leads h ha)
  ext n
  simp only [Graph.wayLengths, wayLengths, hf, Set.mem_ofPred_eq, mem_seeds_iff h,
    isSeed_iff_isSource h ha]
  constructor
  case mp =>
    intro ⟨s, hs, hw⟩
    have hm := idAt_mem hs.lt
    rw [← idxOf_idAt hp hs.lt, isSource_idxOf_iff hm] at hs
    exact ⟨p.idAt s, hm, hs, idAt_idxOf hid ▸ hw.map p.idAt fun _ _ => joins_of_leads h⟩
  case mpr =>
    intro ⟨s, hm, hs, hw⟩
    exact ⟨p.ids.idxOf s, (isSource_idxOf_iff hm).mpr hs,
      hw.map p.ids.idxOf fun _ _ => leads_of_joins h⟩

theorem isLongest_of_acyclic (h : ofPlan p = .ok g) (ha : Acyclic p.Joins)
    (hl : p.layers cap = .ok ls) : ls.map (·.1) = p.ids ∧
      ∀ id l, (id, l) ∈ ls → IsLongest (p.wayLengths id) l := by
  have ⟨hids, hlong⟩ := isLongest_of_layers h hl
  refine ⟨hids, fun id l hm => ?_⟩
  obtain ⟨u, hu⟩ := List.mem_iff_getElem?.mp hm
  have hid : p.ids[u]? = some id := by rw [← hids, List.getElem?_map, hu]; rfl
  obtain ⟨hlt, rfl⟩ := List.getElem?_eq_some_iff.mp hid
  have hlu := hlong u _ l hu
  rwa [← (valid_of_ofPlan h).distinct.idxOf_getElem u hlt,
    wayLengths_idxOf h ha (List.getElem_mem hlt)] at hlu

-- Every edge is kept and every seed is a source, so the layer of a node is the greatest length of a
-- walk of edges from a source.
theorem layers_of_acyclic (hp : p.Valid) (ha : Acyclic p.Joins) : ∃ ls, p.layers = .ok ls ∧
    ls.map (·.1) = p.ids ∧ ∀ id l, (id, l) ∈ ls → IsLongest (p.wayLengths id) l := by
  have ⟨g, h, _⟩ := ofPlan_of_valid hp
  have ⟨n, r, hs, hn⟩ := exists_settles_start h
  have hl := layers_none h hs hn
  exact ⟨_, hl, isLongest_of_acyclic h ha hl⟩

theorem Valid.perm (hp : p.Valid) (hn : q.nodes.Perm p.nodes) (he : q.edges.Perm p.edges) :
    q.Valid := by
  have hi : q.ids.Perm p.ids := hn.map _
  exact ⟨hi.nodup_iff.mpr hp.distinct, by simpa [he.mem_iff, hi.mem_iff] using hp.declared⟩

theorem joins_eq_of_perm (he : q.edges.Perm p.edges) : q.Joins = p.Joins := by
  funext a b
  simp [Joins, he.mem_iff]

theorem wayLengths_eq_of_perm (hn : q.nodes.Perm p.nodes) (he : q.edges.Perm p.edges) :
    q.wayLengths = p.wayLengths := by
  have hi : q.ids.Perm p.ids := hn.map _
  funext id
  simp [wayLengths, joins_eq_of_perm he, hi.mem_iff]

-- Without a cycle the layers are the same, but for their order.
theorem layers_perm (hp : p.Valid) (ha : Acyclic p.Joins) (hn : q.nodes.Perm p.nodes)
    (he : q.edges.Perm p.edges) : ∃ ls ms, p.layers = .ok ls ∧ q.layers = .ok ms ∧
      ms.Perm ls ∧ ls.map (·.1) = p.ids := by
  have hq := hp.perm hn he
  have hi : q.ids.Perm p.ids := hn.map _
  have ⟨ls, hl, hli, hll⟩ := layers_of_acyclic hp ha
  have ⟨ms, hm, hmi, hml⟩ := layers_of_acyclic hq (joins_eq_of_perm he ▸ ha)
  rw [wayLengths_eq_of_perm hn he] at hml
  refine ⟨ls, ms, hl, hm, ?_, hli⟩
  refine perm_of_map_perm (·.1) (hli ▸ hp.distinct) (hmi ▸ hli ▸ hi) fun ⟨id, m⟩ hm => ?_
  have hid : id ∈ ls.map (·.1) := by simpa [hli, ← hi.mem_iff, ← hmi] using ⟨m, hm⟩
  obtain ⟨⟨_, l⟩, hl, rfl⟩ := List.mem_map.mp hid
  exact (hll _ l hl).unique (hml _ m hm) ▸ hl

end Plan

end LayeredDiagram
