import LayeredDiagram.Graph.Basic
import Mathlib.Data.List.Nodup

namespace LayeredDiagram

namespace Plan

def ids (p : Plan) : List String :=
  p.nodes.map (·.id)

-- A plan of bare nodes and edges.
def ofEnds (ids : List String) (ends : List (String × String)) : Plan where
  nodes := ids.map fun id => { id, label := id, kind := defaultKind }
  edges := ends.map fun (source, target) => { source, target }

-- Two ways to `d`, a cycle on the longer one, a loop, and an edge that occurs twice.
def twoWays : Plan :=
  ofEnds ["a", "b", "c", "d"]
    [("a", "d"), ("a", "b"), ("b", "c"), ("c", "d"), ("c", "b"), ("d", "d"), ("a", "b")]

structure Valid (p : Plan) : Prop where
  distinct : p.ids.Nodup
  declared : ∀ e ∈ p.edges, e.source ∈ p.ids ∧ e.target ∈ p.ids

instance {p : Plan} : Decidable p.Valid :=
  decidable_of_iff (p.ids.Nodup ∧ ∀ e ∈ p.edges, e.source ∈ p.ids ∧ e.target ∈ p.ids)
    ⟨fun ⟨distinct, declared⟩ => { distinct, declared }, fun h => ⟨h.distinct, h.declared⟩⟩

-- No edge ends at the node in place `u`.
def IsSource (p : Plan) (u : Nat) : Prop :=
  ∃ id, p.ids[u]? = some id ∧ ∀ e ∈ p.edges, e.target ≠ id

-- Where no node is a source, the first one stands in.
def IsSeed (p : Plan) (u : Nat) : Prop :=
  p.IsSource u ∨ (u = 0 ∧ p.nodes ≠ [] ∧ ∀ v, ¬p.IsSource v)

end Plan

namespace Graph

variable {g : Graph} {lists : Array (Array Nat)} {ids : List String} {edges : List Edge}

-- What a table of lists holds for a node; there is nothing outside the table.
def listAt (lists : Array (Array Nat)) (u : Nat) : List Nat :=
  (lists[u]?.getD #[]).toList

def Leads (lists : Array (Array Nat)) (u v : Nat) : Prop :=
  v ∈ listAt lists u

theorem targets_eq_listAt : g.targets = listAt g.outgoing :=
  rfl

theorem listAt_of_size_le {u : Nat} (h : lists.size ≤ u) : listAt lists u = [] := by
  simp [listAt, h]

theorem lt_size_of_leads {u v : Nat} (e : Leads lists u v) : u < lists.size := by
  by_contra hu
  simp [Leads, listAt_of_size_le (Nat.le_of_not_lt hu)] at e

theorem listAt_replicate (n u : Nat) : listAt (Array.replicate n #[]) u = [] := by
  simp only [listAt, Array.getElem?_replicate]
  split <;> rfl

theorem listAt_push_empty (u : Nat) : listAt (lists.push #[]) u = listAt lists u := by
  simp only [listAt, Array.getElem?_push]
  split
  case isTrue h => simp [h]
  case isFalse  => rfl

theorem listAt_modify_push {u v w : Nat} (h : u < lists.size) :
    listAt (lists.modify u (·.push v)) w =
      if w = u then listAt lists u ++ [v] else listAt lists w := by
  simp only [listAt, Array.getElem?_modify, eq_comm (a := u)]
  split
  case isTrue hw => simp [hw, h]
  case isFalse   => rfl

theorem ext_listAt {lists' : Array (Array Nat)} (hs : lists.size = lists'.size)
    (h : ∀ u, listAt lists u = listAt lists' u) : lists = lists' := by
  apply Array.ext hs
  intro u hu hu'
  simpa [listAt, hu, hu'] using h u

-- The graph on `ids` with the edges `edges`.
structure Indexes (g : Graph) (ids : List String) (edges : List Edge) : Prop where
  ids_eq        : g.ids.toList = ids
  outgoing_size : g.outgoing.size = ids.length
  incoming_size : g.incoming.size = ids.length
  index_eq      : ∀ id, g.index[id]? = if id ∈ ids then some (ids.idxOf id) else none
  targets_eq    : ∀ id ∈ ids, g.targets (ids.idxOf id) =
    (edges.filter (·.source = id)).map fun e => ids.idxOf e.target
  incoming_eq   : ∀ id ∈ ids, g.incoming[ids.idxOf id]? = some (edges.countP (·.target = id))

namespace Indexes

theorem size_eq (h : g.Indexes ids edges) : g.size = ids.length := by
  simp [size, ← h.ids_eq]

theorem empty : Graph.Indexes {} [] [] where
  ids_eq        := rfl
  outgoing_size := rfl
  incoming_size := rfl
  index_eq      := by simp
  targets_eq    := by simp
  incoming_eq   := by simp

theorem declare_eq_error (h : g.Indexes ids edges) {n : Node} (hn : n.id ∈ ids) :
    g.declare n = .error (.duplicateNode n.id) := by
  have hi := h.index_eq n.id
  simp [hn] at hi
  simp [declare, Std.HashMap.contains_eq_isSome_getElem?, hi]

theorem declare (h : g.Indexes ids []) {n : Node} (hn : n.id ∉ ids) :
    ∃ g', g.declare n = .ok g' ∧ g'.Indexes (ids ++ [n.id]) [] := by
  have hi := h.index_eq n.id
  simp only [hn, if_false] at hi
  simp only [Graph.declare, Std.HashMap.contains_eq_isSome_getElem?, hi, Option.isSome_none,
    Bool.false_eq_true, if_false]
  refine ⟨_, rfl, ?_, ?_, ?_, fun id => ?_, fun id hid => ?_, fun id hid => ?_⟩
  case refine_1 => simp [h.ids_eq]
  case refine_2 => simp [h.outgoing_size]
  case refine_3 => simp [h.incoming_size]
  case refine_4 =>
    by_cases hid : id = n.id
    case pos => simp [hid, h.size_eq, hn, List.idxOf_append]
    case neg =>
      by_cases hm : id ∈ ids <;>
        simp [Std.HashMap.getElem?_insert, hid, Ne.symm hid, h.index_eq, hm, List.idxOf_append]
  case refine_5 =>
    obtain hm | hm := List.mem_append.mp hid
    case inl => simpa [targets_eq_listAt, listAt_push_empty, List.idxOf_append, hm] using
      h.targets_eq id hm
    case inr =>
      obtain rfl := List.mem_singleton.mp hm
      simp [targets_eq_listAt, listAt_push_empty, List.idxOf_append, hn,
        listAt_of_size_le, h.outgoing_size]
  case refine_6 =>
    obtain hm | hm := List.mem_append.mp hid
    case inl =>
      have hlt := List.idxOf_lt_length_iff.mpr hm
      rw [← h.incoming_size] at hlt
      simpa [List.idxOf_append, hm, Array.getElem?_push, Nat.ne_of_lt hlt] using h.incoming_eq id hm
    case inr =>
      obtain rfl := List.mem_singleton.mp hm
      simp [List.idxOf_append, hn, ← h.incoming_size]

theorem connect (h : g.Indexes ids edges) {e : Edge} (hs : e.source ∈ ids) (ht : e.target ∈ ids) :
    ∃ g', g.connect e = .ok g' ∧ g'.Indexes ids (edges ++ [e]) := by
  have hu := List.idxOf_lt_length_iff.mpr hs
  have hv := List.idxOf_lt_length_iff.mpr ht
  simp only [Graph.connect, h.index_eq, hs, ht, if_true]
  refine ⟨_, rfl, h.ids_eq, ?_, ?_, h.index_eq, fun id hid => ?_, fun id hid => ?_⟩
  case refine_1 => simp [h.outgoing_size]
  case refine_2 => simp [h.incoming_size]
  case refine_3 =>
    rw [targets_eq_listAt, listAt_modify_push (by simpa [h.outgoing_size]),
      ← targets_eq_listAt, h.targets_eq _ hs, h.targets_eq _ hid]
    by_cases he : e.source = id
    case pos => simp [he]
    case neg => simp [he, List.idxOf_inj hid, Ne.symm he]
  case refine_4 =>
    simp only [Array.getElem?_modify, h.incoming_eq id hid, List.countP_append]
    by_cases he : e.target = id
    case pos => simp [he]
    case neg => simp [he, List.idxOf_inj ht]

theorem connect_eq_error_of_source (h : g.Indexes ids edges) {e : Edge} (hs : e.source ∉ ids) :
    g.connect e = .error (.unknownNode e.source e) := by
  simp [Graph.connect, h.index_eq, hs]

theorem connect_eq_error_of_target (h : g.Indexes ids edges) {e : Edge} (hs : e.source ∈ ids)
    (ht : e.target ∉ ids) : g.connect e = .error (.unknownNode e.target e) := by
  simp [Graph.connect, h.index_eq, hs, ht]

theorem foldlM_declare {nodes : List Node} (h : g.Indexes ids [])
    (hn : (ids ++ nodes.map (·.id)).Nodup) :
    ∃ g', nodes.foldlM Graph.declare g = .ok g' ∧ g'.Indexes (ids ++ nodes.map (·.id)) [] := by
  induction nodes generalizing g ids with
  | nil => exact ⟨g, rfl, by simpa using h⟩
  | cons n nodes hi =>
    rw [List.map_cons, List.append_cons] at hn ⊢
    have hm : n.id ∉ ids := fun hm =>
      List.disjoint_of_nodup_append hn.of_append_left hm (List.mem_singleton_self _)
    have ⟨g₁, h₁, hg₁⟩ := h.declare hm
    have ⟨g₂, h₂, hg₂⟩ := hi hg₁ hn
    exact ⟨g₂, by rw [List.foldlM_cons, h₁]; exact h₂, hg₂⟩

theorem foldlM_connect {es : List Edge} (h : g.Indexes ids edges)
    (he : ∀ e ∈ es, e.source ∈ ids ∧ e.target ∈ ids) :
    ∃ g', es.foldlM Graph.connect g = .ok g' ∧ g'.Indexes ids (edges ++ es) := by
  induction es generalizing g edges with
  | nil => exact ⟨g, rfl, by simpa using h⟩
  | cons e es hi =>
    have ⟨hs, ht⟩ := he e List.mem_cons_self
    have ⟨g₁, h₁, hg₁⟩ := h.connect hs ht
    have ⟨g₂, h₂, hg₂⟩ := hi hg₁ fun e hm => he e (List.mem_cons_of_mem _ hm)
    exact ⟨g₂, by rw [List.foldlM_cons, h₁]; exact h₂, by simpa using hg₂⟩

theorem nodup_of_foldlM_declare {nodes : List Node} {g' : Graph} (h : g.Indexes ids [])
    (hd : ids.Nodup) (ho : nodes.foldlM Graph.declare g = .ok g') :
    (ids ++ nodes.map (·.id)).Nodup := by
  induction nodes generalizing g ids with
  | nil => simpa using hd
  | cons n nodes hi =>
    rw [List.foldlM_cons] at ho
    rw [List.map_cons, List.append_cons]
    by_cases hn : n.id ∈ ids
    case pos =>
      rw [h.declare_eq_error hn] at ho
      nomatch ho
    case neg =>
      have ⟨g₁, h₁, hg₁⟩ := h.declare hn
      rw [h₁] at ho
      exact hi hg₁ (hd.append (List.nodup_singleton _) (by simpa using hn)) ho

theorem declared_of_foldlM_connect {es : List Edge} {g' : Graph} (h : g.Indexes ids edges)
    (ho : es.foldlM Graph.connect g = .ok g') : ∀ e ∈ es, e.source ∈ ids ∧ e.target ∈ ids := by
  induction es generalizing g edges with
  | nil => nofun
  | cons e es hi =>
    rw [List.foldlM_cons] at ho
    by_cases hs : e.source ∈ ids
    case neg =>
      rw [h.connect_eq_error_of_source hs] at ho
      nomatch ho
    case pos =>
      by_cases ht : e.target ∈ ids
      case neg =>
        rw [h.connect_eq_error_of_target hs ht] at ho
        nomatch ho
      case pos =>
        have ⟨g₁, h₁, hg₁⟩ := h.connect hs ht
        rw [h₁] at ho
        exact List.forall_mem_cons.mpr ⟨⟨hs, ht⟩, hi hg₁ ho⟩

theorem targets_lt (h : g.Indexes ids edges) (hn : ids.Nodup)
    (hd : ∀ e ∈ edges, e.target ∈ ids) {u v : Nat} (hv : v ∈ g.targets u) : v < g.size := by
  by_cases hu : u < ids.length
  case neg =>
    simp [targets_eq_listAt, listAt_of_size_le, h.outgoing_size, Nat.le_of_not_lt hu] at hv
  case pos =>
    have ht := h.targets_eq ids[u] (List.getElem_mem hu)
    rw [hn.idxOf_getElem] at ht
    rw [ht, List.mem_map] at hv
    obtain ⟨e, he, rfl⟩ := hv
    rw [h.size_eq, List.idxOf_lt_length_iff]
    exact hd e (List.mem_of_mem_filter he)

end Indexes

variable {p : Plan}

-- A plan has a graph if its identifiers are distinct and its edges join declared nodes, and only
-- then.
theorem ofPlan_of_valid (hp : p.Valid) :
    ∃ g, ofPlan p = .ok g ∧ g.Indexes p.ids p.edges := by
  have ⟨g₁, h₁, hg₁⟩ := Indexes.empty.foldlM_declare hp.distinct
  have ⟨g₂, h₂, hg₂⟩ := hg₁.foldlM_connect hp.declared
  refine ⟨g₂, ?_, hg₂⟩
  unfold ofPlan
  rw [h₁]
  exact h₂

theorem valid_of_ofPlan (h : ofPlan p = .ok g) : p.Valid := by
  unfold ofPlan at h
  cases h₁ : p.nodes.foldlM declare {}
  case error =>
    rw [h₁] at h
    nomatch h
  case ok g₁ =>
    rw [h₁] at h
    have hd := Indexes.empty.nodup_of_foldlM_declare List.nodup_nil h₁
    have ⟨g₁', h₁', hg₁⟩ := Indexes.empty.foldlM_declare hd
    obtain rfl : g₁' = g₁ := by simpa [h₁] using h₁'.symm
    exact ⟨hd, hg₁.declared_of_foldlM_connect h⟩

theorem indexes_of_ofPlan (h : ofPlan p = .ok g) : g.Indexes p.ids p.edges := by
  have ⟨g', h', hg⟩ := ofPlan_of_valid (valid_of_ofPlan h)
  obtain rfl : g' = g := by simpa [h] using h'.symm
  exact hg

theorem targets_lt_of_ofPlan (h : ofPlan p = .ok g) {u v : Nat} (hv : v ∈ g.targets u) :
    v < g.size :=
  have hp := valid_of_ofPlan h
  (indexes_of_ofPlan h).targets_lt hp.distinct (fun e he => (hp.declared e he).right) hv

theorem size_of_ofPlan (h : ofPlan p = .ok g) : g.size = p.nodes.length := by
  simpa [Plan.ids] using (indexes_of_ofPlan h).size_eq

theorem isSource_iff (h : ofPlan p = .ok g) {u : Nat} :
    p.IsSource u ↔ u < g.size ∧ g.incoming[u]?.getD 0 = 0 := by
  have hg := indexes_of_ofPlan h
  have hi (hu : u < p.ids.length) := hg.incoming_eq p.ids[u] (List.getElem_mem hu)
  simp only [(valid_of_ofPlan h).distinct.idxOf_getElem] at hi
  rw [hg.size_eq]
  constructor
  case mp =>
    intro ⟨id, hid, he⟩
    obtain ⟨hu, rfl⟩ := List.getElem?_eq_some_iff.mp hid
    simpa [hi hu, hu, List.countP_eq_zero] using he
  case mpr =>
    intro ⟨hu, h₀⟩
    exact ⟨p.ids[u], List.getElem?_eq_getElem hu, by
      simpa [hi hu, List.countP_eq_zero] using h₀⟩

theorem seeds_sublist_range : g.seeds.Sublist (List.range g.size) := by
  simp only [seeds]
  split
  case isTrue  => exact List.take_sublist ..
  case isFalse => exact List.filter_sublist ..

theorem seeds_nodup : g.seeds.Nodup :=
  List.nodup_range.sublist seeds_sublist_range

theorem seeds_pairwise_lt : g.seeds.Pairwise (· < ·) :=
  List.pairwise_lt_range.sublist seeds_sublist_range

theorem seeds_lt {s : Nat} (hs : s ∈ g.seeds) : s < g.size :=
  List.mem_range.mp (seeds_sublist_range.mem hs)

theorem mem_seeds_iff (h : ofPlan p = .ok g) {u : Nat} : u ∈ g.seeds ↔ p.IsSeed u := by
  have hm (v : Nat) : v ∈ (List.range g.size).filter (fun u => g.incoming[u]?.getD 0 == 0) ↔
      p.IsSource v := by
    simp [isSource_iff h]
  simp only [seeds, Plan.IsSeed]
  split
  case isTrue he =>
    have hn (v : Nat) : ¬p.IsSource v := by simp [← hm, List.isEmpty_iff.mp he]
    have hz : p.nodes ≠ [] ↔ 0 < g.size := by simp [size_of_ofPlan h, List.length_pos_iff]
    simp only [hn, not_false_eq_true, implies_true, and_true, false_or, hz]
    cases g.size <;> simp [List.range_succ_eq_map]
  case isFalse he =>
    have ⟨v, hv⟩ := List.exists_mem_of_ne_nil _ (mt List.isEmpty_iff.mpr he)
    simp only [hm]
    exact ⟨.inl, fun h => h.resolve_right fun ⟨_, _, hn⟩ => hn v ((hm v).mp hv)⟩

end Graph

end LayeredDiagram
