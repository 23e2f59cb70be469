import LayeredDiagram.Proofs.Graph.Acyclic
import LayeredDiagram.Proofs.Graph.Part

namespace LayeredDiagram.Plan

open LayeredDiagram.Graph

-- `r` holds the nodes and the edges of `p` and of `q`, which share no identifier.
structure Combines (p q r : Plan) : Prop where
  left     : p.Valid
  right    : q.Valid
  disjoint : p.ids.Disjoint q.ids
  nodes    : Interleaves p.nodes q.nodes r.nodes
  edges    : Interleaves p.edges q.edges r.edges

variable {p q r : Plan} {g g' : Graph} {f : ℕ ↪o ℕ} {u l : ℕ} {id : String} {e : Edge}
  {ls ms ns : List (String × ℕ)}

namespace Combines

theorem symm (h : Combines p q r) : Combines q p r :=
  ⟨h.right, h.left, h.disjoint.symm, h.nodes.symm, h.edges.symm⟩

theorem ids (h : Combines p q r) : Interleaves p.ids q.ids r.ids :=
  h.nodes.map _

theorem valid (h : Combines p q r) : r.Valid where
  distinct := h.ids.perm.nodup_iff.mpr (h.left.distinct.append h.right.distinct h.disjoint)
  declared e he := by
    simp only [h.ids.mem_iff]
    obtain he | he := h.edges.mem_iff.mp he
    case inl => exact (h.left.declared e he).imp .inl .inl
    case inr => exact (h.right.declared e he).imp .inr .inr

-- An edge with an end in `p` belongs to `p`.
theorem not_mem_right (h : Combines p q r) (hid : e.source ∈ p.ids ∨ e.target ∈ p.ids) :
    e ∉ q.edges := by
  intro he
  have ⟨hs, ht⟩ := h.right.declared e he
  exact hid.elim (h.disjoint · hs) (h.disjoint · ht)

theorem mem_left (h : Combines p q r) (he : e ∈ r.edges)
    (hid : e.source ∈ p.ids ∨ e.target ∈ p.ids) : e ∈ p.edges :=
  (h.edges.mem_iff.mp he).resolve_right (h.not_mem_right hid)

-- Where the nodes of `p` stand in `r`.
theorem exists_places (h : Combines p q r) : ∃ f : ℕ ↪o ℕ, ∀ u, p.ids[u]? = r.ids[f u]? :=
  List.sublist_iff_exists_orderEmbedding_getElem?_eq.mp h.ids.sublist

section Places

variable (h : Combines p q r) (hf : ∀ u, p.ids[u]? = r.ids[f u]?)

include h hf

omit h in
theorem lt_iff : f u < r.ids.length ↔ u < p.ids.length := by
  rw [← not_iff_not, Nat.not_lt, Nat.not_lt, ← List.getElem?_eq_none_iff,
    ← List.getElem?_eq_none_iff, hf]

theorem idxOf_eq (hid : id ∈ p.ids) : r.ids.idxOf id = f (p.ids.idxOf id) := by
  have hlt := List.idxOf_lt_length_iff.mpr hid
  have hi := hf (p.ids.idxOf id)
  rw [List.getElem?_eq_getElem hlt, List.getElem_idxOf] at hi
  obtain ⟨hlt, he⟩ := List.getElem?_eq_some_iff.mp hi.symm
  calc r.ids.idxOf id
    _ = r.ids.idxOf r.ids[f (p.ids.idxOf id)] := by rw [he]
    _ = f (p.ids.idxOf id)                    := h.valid.distinct.idxOf_getElem ..

-- Each of the two is a part of the whole that no edge enters or leaves.
theorem part (hg' : ofPlan p = .ok g') (hg : ofPlan r = .ok g) : Part f g' g where
  lt_iff u := by
    rw [(indexes_of_ofPlan hg).size_eq, (indexes_of_ofPlan hg').size_eq, lt_iff hf]
  targets_eq u := by
    by_cases hu : u < p.ids.length
    case neg =>
      rw [targets_eq_nil_of_ofPlan hg (mt (lt_iff hf).mp hu), targets_eq_nil_of_ofPlan hg' hu,
        List.map_nil]
    case pos =>
      have hid := idAt_mem hu
      have ht := (indexes_of_ofPlan hg).targets_eq _ (h.ids.mem_iff.mpr (.inl hid))
      have hn (e : Edge) (he : e ∈ q.edges) : decide (e.source = p.idAt u) = false :=
        decide_eq_false fun hs => h.not_mem_right (.inl (hs ▸ hid)) he
      rw [h.idxOf_eq hf hid, idxOf_idAt h.left hu, h.edges.filter_eq hn] at ht
      rw [ht, targets_eq_of_ofPlan hg' hu, List.map_map]
      refine List.map_congr_left fun e he => ?_
      exact h.idxOf_eq hf (h.left.declared e (List.mem_of_mem_filter he)).right
  closed u v e := by
    have ⟨hu, hv⟩ := lt_of_leads hg e
    have ⟨e, he, hs, ht⟩ := joins_of_leads hg e
    have hid : r.idAt (f v) ∈ p.ids := by
      rw [idAt, ← hf]
      exact idAt_mem ((lt_iff hf).mp hv)
    have hs' := (h.left.declared e (h.mem_left he (.inr (ht ▸ hid)))).left
    exact ⟨p.ids.idxOf e.source, by rw [← h.idxOf_eq hf hs', hs, idxOf_idAt h.valid hu]⟩

-- A source of `p` is a source of `r`, and nothing else of `p` is.
theorem isSource_iff : r.IsSource (f u) ↔ p.IsSource u := by
  simp only [IsSource, ← hf]
  refine exists_congr fun id => and_congr_right fun hid => ?_
  have hid := List.mem_of_getElem? hid
  refine ⟨fun hn e he => hn e (h.edges.mem_iff.mpr (.inl he)), fun hn e he ht => ?_⟩
  exact hn e (h.mem_left he (.inr (ht ▸ hid))) ht

theorem wayLengths_eq (hg' : ofPlan p = .ok g') (hg : ofPlan r = .ok g)
    (hs : ∃ u, p.IsSource u) : g.wayLengths (f u) = g'.wayLengths u := by
  refine (h.part hf hg' hg).wayLengths_eq (outgoing_size_of_ofPlan hg)
    (outgoing_size_of_ofPlan hg') fun v => ?_
  have ⟨u, hu⟩ := hs
  have hn : ¬∀ v, ¬p.IsSource v := fun hn => hn u hu
  have hn' : ¬∀ v, ¬r.IsSource v := fun hn => hn (f u) ((h.isSource_iff hf).mpr hu)
  simp [mem_seeds_iff hg, mem_seeds_iff hg', IsSeed, hn, hn', h.isSource_iff hf]

end Places

-- A node of `p` has the same layer in `r`.
theorem mem_layers (h : Combines p q r) (hs : ∃ u, p.IsSource u) (hl : p.layers = .ok ls)
    (hn : r.layers = .ok ns) (hm : (id, l) ∈ ls) : (id, l) ∈ ns := by
  have ⟨g', hg', _⟩ := ofPlan_of_valid h.left
  have ⟨g, hg, _⟩ := ofPlan_of_valid h.valid
  have ⟨f, hf⟩ := h.exists_places
  have ⟨hids, hlong⟩ := isLongest_of_layers hg' hl
  have ⟨hids', hlong'⟩ := isLongest_of_layers hg hn
  obtain ⟨u, hu⟩ := List.mem_iff_getElem?.mp hm
  have hid : p.ids[u]? = some id := by rw [← hids, List.getElem?_map, hu]; rfl
  rw [hf, ← hids', List.getElem?_map, Option.map_eq_some_iff] at hid
  obtain ⟨⟨_, n⟩, hu', rfl⟩ := hid
  have hul := hlong' _ _ _ hu'
  rw [h.wayLengths_eq hf hg' hg hs] at hul
  obtain rfl := (hlong u _ l hu).unique hul
  exact List.mem_of_getElem? hu'

theorem mem_layers_iff (h : Combines p q r) (hs : ∃ u, p.IsSource u) (hl : p.layers = .ok ls)
    (hn : r.layers = .ok ns) (hid : id ∈ p.ids) : (id, l) ∈ ns ↔ (id, l) ∈ ls := by
  refine ⟨fun hm => ?_, h.mem_layers hs hl hn⟩
  have ⟨g', hg', _⟩ := ofPlan_of_valid h.left
  have ⟨g, hg, _⟩ := ofPlan_of_valid h.valid
  rw [← (isLongest_of_layers hg' hl).left, List.mem_map] at hid
  obtain ⟨⟨_, l'⟩, hm', rfl⟩ := hid
  have hd := (isLongest_of_layers hg hn).left ▸ h.valid.distinct
  exact List.inj_on_of_nodup_map hd hm (h.mem_layers hs hl hn hm') rfl ▸ hm'

end Combines

-- Each node of the combined plan has the layer of its own plan.
theorem layers_combined (h : Combines p q r) (hp : ∃ u, p.IsSource u) (hq : ∃ u, q.IsSource u) :
    ∃ ls ms ns, p.layers = .ok ls ∧ q.layers = .ok ms ∧ r.layers = .ok ns ∧
      ls.map (·.1) = p.ids ∧ ms.map (·.1) = q.ids ∧ ns.map (·.1) = r.ids ∧
      ∀ id l, (id, l) ∈ ns ↔ (id, l) ∈ ls ∨ (id, l) ∈ ms := by
  have ⟨ls, hl, hli⟩ := exists_layers h.left
  have ⟨ms, hm, hmi⟩ := exists_layers h.right
  have ⟨ns, hn, hni⟩ := exists_layers h.valid
  refine ⟨ls, ms, ns, hl, hm, hn, hli, hmi, hni, fun id l => ⟨fun hid => ?_, ?_⟩⟩
  case refine_1 =>
    have hr : id ∈ r.ids := hni ▸ List.mem_map_of_mem (f := (·.1)) hid
    obtain hr | hr := h.ids.mem_iff.mp hr
    case inl => exact .inl ((h.mem_layers_iff hp hl hn hr).mp hid)
    case inr => exact .inr ((h.symm.mem_layers_iff hq hm hn hr).mp hid)
  case refine_2 =>
    rintro (hid | hid)
    case inl => exact h.mem_layers hp hl hn hid
    case inr => exact h.symm.mem_layers hq hm hn hid

-- Two plans with cycles, run together. The first node of the second one comes first.
def woven : Plan :=
  ofEnds ["x", "a", "b", "y", "c", "d", "root"]
    [("a", "d"), ("x", "y"), ("a", "b"), ("b", "c"), ("y", "x"), ("c", "d"), ("c", "b"), ("d", "d"),
      ("a", "b")]

theorem combines_woven : Combines twoWays besideCycle woven where
  left     := by decide
  right    := by decide
  disjoint := List.disjoint_left.mpr (by decide)
  nodes    := .right (.left (.left (.right (.left (.left (.right .nil))))))
  edges    := .left (.right (.left (.left (.right (.left (.left (.left (.left .nil))))))))

theorem layers_combined_woven : Combines twoWays besideCycle woven ∧
    (∃ u, twoWays.IsSource u) ∧ (∃ u, besideCycle.IsSource u) ∧
    ∃ ns, woven.layers = .ok ns ∧ ("d", 3) ∈ ns ∧ ("y", 0) ∈ ns := by
  have hp : ∃ u, twoWays.IsSource u := ⟨0, "a", rfl, by decide⟩
  have hq : ∃ u, besideCycle.IsSource u := ⟨2, "root", rfl, by decide⟩
  have ⟨ls, ms, ns, hl, hm, hn, _, _, _, hiff⟩ := layers_combined combines_woven hp hq
  obtain rfl := Except.ok.inj (twoWays_layers.symm.trans hl)
  obtain rfl := Except.ok.inj (besideCycle_layers.symm.trans hm)
  exact ⟨combines_woven, hp, hq, ns, hn, (hiff ..).mpr (.inl (by decide)),
    (hiff ..).mpr (.inr (by decide))⟩

-- A cycle alone has its first node for a seed, and none beside a node that is a source.
example : (ofEnds ["x", "y"] [("x", "y"), ("y", "x")]).layers = .ok [("x", 0), ("y", 1)] := by
  cbv

end LayeredDiagram.Plan
