import LayeredDiagram.Proofs.Graph.Acyclic
import LayeredDiagram.Proofs.Record

namespace LayeredDiagram.Plan

open LayeredDiagram.Graph

-- Every edge leads to a greater number.
def Rises (p : Plan) (f : String → Nat) : Prop :=
  ∀ e ∈ p.edges, f e.source + 1 ≤ f e.target

variable {p q : Plan} {g : Graph} {f : String → Nat} {cap : Option Float}
variable {ls : List (String × Nat)} {e : Edge} {a b id : String} {l n : Nat}

theorem Rises.walk (h : p.Rises f) (hw : Walk p.Joins a b n) : f a + n ≤ f b := by
  induction hw with
  | nil         => exact le_refl _
  | snoc _ e hi =>
    obtain ⟨e, he, rfl, rfl⟩ := e
    have := h e he
    omega

-- Going back along edges from a declared node, one comes to a source.
theorem wayLengths_nonempty (hp : p.Valid) (ha : Acyclic p.Joins) (hid : id ∈ p.ids) :
    (p.wayLengths id).Nonempty := by
  have ⟨s, hs, hsource, n, hw⟩ := ha.exists_walk (s := p.ids.toFinset)
    (fun _ _ e => by simpa using hp.joins e) (List.mem_toFinset.mpr hid)
  exact ⟨n, s, List.mem_toFinset.mp hs, hsource, hw⟩

theorem exists_mem_layers (hids : ls.map (·.1) = p.ids) (hid : id ∈ p.ids) :
    ∃ l, (id, l) ∈ ls := by
  obtain ⟨⟨_, l⟩, hl, rfl⟩ := List.mem_map.mp (hids ▸ hid)
  exact ⟨l, hl⟩

theorem rises_layers (h : ofPlan p = .ok g) (ha : Acyclic p.Joins) (hl : p.layers cap = .ok ls)
    (he : e ∈ p.edges) : ∃ l m, (e.source, l) ∈ ls ∧ (e.target, m) ∈ ls ∧ l + 1 ≤ m := by
  have hp := valid_of_ofPlan h
  have ⟨hids, hlong⟩ := isLongest_of_acyclic h ha hl
  have ⟨hs, ht⟩ := hp.declared e he
  have ⟨l, hsl⟩ := exists_mem_layers hids hs
  have ⟨m, htm⟩ := exists_mem_layers hids ht
  have hne := wayLengths_nonempty hp ha hs
  have ⟨s, hsm, hsource, hw⟩ := ((hlong _ l hsl).greatest hne).left
  exact ⟨l, m, hsl, htm, (hlong _ m htm).le ⟨s, hsm, hsource, hw.snoc ⟨e, he, rfl, rfl⟩⟩⟩

-- A numbering that rises does so with every edge of the longest way to a node, so it does not
-- number that node lower.
theorem Rises.layer_le (hr : p.Rises f) (h : ofPlan p = .ok g) (ha : Acyclic p.Joins)
    (hl : p.layers cap = .ok ls) (hm : (id, l) ∈ ls) : l ≤ f id := by
  have ⟨hids, hlong⟩ := isLongest_of_acyclic h ha hl
  have hid : id ∈ p.ids := hids ▸ List.mem_map_of_mem hm
  have ⟨_, _, _, hw⟩ := ((hlong id l hm).greatest
    (wayLengths_nonempty (valid_of_ofPlan h) ha hid)).left
  exact (Nat.le_add_left _ _).trans (hr.walk hw)

-- The layers of a plan that has all edges of `p` are a numbering for `p` as well.
theorem exists_rises (h : ofPlan q = .ok g) (ha : Acyclic q.Joins) (hl : q.layers cap = .ok ls)
    (he : p.edges ⊆ q.edges) : ∃ f, p.Rises f ∧ ∀ id l, (id, l) ∈ ls → f id = l := by
  have hids := (isLongest_of_layers h hl).left
  have hn : (Record.keys ls).Nodup := by
    rw [Record.keys, hids]
    exact (valid_of_ofPlan h).distinct
  have hf (id : String) (l : Nat) (hm : (id, l) ∈ ls) : (Record.get? ls id).getD 0 = l := by
    rw [Record.get?_of_mem hn hm, Option.getD_some]
  refine ⟨fun id => (Record.get? ls id).getD 0, fun e hm => ?_, hf⟩
  obtain ⟨l, m, hsl, htm, hlm⟩ := rises_layers h ha hl (he hm)
  simpa only [hf _ l hsl, hf _ m htm] using hlm

-- The layers of a plan without a cycle are the least numbering that rises along its edges, so those
-- of a plan with more nodes and edges are nowhere lower.
theorem layers_isLeast (hp : p.Valid) (ha : Acyclic p.Joins) : (∃ ls, p.layers = .ok ls) ∧
    ∀ cap ls, p.layers cap = .ok ls → ls.map (·.1) = p.ids ∧
      (∀ e ∈ p.edges, ∃ l m, (e.source, l) ∈ ls ∧ (e.target, m) ∈ ls ∧ l + 1 ≤ m) ∧
      (∀ f, p.Rises f → ∀ id l, (id, l) ∈ ls → l ≤ f id) ∧
      ∀ q : Plan, q.Valid → Acyclic q.Joins → p.ids ⊆ q.ids → p.edges ⊆ q.edges →
        ∀ cap ms, q.layers cap = .ok ms → ∀ id l, (id, l) ∈ ls → ∃ m, (id, m) ∈ ms ∧ l ≤ m := by
  have ⟨g, h, _⟩ := ofPlan_of_valid hp
  have ⟨ls, hls, _⟩ := layers_of_acyclic hp ha
  refine ⟨⟨ls, hls⟩, fun cap ls hl => ?_⟩
  have ⟨hids, _⟩ := isLongest_of_layers h hl
  refine ⟨hids, fun e he => rises_layers h ha hl he, fun f hf id l hm => hf.layer_le h ha hl hm, ?_⟩
  intro q hq haq hi he cap ms hms id l hm
  have ⟨g', h', _⟩ := ofPlan_of_valid hq
  have ⟨f, hf, hfms⟩ := exists_rises h' haq hms he
  have hid : id ∈ q.ids := hi (hids ▸ List.mem_map_of_mem hm)
  have ⟨m, hmm⟩ := exists_mem_layers (isLongest_of_layers h' hms).left hid
  exact ⟨m, hmm, hfms id m hmm ▸ hf.layer_le h ha hl hm⟩

-- A plan, and the same plan with an edge between the ends of its two ways.
def parted : Plan :=
  ofEnds ["d", "a", "b", "c"] [("a", "d"), ("a", "b"), ("b", "c")]

def joined : Plan :=
  ofEnds ["d", "a", "b", "c"] [("a", "d"), ("c", "d"), ("a", "b"), ("b", "c")]

theorem acyclic_joined : Acyclic joined.Joins := by
  refine Acyclic.of_rank ["a", "b", "c", "d"].idxOf ?_
  rintro _ _ ⟨e, he, rfl, rfl⟩
  revert e
  decide

theorem acyclic_parted : Acyclic parted.Joins := by
  have hs : parted.edges ⊆ joined.edges := by decide
  exact acyclic_joined.mono fun _ _ ⟨e, he, hends⟩ => ⟨e, hs he, hends⟩

theorem layers_isLeast_joined : parted.Valid ∧ Acyclic parted.Joins ∧ joined.Valid ∧
    Acyclic joined.Joins ∧ parted.layers = .ok [("d", 1), ("a", 0), ("b", 1), ("c", 2)] ∧
    ∃ ms, joined.layers = .ok ms ∧
      ∀ f, joined.Rises f → ∃ m, ("d", m) ∈ ms ∧ 1 ≤ m ∧ m ≤ f "d" := by
  have hv : parted.Valid := by decide
  have hv' : joined.Valid := by decide
  have hl : parted.layers = .ok [("d", 1), ("a", 0), ("b", 1), ("c", 2)] := by cbv
  refine ⟨hv, acyclic_parted, hv', acyclic_joined, hl, ?_⟩
  obtain ⟨⟨ms, hms⟩, hleast⟩ := layers_isLeast hv' acyclic_joined
  obtain ⟨_, _, _, hmore⟩ := (layers_isLeast hv acyclic_parted).right none _ hl
  obtain ⟨m, hm, hle⟩ := hmore joined hv' acyclic_joined (by decide) (by decide) none ms hms "d" 1
    (by decide)
  exact ⟨ms, hms, fun f hf => ⟨m, hm, hle, (hleast none ms hms).right.right.left f hf "d" m hm⟩⟩

end LayeredDiagram.Plan
