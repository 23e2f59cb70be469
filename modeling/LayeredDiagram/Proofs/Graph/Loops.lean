import LayeredDiagram.Proofs.Graph.Acyclic

namespace LayeredDiagram

namespace Graph

-- `g'` is `g` without the edges from a node to itself.
def DropsLoops (g g' : Graph) : Prop :=
  ∀ u, g'.targets u = (g.targets u).filter (· ≠ u)

def Frame.withoutLoops (f : Frame) : Frame :=
  { f with rest := f.rest.filter (· ≠ f.node) }

namespace Search

-- The search as it stands where there are no such edges.
def withoutLoops (s : Search) : Search :=
  { s with stack := s.stack.map Frame.withoutLoops }

variable {g g' : Graph} {s s' : Search} {u v fuel fuel' : Nat} {rest : List Nat}
  {below : List Frame}

theorem stack_withoutLoops (hs : s.stack = ⟨u, v :: rest⟩ :: below) (hv : v ≠ u) :
    s.withoutLoops.stack = ⟨u, v :: rest.filter (· ≠ u)⟩ :: below.map Frame.withoutLoops := by
  simp [withoutLoops, hs, Frame.withoutLoops, hv]

-- Reading an edge to the node itself is the one step that has no counterpart.
theorem Moves.withoutLoops (hm : Moves g s s') (hg : DropsLoops g g') (h : s.Stacked g) :
    s'.withoutLoops = s.withoutLoops ∨ Moves g' s.withoutLoops s'.withoutLoops := by
  cases hm with
  | leave hs =>
    exact .inr (.leave (by simp [Search.withoutLoops, hs, Frame.withoutLoops, Search.leave]))
  | @drop u v rest below hs hv =>
    by_cases hvu : v = u
    case pos =>
      left
      simp [Search.withoutLoops, advance, hs, Frame.withoutLoops, hvu]
    case neg => exact .inr (.drop (stack_withoutLoops hs hvu) hv)
  | @pass u v rest below hs hv =>
    have hvu : v ≠ u := fun he => by simp [he, h.grey_of_stack hs] at hv
    exact .inr (.pass (stack_withoutLoops hs hvu) hv)
  | @enter u v rest below hs hv =>
    have hvu : v ≠ u := fun he => by simp [he, h.grey_of_stack hs] at hv
    have he : (((s.advance u rest below).keep u v).enter g v).withoutLoops =
        ((s.withoutLoops.advance u (rest.filter (· ≠ u)) (below.map Frame.withoutLoops)).keep u
          v).enter g' v := by
      simp [Search.withoutLoops, advance, Search.keep, Search.enter, Frame.withoutLoops, hg v]
    exact .inr (he ▸ .enter (stack_withoutLoops hs hvu) hv)

theorem withoutLoops_of_stack (hs : s.stack = []) : s.withoutLoops = s := by
  cases s
  simp_all [Search.withoutLoops]

-- Where both searches come to their end, they come to the same one.
theorem drain_withoutLoops (hg : DropsLoops g g') (h : s.Stacked g)
    (hd : (drain g fuel s).stack = []) (hd' : (drain g' fuel' s.withoutLoops).stack = []) :
    drain g' fuel' s.withoutLoops = drain g fuel s := by
  have hR : (drain g fuel s).Stacked g ∧
      drain g' fuel' s.withoutLoops = (drain g fuel s).withoutLoops := by
    refine drain_simulation (R := fun s t => s.Stacked g ∧ t = s.withoutLoops) ?_ ?_ ⟨h, rfl⟩ hd hd'
    case refine_1 =>
      rintro s _ ⟨_, rfl⟩ hs
      simp [Search.withoutLoops, hs]
    case refine_2 =>
      rintro s s' _ ⟨h, rfl⟩ hm
      obtain he | hm' := hm.withoutLoops hg h
      case inl => exact .inl ⟨h.moves hm, he.symm⟩
      case inr => exact .inr ⟨_, hm', h.moves hm, rfl⟩
  rw [hR.right, withoutLoops_of_stack hd]

theorem visit_withoutLoops (hg : DropsLoops g g') (ho : g.outgoing.size = g.size)
    (ho' : g'.outgoing.size = g'.size) (h : s.Idle g) (h' : s.Idle g') (root : Nat) :
    visit g' (g'.size + g'.edgeCount) s root = visit g (g.size + g.edgeCount) s root := by
  by_cases hw : s.colour root = .white
  case neg => rw [visit, visit, if_neg hw, if_neg hw]
  case pos =>
    have hd := (h.visit ho root).stack
    have hd' := (h'.visit ho' root).stack
    have he : (s.enter g root).withoutLoops = s.enter g' root := by
      simp [Search.withoutLoops, Search.enter, Frame.withoutLoops, hg root, h.stack]
    rw [visit, if_pos hw] at hd hd' ⊢
    rw [visit, if_pos hw, ← he]
    exact drain_withoutLoops hg (h.sound.enter h.stack hw).stacked hd (he ▸ hd')

theorem foldl_visit_withoutLoops (hg : DropsLoops g g') (ho : g.outgoing.size = g.size)
    (ho' : g'.outgoing.size = g'.size) (h : s.Idle g) (h' : s.Idle g') (roots : List Nat) :
    roots.foldl (visit g' (g'.size + g'.edgeCount)) s =
      roots.foldl (visit g (g.size + g.edgeCount)) s := by
  induction roots generalizing s with
  | nil             => rfl
  | cons root _ hi =>
    have he := visit_withoutLoops hg ho ho' h h' root
    rw [List.foldl_cons, List.foldl_cons, he]
    exact hi (h.visit ho root) (he ▸ h'.visit ho' root)

end Search

theorem forward_withoutLoops {g g' : Graph} (hg : DropsLoops g g') (hs : g'.size = g.size)
    (ho : g.outgoing.size = g.size) (ho' : g'.outgoing.size = g'.size) (roots : List Nat) :
    g'.forward roots = g.forward roots := by
  have hstart : Search.start g' = Search.start g := by simp [Search.start, hs]
  have hr := Search.foldl_visit_withoutLoops hg ho ho' (.start g) (hstart ▸ .start g')
    (roots ++ List.range g.size)
  rw [forward, forward, Search.run, Search.run, hstart, ← hr, hs]

theorem seeds_eq_iff {g g' : Graph} : g'.seeds = g.seeds ↔ ∀ u, u ∈ g'.seeds ↔ u ∈ g.seeds := by
  refine ⟨fun h u => by rw [h], fun h => ?_⟩
  refine List.Perm.eq_of_pairwise (fun _ _ _ _ hab hba => absurd hba (Nat.lt_asymm hab))
    seeds_pairwise_lt seeds_pairwise_lt ?_
  exact (List.perm_ext_iff_of_nodup seeds_nodup seeds_nodup).mpr h

end Graph

namespace Plan

open LayeredDiagram.Graph Relaxation

variable {p : Plan} {g g' : Graph} {u : Nat}

def withoutLoops (p : Plan) : Plan :=
  { p with edges := p.edges.filter fun e => e.source ≠ e.target }

-- Edges end at the node in place `u`, and all of them start there.
def HasOnlyLoops (p : Plan) (u : Nat) : Prop :=
  ∃ id, p.ids[u]? = some id ∧ (∃ e ∈ p.edges, e.target = id) ∧
    ∀ e ∈ p.edges, e.target = id → e.source = id

theorem Valid.withoutLoops (hp : p.Valid) : p.withoutLoops.Valid where
  distinct     := hp.distinct
  declared e h := hp.declared e (List.mem_of_mem_filter h)

theorem dropsLoops (h : ofPlan p = .ok g) (h' : ofPlan p.withoutLoops = .ok g') :
    DropsLoops g g' := by
  have hp := valid_of_ofPlan h
  intro u
  by_cases hu : u < p.ids.length
  case neg => rw [targets_eq_nil_of_ofPlan h hu, targets_eq_nil_of_ofPlan h' hu, List.filter_nil]
  case pos =>
    have ht' : g'.targets u =
        ((p.edges.filter fun e => e.source ≠ e.target).filter (·.source = p.idAt u)).map fun e =>
          p.ids.idxOf e.target := targets_eq_of_ofPlan h' hu
    rw [targets_eq_of_ofPlan h hu, ht', List.filter_map, List.filter_filter, List.filter_filter]
    refine congrArg _ (List.filter_congr fun e he => ?_)
    have hinj := List.idxOf_inj (hp.declared e he).right (y := p.idAt u)
    rw [idxOf_idAt hp hu] at hinj
    by_cases hs : e.source = p.idAt u <;> simp [hs, hinj, eq_comm (a := p.idAt u)]

theorem isSource_withoutLoops_iff :
    p.withoutLoops.IsSource u ↔ p.IsSource u ∨ p.HasOnlyLoops u := by
  constructor
  case mp =>
    intro ⟨id, hid, hn⟩
    by_cases he : ∃ e ∈ p.edges, e.target = id
    case pos =>
      refine .inr ⟨id, hid, he, fun e he ht => ?_⟩
      by_contra hs
      exact hn e (List.mem_filter.mpr ⟨he, by simpa [ht] using hs⟩) ht
    case neg => exact .inl ⟨id, hid, fun e hm ht => he ⟨e, hm, ht⟩⟩
  case mpr =>
    rintro (⟨id, hid, hn⟩ | ⟨id, hid, _, hn⟩)
    case inl => exact ⟨id, hid, fun e he => hn e (List.mem_of_mem_filter he)⟩
    case inr =>
      refine ⟨id, hid, fun e he ht => ?_⟩
      have ⟨he, hs⟩ := List.mem_filter.mp he
      exact absurd (hn e he ht) (by simpa [ht] using hs)

theorem HasOnlyLoops.not_isSource (h : p.HasOnlyLoops u) : ¬p.IsSource u := by
  intro ⟨id, hid, hn⟩
  obtain ⟨_, hid', ⟨e, he, ht⟩, _⟩ := h
  obtain rfl := Option.some.inj (hid.symm.trans hid')
  exact hn e he ht

-- The seeds stay the same unless a node becomes a source that has not been a seed before.
theorem isSeed_withoutLoops_iff : (∀ u, p.withoutLoops.IsSeed u ↔ p.IsSeed u) ↔
    ∀ u, p.HasOnlyLoops u → u = 0 ∧ ∀ v, ¬p.IsSource v := by
  constructor
  case mp =>
    intro h u hu
    have hs := (h u).mp (.inl (isSource_withoutLoops_iff.mpr (.inr hu)))
    have ⟨h₀, _, hn⟩ := hs.resolve_left hu.not_isSource
    exact ⟨h₀, hn⟩
  case mpr =>
    intro h u
    by_cases hn : ∃ v, p.HasOnlyLoops v
    case neg =>
      have hiff (v : Nat) : p.withoutLoops.IsSource v ↔ p.IsSource v := by
        simp [isSource_withoutLoops_iff, not_exists.mp hn v]
      simp only [IsSeed, hiff]
      rfl
    case pos =>
      obtain ⟨v, hv⟩ := hn
      obtain ⟨rfl, hn⟩ := h v hv
      have hne : p.nodes ≠ [] := by
        obtain ⟨id, hid, _⟩ := hv
        rintro he
        simp [ids, he] at hid
      have hiff (w : Nat) : p.withoutLoops.IsSource w ↔ w = 0 := by
        rw [isSource_withoutLoops_iff, or_iff_right (hn w)]
        exact ⟨fun hw => (h w hw).left, fun hw => hw ▸ hv⟩
      constructor
      case mp =>
        rintro (hu | ⟨rfl, _⟩)
        case inl => exact .inr ⟨(hiff u).mp hu, hne, hn⟩
        case inr => exact .inr ⟨rfl, hne, hn⟩
      case mpr =>
        rintro (hu | ⟨rfl, _⟩)
        case inl => exact absurd hu (hn u)
        case inr => exact .inl ((hiff 0).mpr rfl)

theorem forward_eq_of_withoutLoops (h : ofPlan p = .ok g) (h' : ofPlan p.withoutLoops = .ok g')
    (roots : List Nat) : g'.forward roots = g.forward roots :=
  forward_withoutLoops (dropsLoops h h') (by rw [size_of_ofPlan h, size_of_ofPlan h']; rfl)
    (outgoing_size_of_ofPlan h) (outgoing_size_of_ofPlan h') roots

theorem layers_eq_of_seeds (h : ofPlan p = .ok g) (h' : ofPlan p.withoutLoops = .ok g')
    (hs : g'.seeds = g.seeds) (cap : Option Float) : p.withoutLoops.layers cap = p.layers cap := by
  have ⟨n, r, hr, hn⟩ := exists_settles_start h
  have hsize : g'.size = g.size := by rw [size_of_ofPlan h, size_of_ofPlan h']; rfl
  have hids : g'.ids.toList = g.ids.toList :=
    (indexes_of_ofPlan h').ids_eq.trans (indexes_of_ofPlan h).ids_eq.symm
  have hr' : Settles (g'.forward g'.seeds) (.start g') n r := by
    rw [Relaxation.start, hs, hsize, forward_eq_of_withoutLoops h h']
    exact hr
  have hres : r.result g' = r.result g := by rw [Relaxation.result, hids]; rfl
  cases cap with
  | none   => rw [layers_none h hr hn, layers_none h' hr' (hsize ▸ hn), hres]
  | some x =>
    rw [layers_eq_of_ofPlan h, layers_eq_of_ofPlan h', layers_of_settles hr hn,
      layers_of_settles hr' (hsize ▸ hn), hres]
    rfl

-- Without the edges from nodes to themselves a search keeps what it keeps with them, from whatever
-- roots. The layers are those of the longest ways along what is kept, but from the seeds that the
-- plan has with these edges. So they are the same where the seeds are: unless every edge that ends
-- at some node starts there, and this is not the first node of a plan without sources.
theorem layers_withoutLoops (hp : p.Valid) : ∃ g g', ofPlan p = .ok g ∧
    ofPlan p.withoutLoops = .ok g' ∧ (∀ roots, g'.forward roots = g.forward roots) ∧
    (∀ cap ls, p.layers cap = .ok ls → ∀ u id l, ls[u]? = some (id, l) →
      IsLongest { n | ∃ s ∈ g.seeds, Walk (Leads (g'.forward g.seeds)) s u n } l) ∧
    (g'.seeds = g.seeds ↔ ∀ u, p.HasOnlyLoops u → u = 0 ∧ ∀ v, ¬p.IsSource v) ∧
    ((∀ u, p.HasOnlyLoops u → u = 0 ∧ ∀ v, ¬p.IsSource v) →
      ∀ cap, p.withoutLoops.layers cap = p.layers cap) := by
  have ⟨g, h, _⟩ := ofPlan_of_valid hp
  have ⟨g', h', _⟩ := ofPlan_of_valid hp.withoutLoops
  have hf := forward_eq_of_withoutLoops h h'
  have hs : g'.seeds = g.seeds ↔ ∀ u, p.HasOnlyLoops u → u = 0 ∧ ∀ v, ¬p.IsSource v := by
    simp only [seeds_eq_iff, mem_seeds_iff h, mem_seeds_iff h', isSeed_withoutLoops_iff]
  refine ⟨g, g', h, h', hf, fun cap ls hl => ?_, hs, fun hn => layers_eq_of_seeds h h' (hs.mpr hn)⟩
  rw [hf]
  exact (isLongest_of_layers h hl).right

-- The only edge that ends at `a` starts there, and `c` is a source.
def loopBesideSource : Plan :=
  ofEnds ["a", "b", "c"] [("a", "a"), ("a", "b")]

theorem layers_withoutLoops_fails :
    ¬∀ p : Plan, p.Valid → p.layers = p.withoutLoops.layers := by
  intro h
  have hl : loopBesideSource.layers = .ok [("a", 0), ("b", 0), ("c", 0)] := by cbv
  have hl' : loopBesideSource.withoutLoops.layers = .ok [("a", 0), ("b", 1), ("c", 0)] := by cbv
  have he := h loopBesideSource (by decide)
  rw [hl, hl'] at he
  exact absurd (Except.ok.inj he) (by decide)

-- The first node and the last one have an edge to themselves, and the first one no other.
def loops : Plan :=
  ofEnds ["a", "b", "c"] [("a", "a"), ("a", "b"), ("c", "c"), ("b", "c"), ("c", "b"), ("a", "b")]

theorem loops_hasOnlyLoops (h : loops.HasOnlyLoops u) : u = 0 ∧ ∀ v, ¬loops.IsSource v := by
  constructor
  case left =>
    obtain ⟨id, hid, _, hn⟩ := h
    have ha : ∀ id ∈ loops.ids, (∀ e ∈ loops.edges, e.target = id → e.source = id) → id = "a" := by
      decide
    rw [ha id (List.mem_of_getElem? hid) hn] at hid
    match u with
    | 0     => rfl
    | 1     => nomatch hid
    | 2     => nomatch hid
    | u + 3 => nomatch hid
  case right =>
    intro v ⟨id, hid, hn⟩
    have he : ∀ id ∈ loops.ids, ∃ e ∈ loops.edges, e.target = id := by decide
    have ⟨e, hm, ht⟩ := he id (List.mem_of_getElem? hid)
    exact hn e hm ht

theorem layers_withoutLoops_loops : loops.Valid ∧
    (∀ u, loops.HasOnlyLoops u → u = 0 ∧ ∀ v, ¬loops.IsSource v) ∧
    ∀ cap, loops.withoutLoops.layers cap = loops.layers cap := by
  have ⟨_, _, _, _, _, _, _, hl⟩ := layers_withoutLoops (p := loops) (by decide)
  exact ⟨by decide, fun _ => loops_hasOnlyLoops, hl fun _ => loops_hasOnlyLoops⟩

end Plan

end LayeredDiagram
