import LayeredDiagram.Proofs.Graph.Layering
import Mathlib.Data.List.NodupEquivFin

namespace LayeredDiagram.Graph

variable {f : ℕ ↪o ℕ} {g g' : Graph} {u v n : ℕ}

-- The nodes of `g'` have the places in `g` that `f` gives them.
structure Part (f : ℕ ↪o ℕ) (g' g : Graph) : Prop where
  lt_iff     : ∀ u, f u < g.size ↔ u < g'.size
  targets_eq : ∀ u, g.targets (f u) = (g'.targets u).map f
  closed     : ∀ u v, f v ∈ g.targets u → u ∈ Set.range f

-- Two ordered lists of nodes with the same nodes of the part.
theorem filter_range_eq_map [DecidablePred (· ∈ Set.range f)] {us vs : List ℕ}
    (hus : us.Pairwise (· < ·)) (hvs : vs.Pairwise (· < ·)) (hm : ∀ v, f v ∈ us ↔ v ∈ vs) :
    us.filter (· ∈ Set.range f) = vs.map f := by
  refine List.Pairwise.eq_of_mem_iff (r := (· < ·)) (hus.filter _)
    (hvs.map f fun _ _ => f.lt_iff_lt.mpr) fun u => ?_
  simp only [List.mem_filter, decide_eq_true_eq, List.mem_map]
  constructor
  case mp =>
    rintro ⟨hu, v, rfl⟩
    exact ⟨v, (hm v).mp hu, rfl⟩
  case mpr =>
    rintro ⟨v, hv, rfl⟩
    exact ⟨(hm v).mpr hv, v, rfl⟩

-- A frame of the part as it stands in the whole graph.
def Frame.embed (f : ℕ ↪o ℕ) (x : Frame) : Frame :=
  ⟨f x.node, x.rest.map f⟩

namespace Search

variable {s s' t t' : Search} {roots roots' : List ℕ} {fuel fuel' : ℕ}

-- At the nodes of the part, `t` has come as far as `s`.
structure Shows (f : ℕ ↪o ℕ) (s t : Search) : Prop where
  colour_eq : ∀ u, t.colour (f u) = s.colour u
  listAt_eq : ∀ u, listAt t.kept (f u) = (listAt s.kept u).map f

-- Both searches are at the same place in the part.
structure Matches (f : ℕ ↪o ℕ) (g' g : Graph) (s t : Search) : Prop where
  shows    : Shows f s t
  stack_eq : t.stack = s.stack.map (Frame.embed f)
  stacked  : s.Stacked g'
  stacked' : t.Stacked g

namespace Matches

theorem stack_cons (h : Matches f g' g s t) {rest : List ℕ} {below : List Frame}
    (hs : s.stack = ⟨u, rest⟩ :: below) :
    t.stack = ⟨f u, rest.map f⟩ :: below.map (Frame.embed f) := by
  rw [h.stack_eq, hs]
  rfl

theorem advance (h : Matches f g' g s t) {rest : List ℕ} {below : List Frame}
    (hs : s.stack = ⟨u, v :: rest⟩ :: below) :
    Matches f g' g (s.advance u rest below)
      (t.advance (f u) (rest.map f) (below.map (Frame.embed f))) where
  shows    := ⟨h.shows.colour_eq, h.shows.listAt_eq⟩
  stack_eq := rfl
  stacked  := h.stacked.advance hs
  stacked' := h.stacked'.advance (h.stack_cons hs)

theorem keep (h : Matches f g' g s t) {rest : List ℕ} {below : List Frame}
    (hs : s.stack = ⟨u, v :: rest⟩ :: below) :
    Matches f g' g ((s.advance u rest below).keep u v)
      ((t.advance (f u) (rest.map f) (below.map (Frame.embed f))).keep (f u) (f v)) where
  shows    := by
    refine ⟨h.shows.colour_eq, fun w => ?_⟩
    rw [h.stacked.listAt_keep hs, h.stacked'.listAt_keep (h.stack_cons hs)]
    by_cases hw : w = u <;> simp [hw, h.shows.listAt_eq]
  stack_eq := rfl
  stacked  := h.stacked.keep hs
  stacked' := h.stacked'.keep (h.stack_cons hs)

theorem enter (h : Matches f g' g s t) (hp : Part f g' g) (hv : s.colour v = .white) :
    Matches f g' g (s.enter g' v) (t.enter g (f v)) where
  shows    := by
    refine ⟨fun w => ?_, h.shows.listAt_eq⟩
    rw [colour_enter hv, colour_enter (h.shows.colour_eq v ▸ hv)]
    by_cases hw : w = v <;> simp [hw, h.shows.colour_eq]
  stack_eq := by simp [Search.enter, h.stack_eq, Frame.embed, hp.targets_eq]
  stacked  := h.stacked.enter hv
  stacked' := h.stacked'.enter (h.shows.colour_eq v ▸ hv)

theorem leave (h : Matches f g' g s t) {below : List Frame} (hs : s.stack = ⟨u, []⟩ :: below) :
    Matches f g' g (s.leave u below) (t.leave (f u) (below.map (Frame.embed f))) where
  shows    := by
    refine ⟨fun w => ?_, h.shows.listAt_eq⟩
    rw [colour_leave, colour_leave]
    by_cases hw : w = u <;> simp [hw, h.shows.colour_eq]
  stack_eq := rfl
  stacked  := h.stacked.leave hs
  stacked' := h.stacked'.leave (h.stack_cons hs)

-- What the search of the part does, the search of the whole graph does as well.
theorem moves (h : Matches f g' g s t) (hp : Part f g' g) (hm : Moves g' s s') :
    ∃ t', Moves g t t' ∧ Matches f g' g s' t' := by
  have hc := h.shows.colour_eq
  cases hm with
  | leave hs    => exact ⟨_, .leave (h.stack_cons hs), h.leave hs⟩
  | drop hs hv  => exact ⟨_, .drop (h.stack_cons hs) (hc _ ▸ hv), h.advance hs⟩
  | pass hs hv  => exact ⟨_, .pass (h.stack_cons hs) (hc _ ▸ hv), h.keep hs⟩
  | enter hs hv => exact ⟨_, .enter (h.stack_cons hs) (hc _ ▸ hv), (h.keep hs).enter hp hv⟩

theorem drain (h : Matches f g' g s t) (hp : Part f g' g) (hd : (drain g' fuel' s).stack = [])
    (hd' : (Search.drain g fuel t).stack = []) :
    Matches f g' g (Search.drain g' fuel' s) (Search.drain g fuel t) := by
  refine drain_simulation (fun s t h hs => ?_) (fun s s' t h hm => .inr (h.moves hp hm)) h hd hd'
  simp [h.stack_eq, hs]

end Matches

-- The search is outside the part.
structure Elsewhere (f : ℕ ↪o ℕ) (g : Graph) (s t : Search) : Prop where
  shows : Shows f s t
  sound : t.Sound g
  nodes : ∀ u ∈ t.nodes, u ∉ Set.range f

namespace Elsewhere

theorem keep (h : Elsewhere f g s t) {rest : List ℕ} {below : List Frame}
    (hs : t.stack = ⟨u, v :: rest⟩ :: below) :
    Shows f s ((t.advance u rest below).keep u v) := by
  have hu : u ∉ Set.range f := h.nodes u (by simp [nodes_of_stack hs])
  refine ⟨h.shows.colour_eq, fun w => ?_⟩
  rw [h.sound.stacked.listAt_keep hs, if_neg fun hw => hu ⟨w, hw⟩, h.shows.listAt_eq]

-- No edge leads into the part.
theorem not_mem_of_stack (h : Elsewhere f g s t) (hp : Part f g' g) {rest : List ℕ}
    {below : List Frame} (hs : t.stack = ⟨u, v :: rest⟩ :: below) : v ∉ Set.range f := by
  rintro ⟨w, rfl⟩
  have ⟨read, ht, _⟩ := h.sound.accounted.stack_read ⟨u, f w :: rest⟩ (hs ▸ List.mem_cons_self)
  exact h.nodes u (by simp [nodes_of_stack hs]) (hp.closed u w (by simp [ht]))

theorem moves (h : Elsewhere f g s t) (hp : Part f g' g) (hm : Moves g t t') :
    Elsewhere f g s t' := by
  refine ⟨?_, h.sound.moves hm, ?_⟩
  case refine_1 =>
    cases hm with
    | drop _ _   => exact ⟨h.shows.colour_eq, h.shows.listAt_eq⟩
    | pass hs _  => exact h.keep hs
    | @leave u below hs =>
      have hu : u ∉ Set.range f := h.nodes u (by simp [nodes_of_stack hs])
      refine ⟨fun w => ?_, h.shows.listAt_eq⟩
      rw [colour_leave, if_neg fun hw => hu ⟨w, hw⟩, h.shows.colour_eq]
    | @enter u v rest below hs hv =>
      have hv' := h.not_mem_of_stack hp hs
      have hk := h.keep hs
      refine ⟨fun w => ?_, hk.listAt_eq⟩
      rw [colour_enter (s := (t.advance u rest below).keep u v) hv,
        if_neg fun hw => hv' ⟨w, hw⟩, hk.colour_eq]
  case refine_2 =>
    have hn := h.nodes
    cases hm with
    | leave hs    => exact fun w hw => hn w (nodes_of_stack hs ▸ List.mem_cons_of_mem _ hw)
    | drop hs _   => exact nodes_advance hs ▸ hn
    | pass hs _   => exact nodes_advance hs ▸ hn
    | enter hs hv =>
      rw [nodes_enter, nodes_keep, nodes_advance hs]
      exact List.forall_mem_cons.mpr ⟨h.not_mem_of_stack hp hs, hn⟩

end Elsewhere

namespace Shows

theorem start (hp : Part f g' g) : Shows f (start g') (start g) where
  colour_eq u := by simp [Sound.colour_start, hp.lt_iff]
  listAt_eq u := by simp [Sound.listAt_start]

-- From a root in the part the search goes through the part.
theorem visit (h : Shows f s t) (hp : Part f g' g) (ho : g.outgoing.size = g.size)
    (ho' : g'.outgoing.size = g'.size) (hs : s.Idle g') (ht : t.Idle g) :
    Shows f (visit g' (g'.size + g'.edgeCount) s u)
      (Search.visit g (g.size + g.edgeCount) t (f u)) := by
  by_cases hw : s.colour u = .white
  case neg =>
    rw [Search.visit, Search.visit, if_neg hw, if_neg (h.colour_eq u ▸ hw)]
    exact h
  case pos =>
    have hd := (ht.visit ho (f u)).stack
    have hd' := (hs.visit ho' u).stack
    have hw' : t.colour (f u) = .white := h.colour_eq u ▸ hw
    rw [Search.visit, if_pos hw'] at hd
    rw [Search.visit, if_pos hw] at hd'
    rw [Search.visit, Search.visit, if_pos hw, if_pos hw']
    have hm : Matches f g' g s t :=
      ⟨h, by simp [hs.stack, ht.stack], hs.sound.stacked, ht.sound.stacked⟩
    exact ((hm.enter hp hw).drain hp hd' hd).shows

-- From any other root it stays outside.
theorem visit_of_not_mem (h : Shows f s t) (hp : Part f g' g) (ht : t.Idle g)
    (hu : u ∉ Set.range f) : Shows f s (Search.visit g fuel t u) := by
  unfold Search.visit
  split
  case isFalse   => exact h
  case isTrue hw =>
    have he : Elsewhere f g s (t.enter g u) := by
      have hn : t.nodes = [] := by simp [nodes, ht.stack]
      refine ⟨⟨fun w => ?_, h.listAt_eq⟩, ht.sound.enter ht.stack hw, by simpa [hn] using hu⟩
      rw [colour_enter hw, if_neg fun hw => hu ⟨w, hw⟩, h.colour_eq]
    exact (drain_induction (P := Elsewhere f g s) (fun _ _ h hm => h.moves hp hm) he).shows

open scoped Classical in
theorem foldl_visit (h : Shows f s t) (hp : Part f g' g) (ho : g.outgoing.size = g.size)
    (ho' : g'.outgoing.size = g'.size) (hs : s.Idle g') (ht : t.Idle g)
    (hr : roots.filter (· ∈ Set.range f) = roots'.map f) :
    Shows f (roots'.foldl (Search.visit g' (g'.size + g'.edgeCount)) s)
      (roots.foldl (Search.visit g (g.size + g.edgeCount)) t) := by
  induction roots generalizing s t roots' with
  | nil =>
    obtain rfl : roots' = [] := by simpa using hr.symm
    exact h
  | cons root roots hi =>
    rw [List.filter_cons] at hr
    split at hr
    case isFalse hn =>
      exact hi (h.visit_of_not_mem hp ht (by simpa using hn)) hs (ht.visit ho root) hr
    case isTrue =>
      cases roots' with
      | nil => nomatch hr
      | cons root' roots' =>
        obtain ⟨rfl, hr'⟩ := List.cons.inj hr
        rw [List.foldl_cons, List.foldl_cons]
        exact hi (h.visit hp ho ho' hs ht) (hs.visit ho' root') (ht.visit ho (f root')) hr'

end Shows

end Search

namespace Part

variable (h : Part f g' g) (ho : g.outgoing.size = g.size) (ho' : g'.outgoing.size = g'.size)
  (hs : ∀ u, f u ∈ g.seeds ↔ u ∈ g'.seeds)

include h ho ho' hs

-- Of the part the same edges are kept as in the part alone.
theorem listAt_forward (u : ℕ) :
    listAt (g.forward g.seeds) (f u) = (listAt (g'.forward g'.seeds) u).map f := by
  classical
  have hr : (g.seeds ++ List.range g.size).filter (· ∈ Set.range f) =
      (g'.seeds ++ List.range g'.size).map f := by
    have hrange (v : ℕ) : f v ∈ List.range g.size ↔ v ∈ List.range g'.size := by simp [h.lt_iff]
    rw [List.filter_append, List.map_append,
      filter_range_eq_map seeds_pairwise_lt seeds_pairwise_lt hs,
      filter_range_eq_map List.pairwise_lt_range List.pairwise_lt_range hrange]
  exact ((Search.Shows.start h).foldl_visit h ho ho' (.start g') (.start g) hr).listAt_eq u

theorem leads_forward_iff : Leads (g.forward g.seeds) u (f v) ↔
    ∃ w, f w = u ∧ Leads (g'.forward g'.seeds) w v := by
  have hl := h.listAt_forward ho ho' hs
  constructor
  case mp =>
    intro e
    obtain ⟨w, rfl⟩ := h.closed u v ((forward_maximalAcyclic ho g.seeds).leads e)
    refine ⟨w, rfl, ?_⟩
    rwa [Leads, hl, List.mem_map_of_injective f.injective] at e
  case mpr =>
    rintro ⟨w, rfl, e⟩
    rw [Leads, hl]
    exact List.mem_map_of_mem e

theorem wayLengths_eq : g.wayLengths (f u) = g'.wayLengths u := by
  ext n
  constructor
  case mp =>
    intro ⟨_, hs', hw⟩
    obtain ⟨s, rfl, hw'⟩ := hw.exists_preimage fun _ _ => (h.leads_forward_iff ho ho' hs).mp
    exact ⟨s, (hs s).mp hs', hw'⟩
  case mpr =>
    intro ⟨s, hs', hw⟩
    exact ⟨f s, (hs s).mpr hs', hw.map f fun x _ e =>
      (h.leads_forward_iff ho ho' hs).mpr ⟨x, rfl, e⟩⟩

end Part

end LayeredDiagram.Graph
