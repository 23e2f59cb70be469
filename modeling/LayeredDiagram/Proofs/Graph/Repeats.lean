import LayeredDiagram.Proofs.Graph.Loops
import LayeredDiagram.Proofs.Graph.Recursion

namespace LayeredDiagram

namespace Graph

-- `g'` is `g` with the first occurrence of every edge.
def DropsRepeats (g g' : Graph) : Prop :=
  ∀ u, g'.targets u = (g.targets u).eraseDups

namespace Marks

variable {g g' : Graph} {m m' : Marks} {u v w : Nat} {c : Colour} {seen roots : List Nat}

-- Whatever is explored, a node that is not white stays as it is. While it is read, it may only keep
-- more.
theorem frame : (∀ (m : Marks) u w, m.colour w ≠ .white →
      (m.explore g u).toMarks.colour w = m.colour w ∧
        listAt (m.explore g u).toMarks.kept w = listAt m.kept w) ∧
    ∀ (m : Marks) u vs w, m.colour w ≠ .white →
      (m.read g u vs).toMarks.colour w = m.colour w ∧
        (w ≠ u → listAt (m.read g u vs).toMarks.kept w = listAt m.kept w) := by
  apply induct (g := g)
  case stays =>
    intro m u hu w _
    rw [explore_of_not_white hu]
    exact ⟨rfl, rfl⟩
  case enters =>
    intro m u hu hread w hw
    have hwu : w ≠ u := fun h => hw (h ▸ hu)
    have hc : (m.paint u .grey).colour w = m.colour w := by
      rw [colour_paint (.inl (by simp [hu])), if_neg hwu]
    have ⟨hcolour, hkept⟩ := hread w (hc ▸ hw)
    rw [explore_of_white hu, colour_paint (.inr rfl), if_neg hwu]
    exact ⟨hcolour.trans hc, hkept hwu⟩
  case ends =>
    intro m u w _
    rw [read_nil]
    exact ⟨rfl, fun _ => rfl⟩
  case drops =>
    intro m u v vs hv hread w hw
    rw [read_of_grey hv]
    exact hread w hw
  case keeps =>
    intro m u v vs hv hexplore hread w hw
    have ⟨hc₁, hk₁⟩ := hexplore w hw
    have ⟨hc₂, hk₂⟩ := hread w (hc₁ ▸ hw)
    rw [read_of_not_grey hv]
    exact ⟨hc₂.trans hc₁, fun hwu => (hk₂ hwu).trans (hk₁.trans (listAt_keep_of_ne hwu))⟩

theorem colour_explore_self (hu : m.colour u ≠ .grey) :
    (m.explore g u).toMarks.colour u = .black := by
  cases hc : m.colour u with
  | grey  => exact absurd hc hu
  | black => rw [explore_of_not_white (by simp [hc]), hc]
  | white => rw [explore_of_white hc, colour_paint (.inr rfl), if_pos rfl]

-- Where `u` is being explored, and the targets in `seen` have been read.
structure Reading (m : Marks) (u : Nat) (seen : List Nat) : Prop where
  grey  : m.colour u = .grey
  kept  : ∀ v ∈ listAt m.kept u, v ∈ seen
  again : ∀ v ∈ seen, m.colour v = .grey ∨ m.colour v = .black ∧ v ∈ listAt m.kept u

namespace Reading

theorem enter (hu : m.colour u = .white) (hk : listAt m.kept u = []) :
    (m.paint u .grey).Reading u [] where
  grey  := by rw [colour_paint (.inl (by simp [hu])), if_pos rfl]
  kept  := by simp [paint, hk]
  again := nofun

theorem drop (h : m.Reading u seen) (hv : m.colour v = .grey) : m.Reading u (v :: seen) where
  grey      := h.grey
  kept w hw := List.mem_cons_of_mem _ (h.kept w hw)
  again     := List.forall_mem_cons.mpr ⟨.inl hv, h.again⟩

-- A target that has been read before is either grey, and dropped as it was before, or black, and
-- kept once more. In neither case is it explored again.
theorem repeated (h : m.Reading u seen) (hu : u < m.kept.size) (hv : v ∈ listAt m.kept u) :
    (m.keep u v).Reading u seen where
  grey       := h.grey
  kept w hw  := by
    rw [listAt_keep hu, if_pos rfl, List.mem_append, List.mem_singleton] at hw
    exact h.kept w (hw.elim id (· ▸ hv))
  again w hw := by
    rw [listAt_keep hu, if_pos rfl]
    exact (h.again w hw).imp_right (.imp_right (List.mem_append_left _))

theorem follow (h : m.Reading u seen) (hu : u < m.kept.size) (hv : m.colour v ≠ .grey) :
    ((m.keep u v).explore g v).Reading u (v :: seen) := by
  have hframe (w : Nat) (hw : m.colour w ≠ .white) := (frame (g := g)).left (m.keep u v) v w hw
  have hk : listAt ((m.keep u v).explore g v).toMarks.kept u = listAt m.kept u ++ [v] := by
    rw [(hframe u (by simp [h.grey])).right, listAt_keep hu, if_pos rfl]
  refine ⟨(hframe u (by simp [h.grey])).left.trans h.grey, fun w hw => ?_, ?_⟩
  case refine_1 =>
    rw [hk, List.mem_append, List.mem_singleton] at hw
    exact List.mem_cons.mpr (hw.symm.imp_right (h.kept w))
  case refine_2 =>
    rw [hk]
    refine List.forall_mem_cons.mpr ⟨.inr ⟨colour_explore_self hv, by simp⟩, fun w hw => ?_⟩
    have hr := h.again w hw
    have hc : ((m.keep u v).explore g v).toMarks.colour w = m.colour w :=
      (hframe w (by rcases hr with hr | ⟨hr, _⟩ <;> simp [hr])).left
    rw [hc]
    exact hr.imp_right (.imp_right (List.mem_append_left _))

end Reading

-- `m'` has come as far as `m`, and keeps every edge once.
structure Once (m m' : Marks) : Prop where
  colours_eq : m'.colours = m.colours
  listAt_eq  : ∀ u, listAt m'.kept u = (listAt m.kept u).eraseDups
  kept_size  : m.kept.size = m.colours.size
  kept_size' : m'.kept.size = m.colours.size
  white_kept : ∀ u, m.colour u = .white → listAt m.kept u = []

namespace Once

theorem colour_eq (h : Once m m') : m'.colour u = m.colour u := by
  rw [colour, h.colours_eq, colour]

theorem lt_size (h : Once m m') (hu : m.colour u = .grey) : u < m.kept.size := by
  rw [h.kept_size]
  by_contra hn
  simp [colour, Nat.le_of_not_lt hn] at hu

theorem start (hs : g'.size = g.size) : Once (start g) (start g') where
  colours_eq     := by simp [Marks.start, hs]
  listAt_eq u    := by simp [Marks.start, listAt_replicate]
  kept_size      := by simp [Marks.start]
  kept_size'     := by simp [Marks.start, hs]
  white_kept _ _ := listAt_replicate ..

theorem paint (h : Once m m') (hc : m.colour u ≠ .black ∨ c = .black) (hw : c ≠ .white) :
    Once (m.paint u c) (m'.paint u c) where
  colours_eq      := by simp [Marks.paint, h.colours_eq]
  listAt_eq       := h.listAt_eq
  kept_size       := by simpa [Marks.paint] using h.kept_size
  kept_size'      := by simpa [Marks.paint] using h.kept_size'
  white_kept w hw' := by
    rw [colour_paint hc] at hw'
    split at hw'
    case isTrue  => exact absurd hw' hw
    case isFalse => exact h.white_kept w hw'

theorem white_kept_keep (h : Once m m') (hu : m.colour u = .grey) (hw : m.colour w = .white) :
    listAt (m.keep u v).kept w = [] := by
  rw [listAt_keep_of_ne fun hwu => by simp [hwu, hu] at hw]
  exact h.white_kept w hw

theorem keep (h : Once m m') (hu : m.colour u = .grey) (hv : v ∉ listAt m.kept u) :
    Once (m.keep u v) (m'.keep u v) where
  colours_eq      := h.colours_eq
  listAt_eq w     := by
    have hlt := h.lt_size hu
    rw [listAt_keep hlt, listAt_keep (h.kept_size'.trans h.kept_size.symm ▸ hlt), h.listAt_eq,
      h.listAt_eq]
    split
    case isTrue  => rw [eraseDups_snoc, if_neg hv]
    case isFalse => rfl
  kept_size       := by simpa [Marks.keep] using h.kept_size
  kept_size'      := by simpa [Marks.keep] using h.kept_size'
  white_kept _ hw := h.white_kept_keep hu hw

theorem repeated (h : Once m m') (hu : m.colour u = .grey) (hv : v ∈ listAt m.kept u) :
    Once (m.keep u v) m' where
  colours_eq      := h.colours_eq
  listAt_eq w     := by
    rw [listAt_keep (h.lt_size hu), h.listAt_eq]
    split
    case isTrue hwu => rw [hwu, eraseDups_snoc, if_pos hv]
    case isFalse    => rfl
  kept_size       := by simpa [Marks.keep] using h.kept_size
  kept_size'      := h.kept_size'
  white_kept _ hw := h.white_kept_keep hu hw

-- What has been read before is not read again.
theorem search (hg : DropsRepeats g g') : (∀ (m : Marks) u m', Once m m' →
      Once (m.explore g u).toMarks (m'.explore g' u).toMarks) ∧
    ∀ (m : Marks) u vs m' seen, Once m m' → m.Reading u seen →
      Once (m.read g u vs).toMarks (m'.read g' u (vs.removeAll seen).eraseDups).toMarks := by
  apply induct (g := g)
  case stays =>
    intro m u hu m' h
    rw [explore_of_not_white hu, explore_of_not_white (h.colour_eq ▸ hu)]
    exact h
  case enters =>
    intro m u hu hread m' h
    have hr := hread _ [] (h.paint (.inl (by simp [hu])) (by simp))
      (.enter hu (h.white_kept u hu))
    rw [List.removeAll_nil, ← hg u] at hr
    rw [explore_of_white hu, explore_of_white (h.colour_eq.trans hu)]
    exact hr.paint (.inr rfl) (by simp)
  case ends =>
    intro m u m' seen h _
    rw [read_nil, List.removeAll, List.filter_nil, List.eraseDups_nil, read_nil]
    exact h
  case drops =>
    intro m u v vs hc hread m' seen h hu
    rw [read_of_grey hc]
    by_cases hv : v ∈ seen
    case pos =>
      rw [removeAll_of_mem hv]
      exact hread m' seen h hu
    case neg =>
      rw [eraseDups_removeAll_of_not_mem hv, read_of_grey (h.colour_eq.trans hc)]
      exact hread m' (v :: seen) h (hu.drop hc)
  case keeps =>
    intro m u v vs hc hexplore hread m' seen h hu
    rw [read_of_not_grey hc]
    by_cases hv : v ∈ seen
    case pos =>
      -- It is black, and not explored.
      obtain ⟨hb, hk⟩ := (hu.again v hv).resolve_left hc
      rw [explore_of_not_white (by simp [hb])] at hread ⊢
      rw [removeAll_of_mem hv]
      exact hread m' seen (h.repeated hu.grey hk) (hu.repeated (h.lt_size hu.grey) hk)
    case neg =>
      rw [eraseDups_removeAll_of_not_mem hv, read_of_not_grey (h.colour_eq ▸ hc)]
      have he := hexplore _ (h.keep (v := v) hu.grey (mt (hu.kept v) hv))
      exact hread _ (v :: seen) he (hu.follow (h.lt_size hu.grey) hc)

theorem run (hg : DropsRepeats g g') (hs : g'.size = g.size) (roots : List Nat) :
    Once (Marks.run g roots) (Marks.run g' roots) := by
  rw [Marks.run, Marks.run, hs]
  generalize roots ++ List.range g.size = roots, start hs = h
  generalize Marks.start g = m, Marks.start g' = m' at h
  induction roots generalizing m m' with
  | nil            => exact h
  | cons root _ hi => exact hi _ _ ((search hg).left m root m' h)

end Once

end Marks

theorem listAt_forward_of_dropsRepeats {g g' : Graph} {roots : List Nat}
    (hg : DropsRepeats g g') (hs : g'.size = g.size) (ho : g.outgoing.size = g.size)
    (ho' : g'.outgoing.size = g'.size) (u : Nat) :
    listAt (g'.forward roots) u = (listAt (g.forward roots) u).eraseDups := by
  rw [forward, forward, Search.run_on ho, Search.run_on ho']
  exact (Marks.Once.run hg hs roots).listAt_eq u

end Graph

def Edge.sameEnds (e f : Edge) : Bool :=
  e.source == f.source && e.target == f.target

namespace Plan

open LayeredDiagram.Graph

variable {p : Plan} {g g' : Graph} {roots : List Nat}

-- The first one of the edges with the same ends stays, whatever their labels are.
def withoutRepeats (p : Plan) : Plan :=
  { p with edges := p.edges.eraseDupsBy Edge.sameEnds }

theorem mem_edges_of_withoutRepeats {e : Edge} (he : e ∈ p.withoutRepeats.edges) : e ∈ p.edges :=
  (eraseDupsBy_sublist _ _).mem he

theorem Valid.withoutRepeats (hp : p.Valid) : p.withoutRepeats.Valid where
  distinct      := hp.distinct
  declared e he := hp.declared e (mem_edges_of_withoutRepeats he)

theorem isSource_withoutRepeats_iff {u : Nat} : p.withoutRepeats.IsSource u ↔ p.IsSource u := by
  constructor
  case mpr =>
    intro ⟨id, hid, hn⟩
    exact ⟨id, hid, fun e he => hn e (mem_edges_of_withoutRepeats he)⟩
  case mp =>
    intro ⟨id, hid, hn⟩
    refine ⟨id, hid, fun e he ht => ?_⟩
    have ⟨f, hf, hef⟩ := exists_mem_eraseDupsBy (r := Edge.sameEnds) (by simp [Edge.sameEnds]) he
    simp only [Edge.sameEnds, Bool.and_eq_true, beq_iff_eq] at hef
    exact hn f hf (hef.right ▸ ht)

theorem dropsRepeats (h : ofPlan p = .ok g) (h' : ofPlan p.withoutRepeats = .ok g') :
    DropsRepeats g g' := by
  have hp := valid_of_ofPlan h
  intro u
  by_cases hu : u < p.ids.length
  case neg => rw [targets_eq_nil_of_ofPlan h hu, targets_eq_nil_of_ofPlan h' hu, List.eraseDups_nil]
  case pos =>
    have hsource (e f : Edge) (hef : e.sameEnds f) :
        decide (e.source = p.idAt u) = decide (f.source = p.idAt u) := by
      simp_all [Edge.sameEnds]
    have htarget : ∀ e ∈ p.edges.filter (·.source = p.idAt u),
        ∀ f ∈ p.edges.filter (·.source = p.idAt u),
          (p.ids.idxOf e.target == p.ids.idxOf f.target) = e.sameEnds f := by
      intro e he f hf
      have ⟨he, hs⟩ := List.mem_filter.mp he
      have ⟨_, hs'⟩ := List.mem_filter.mp hf
      have hinj := List.idxOf_inj (hp.declared e he).right (y := f.target)
      simp_all [Edge.sameEnds]
    calc g'.targets u
      _ = ((p.edges.eraseDupsBy Edge.sameEnds).filter (·.source = p.idAt u)).map
          (p.ids.idxOf ·.target) := targets_eq_of_ofPlan h' hu
      _ = ((p.edges.filter (·.source = p.idAt u)).eraseDupsBy Edge.sameEnds).map
          (p.ids.idxOf ·.target) := by rw [filter_eraseDupsBy hsource]
      _ = (g.targets u).eraseDups := by rw [map_eraseDupsBy htarget, targets_eq_of_ofPlan h hu]

-- Of every node the same edges are kept, each of them once.
theorem listAt_forward_withoutRepeats (h : ofPlan p = .ok g)
    (h' : ofPlan p.withoutRepeats = .ok g') (u : Nat) :
    listAt (g'.forward roots) u = (listAt (g.forward roots) u).eraseDups :=
  listAt_forward_of_dropsRepeats (dropsRepeats h h')
    (by rw [size_of_ofPlan h, size_of_ofPlan h']; rfl) (outgoing_size_of_ofPlan h)
    (outgoing_size_of_ofPlan h') u

theorem seeds_withoutRepeats (h : ofPlan p = .ok g) (h' : ofPlan p.withoutRepeats = .ok g') :
    g'.seeds = g.seeds := by
  refine seeds_eq_iff.mpr fun u => ?_
  simp only [mem_seeds_iff h, mem_seeds_iff h', IsSeed, isSource_withoutRepeats_iff]
  rfl

theorem wayLengths_withoutRepeats (h : ofPlan p = .ok g)
    (h' : ofPlan p.withoutRepeats = .ok g') (u : Nat) : g'.wayLengths u = g.wayLengths u := by
  have hleads : Leads (g'.forward g.seeds) = Leads (g.forward g.seeds) := by
    funext u v
    simp [Leads, listAt_forward_withoutRepeats h h']
  rw [Graph.wayLengths, seeds_withoutRepeats h h', hleads, Graph.wayLengths]

-- The layers are the same for the plan where every edge occurs once.
theorem layers_withoutRepeats (hp : p.Valid) :
    ∃ ls, p.layers = .ok ls ∧ p.withoutRepeats.layers = .ok ls := by
  have ⟨g, h, _⟩ := ofPlan_of_valid hp
  have ⟨g', h', _⟩ := ofPlan_of_valid hp.withoutRepeats
  have ⟨ls, hl, _⟩ := exists_layers hp
  have ⟨ms, hm, _⟩ := exists_layers hp.withoutRepeats
  have he : ms = ls := layers_eq_of_wayLengths h h' rfl (wayLengths_withoutRepeats h h') hl hm
  exact ⟨ls, hl, he ▸ hm⟩

-- An edge of a cycle, the edge back and a loop, each of them twice and with another label.
def echoes : Plan where
  nodes := (ofEnds ["a", "b", "c"] []).nodes
  edges := [⟨"b", "c", none⟩, ⟨"a", "b", some "x"⟩, ⟨"c", "b", none⟩, ⟨"b", "c", some "y"⟩,
    ⟨"c", "c", none⟩, ⟨"c", "b", some "z"⟩, ⟨"a", "b", none⟩, ⟨"c", "c", some ""⟩]

theorem layers_withoutRepeats_echoes : echoes.Valid ∧
    echoes.withoutRepeats.edges.map (·.label) = [none, some "x", none, none] ∧
    echoes.withoutRepeats.layers = .ok [("a", 0), ("b", 1), ("c", 2)] := by
  have hl : echoes.layers = .ok [("a", 0), ("b", 1), ("c", 2)] := by cbv
  obtain ⟨ls, he, hr⟩ := layers_withoutRepeats (p := echoes) (by decide)
  rw [hl] at he
  exact ⟨by decide, rfl, Except.ok.inj he ▸ hr⟩

end Plan

end LayeredDiagram
