import LayeredDiagram.Proofs.Graph.Search
import Mathlib.Algebra.BigOperators.Group.Finset.Basic
import Mathlib.Algebra.GroupWithZero.Nat
import Mathlib.Algebra.Order.BigOperators.Group.Finset

namespace LayeredDiagram.Graph

open Relation

theorem edgeCount_eq (g : Graph) :
    g.edgeCount = ∑ u ∈ Finset.range g.outgoing.size, (g.targets u).length := by
  refine Array.foldl_induction
    (fun k n => n = ∑ u ∈ Finset.range k, (g.targets u).length) rfl fun u n hn => ?_
  rw [Finset.sum_range_succ, hn]
  simp [targets_eq_listAt, listAt]

namespace Search

variable {g : Graph} {s s' : Search} {u v w fuel : Nat} {roots : List Nat}
  {below : List Frame}

structure Sound (g : Graph) (s : Search) : Prop where
  stacked   : s.Stacked g
  ordered   : s.Ordered
  accounted : s.Accounted g

namespace Sound

theorem moves (h : s.Sound g) (hm : Moves g s s') : s'.Sound g where
  stacked   := h.stacked.moves hm
  ordered   := h.ordered.moves h.stacked hm
  accounted := h.accounted.moves h.ordered h.stacked hm

theorem colour_start : (start g).colour u = if u < g.size then .white else .black := by
  simp only [colour, start, Array.getElem?_replicate]
  split <;> rfl

theorem listAt_start : listAt (start g).kept u = [] :=
  listAt_replicate ..

theorem not_leads_start : ¬Leads (start g).kept u v := by
  simp [Leads, listAt_start]

theorem start (g : Graph) : (start g).Sound g where
  stacked := {
    colours_size := Array.size_replicate
    kept_size    := Array.size_replicate
    nodup        := .nil
    grey_iff u   := by
      rw [colour_start]
      split <;> simp [nodes, Search.start]
  }
  ordered := {
    path           := .nil
    white_kept _ _ := listAt_start
    not_white _ _  := (absurd · not_leads_start)
    black _ _      := (absurd · not_leads_start)
    upward _ _     := (absurd · not_leads_start)
    acyclic _ h    :=
      have ⟨_, e, _⟩ := TransGen.head'_iff.mp h
      not_leads_start e
  }
  accounted := {
    stack_read        := nofun
    black_read _ hu h := by simp [colour_start, hu] at h
  }

-- A root is entered where no other node is grey.
theorem enter (h : s.Sound g) (hs : s.stack = []) (hv : s.colour v = .white) :
    (s.enter g v).Sound g := by
  have hn : s.nodes = [] := by simp [nodes, hs]
  have hgrey (u : Nat) : s.colour u ≠ .grey := by simp [h.stacked.grey_iff, hn]
  have hk := h.ordered.white_kept v hv
  have hto (x y : Nat) (e : Leads s.kept x y) : y ≠ v :=
    fun hy => h.ordered.not_white x y e (hy ▸ hv)
  have hfrom (x y : Nat) (e : Leads s.kept x y) : x ≠ v := by
    rintro rfl
    simp [Leads, hk] at e
  refine ⟨h.stacked.enter hv, ⟨?_, fun x hx => ?_, fun x y e => ?_, fun x y e hx => ?_,
    fun x y e hx => ?_, h.ordered.acyclic⟩, h.accounted.enter hv hk⟩
  case refine_1 => simp [hn]
  all_goals simp only [colour_enter hv] at *
  case refine_2 =>
    split at hx
    case isTrue  => cases hx
    case isFalse => exact h.ordered.white_kept x hx
  case refine_3 => simpa [hto x y e] using h.ordered.not_white x y e
  case refine_4 =>
    rw [if_neg (hfrom x y e)] at hx
    simpa [hto x y e] using h.ordered.black x y e hx
  case refine_5 =>
    rw [if_neg (hfrom x y e)] at hx
    exact absurd hx (hgrey x)

end Sound

-- The white nodes are still to be entered, read to the end and left.
def unseen (g : Graph) (s : Search) : Nat :=
  ∑ u ∈ (Finset.range g.size).filter (s.colour · = .white), ((g.targets u).length + 1)

def pending (s : Search) : Nat :=
  (s.stack.map fun f => f.rest.length + 1).sum

-- What is left to be done: nodes to enter and to leave, targets to read. Each step takes one unit
-- off it.
def work (g : Graph) (s : Search) : Nat :=
  s.unseen g + s.pending

theorem unseen_enter (h : s.Stacked g) (hv : s.colour v = .white) :
    (s.enter g v).unseen g + ((g.targets v).length + 1) = s.unseen g := by
  have hw : v ∈ (Finset.range g.size).filter (s.colour · = .white) := by
    have hlt := lt_of_colour_ne_black (by simp [hv] : s.colour v ≠ .black)
    simpa [hv] using h.colours_size ▸ hlt
  have he : (Finset.range g.size).filter ((s.enter g v).colour · = .white) =
      ((Finset.range g.size).filter (s.colour · = .white)).erase v := by
    ext u
    by_cases hu : u = v <;> simp [colour_enter hv, hu]
  rw [unseen, unseen, he, Finset.sum_erase_add _ _ hw]

theorem unseen_leave (hu : s.colour u = .grey) : (s.leave u below).unseen g = s.unseen g := by
  have he : (Finset.range g.size).filter ((s.leave u below).colour · = .white) =
      (Finset.range g.size).filter (s.colour · = .white) := by
    ext w
    by_cases hw : w = u <;> simp [hw, hu]
  rw [unseen, unseen, he]

theorem work_enter (h : s.Stacked g) (hv : s.colour v = .white) :
    (s.enter g v).work g = s.work g := by
  have := unseen_enter h hv
  simp only [work, pending, Search.enter, List.map_cons, List.sum_cons] at *
  omega

theorem work_moves (h : s.Stacked g) (hm : Moves g s s') : s'.work g + 1 = s.work g := by
  have hread {u v rest below} (hs : s.stack = ⟨u, v :: rest⟩ :: below) :
      ((s.advance u rest below).keep u v).work g + 1 = s.work g := by
    have hu : ((s.advance u rest below).keep u v).unseen g = s.unseen g := rfl
    rw [work, work, hu, pending, pending, hs]
    simp only [keep, advance, List.map_cons, List.sum_cons, List.length_cons]
    omega
  cases hm with
  | drop hs _   => exact hread hs
  | pass hs _   => exact hread hs
  | enter hs hv => rw [work_enter (h.keep hs) hv, hread hs]
  | leave hs    =>
    rw [work, work, unseen_leave (h.grey_of_stack hs), pending, pending, hs]
    simp [leave]
    omega

theorem unseen_le (hs : g.outgoing.size = g.size) : s.unseen g ≤ g.size + g.edgeCount := by
  calc s.unseen g
    _ ≤ ∑ u ∈ Finset.range g.size, ((g.targets u).length + 1) :=
      Finset.sum_le_sum_of_subset (Finset.filter_subset ..)
    _ = g.size + g.edgeCount := by
      rw [Finset.sum_add_distrib, edgeCount_eq, hs]
      simp [add_comm]

-- What every step keeps, a search keeps.
theorem drain_induction {P : Search → Prop} (hP : ∀ s s', P s → Moves g s s' → P s') (h : P s) :
    P (drain g fuel s) := by
  induction fuel generalizing s with
  | zero         => exact h
  | succ fuel hi =>
    unfold drain
    split
    case isTrue     => exact h
    case isFalse hs => exact hi (hP s _ h (moves_step (mt List.isEmpty_iff.mpr hs)))

theorem drain_of_stack (hs : s.stack = []) : drain g fuel s = s := by
  cases fuel <;> simp [drain, hs]

theorem drain_of_moves (hm : Moves g s s') : drain g (fuel + 1) s = drain g fuel s' := by
  simp [drain, hm.stack_ne_nil, hm.step_eq]

-- Two searches that go the same way, one of them with steps of its own in between, come to ends
-- that correspond.
theorem drain_simulation {g' : Graph} {R : Search → Search → Prop} {t : Search} {fuel' : Nat}
    (hstack : ∀ s t, R s t → s.stack = [] → t.stack = [])
    (hmoves : ∀ s s' t, R s t → Moves g s s' → R s' t ∨ ∃ t', Moves g' t t' ∧ R s' t')
    (h : R s t) (hd : (drain g fuel s).stack = []) (hd' : (drain g' fuel' t).stack = []) :
    R (drain g fuel s) (drain g' fuel' t) := by
  induction fuel generalizing s t fuel' with
  | zero =>
    rw [drain_of_stack (hstack s t h hd)]
    exact h
  | succ fuel hi =>
    by_cases hs : s.stack = []
    case pos =>
      rw [drain_of_stack hs, drain_of_stack (hstack s t h hs)]
      exact h
    case neg =>
      have hm := moves_step (g := g) hs
      rw [drain_of_moves hm] at hd ⊢
      obtain h | ⟨t', hm', h⟩ := hmoves _ _ _ h hm
      case inl => exact hi h hd hd'
      case inr =>
        cases fuel' with
        | zero => exact absurd hd' hm'.stack_ne_nil
        | succ fuel' =>
          rw [drain_of_moves hm'] at hd' ⊢
          exact hi h hd hd'

-- Fuel for the work that is left is enough.
theorem stack_drain (h : s.Sound g) (hf : s.work g ≤ fuel) : (drain g fuel s).stack = [] := by
  induction fuel generalizing s with
  | zero =>
    unfold drain
    have : s.pending = 0 := by unfold work at hf; omega
    cases hs : s.stack <;> simp_all [pending]
  | succ fuel hi =>
    unfold drain
    split
    case isTrue hs  => exact List.isEmpty_iff.mp hs
    case isFalse hs =>
      have hm := moves_step (g := g) (mt List.isEmpty_iff.mpr hs)
      have := work_moves h.stacked hm
      exact hi (h.moves hm) (by omega)

theorem colour_moves (hm : Moves g s s') (hw : s.colour w ≠ .white) : s'.colour w ≠ .white := by
  cases hm with
  | drop _ _    => exact hw
  | pass _ _    => exact hw
  | leave _     => rw [colour_leave]; split <;> simp [hw]
  | @enter u v rest below _ hv =>
    rw [colour_enter (s := (s.advance u rest below).keep u v) hv]
    split <;> simp [hw]

-- Between visits the stack is empty.
structure Idle (g : Graph) (s : Search) : Prop where
  sound : s.Sound g
  stack : s.stack = []

namespace Idle

theorem start (g : Graph) : (Search.start g).Idle g :=
  ⟨.start g, rfl⟩

theorem visit (h : s.Idle g) (hg : g.outgoing.size = g.size) (root : Nat) :
    (visit g (g.size + g.edgeCount) s root).Idle g := by
  unfold Search.visit
  split
  case isFalse   => exact h
  case isTrue hw =>
    have he := h.sound.enter h.stack hw
    have hf : (s.enter g root).work g ≤ g.size + g.edgeCount := by
      rw [work_enter h.sound.stacked hw, work, pending, h.stack]
      exact unseen_le hg
    exact ⟨drain_induction (fun _ _ => Sound.moves) he, stack_drain he hf⟩

end Idle

theorem colour_visit (hw : s.colour w ≠ .white) (root : Nat) :
    (visit g fuel s root).colour w ≠ .white := by
  unfold visit
  split
  case isFalse   => exact hw
  case isTrue hr =>
    refine drain_induction (fun _ _ h hm => colour_moves hm h) ?_
    rw [colour_enter hr]
    split <;> simp [hw]

theorem colour_visit_root (root : Nat) : (visit g fuel s root).colour root ≠ .white := by
  unfold visit
  split
  case isFalse h => exact h
  case isTrue hr =>
    exact drain_induction (fun _ _ h hm => colour_moves hm h) (by simp [colour_enter hr])

theorem foldl_visit (h : s.Idle g) (hg : g.outgoing.size = g.size) :
    (roots.foldl (visit g (g.size + g.edgeCount)) s).Idle g := by
  induction roots generalizing s with
  | nil             => exact h
  | cons root _ hi  => exact hi (h.visit hg root)

theorem colour_foldl_visit (hw : s.colour w ≠ .white ∨ w ∈ roots) :
    (roots.foldl (visit g fuel) s).colour w ≠ .white := by
  induction roots generalizing s with
  | nil => simpa using hw
  | cons root roots hi =>
    apply hi
    obtain hw | hw := hw
    case inl => exact .inl (colour_visit hw root)
    case inr =>
      cases hw
      case head    => exact .inl (colour_visit_root w)
      case tail hw => exact .inr hw

theorem run_idle (hg : g.outgoing.size = g.size) (roots : List Nat) : (run g roots).Idle g :=
  foldl_visit (.start g) hg

theorem run_black (hg : g.outgoing.size = g.size) (hu : u < g.size) :
    (run g roots).colour u = .black := by
  have h := run_idle hg roots
  have hw : (run g roots).colour u ≠ .white := colour_foldl_visit (.inr (by simp [hu]))
  have hn := h.sound.stacked.grey_iff u
  simp only [nodes, h.stack, List.map_nil, List.not_mem_nil, iff_false] at hn
  cases hc : (run g roots).colour u <;> simp_all

end Search

-- As many of the edges as there can be without a cycle, in their order.
structure MaximalAcyclic (kept lists : Array (Array Nat)) : Prop where
  sublist : ∀ u, (listAt kept u).Sublist (listAt lists u)
  acyclic : Acyclic (Leads kept)
  -- Where an occurrence of an edge is dropped, it would close a cycle.
  dropped : ∀ u v, (listAt kept u).count v < (listAt lists u).count v →
    ReflTransGen (Leads kept) v u

namespace MaximalAcyclic

variable {kept lists : Array (Array Nat)}

theorem leads (h : MaximalAcyclic kept lists) {u v : Nat} (e : Leads kept u v) : Leads lists u v :=
  (h.sublist u).mem e

theorem eq_iff (h : MaximalAcyclic kept lists) (hs : kept.size = lists.size) :
    kept = lists ↔ Acyclic (Leads lists) := by
  constructor
  case mp  => exact (· ▸ h.acyclic)
  case mpr =>
    intro ha
    refine ext_listAt hs fun u => (h.sublist u).eq_of_length_le ?_
    refine (List.subperm_ext_iff.mpr fun v hv => ?_).length_le
    by_contra hc
    have hr := h.dropped u v (Nat.lt_of_not_le hc)
    exact ha u (.head' hv (ReflTransGen.mono (fun _ _ => h.leads) _ _ hr))

end MaximalAcyclic

variable {g : Graph} {p : Plan}

theorem forward_size (g : Graph) (hg : g.outgoing.size = g.size) (roots : List Nat) :
    (g.forward roots).size = g.size :=
  (Search.run_idle hg roots).sound.stacked.kept_size

theorem forward_maximalAcyclic (hg : g.outgoing.size = g.size) (roots : List Nat) :
    MaximalAcyclic (g.forward roots) g.outgoing := by
  have hs := (Search.run_idle hg roots).sound
  have hread (u : Nat) : (listAt (g.forward roots) u).Sublist (g.targets u) ∧
      ∀ v, (listAt (g.forward roots) u).count v < (g.targets u).count v →
        ReflTransGen (Leads (g.forward roots)) v u := by
    by_cases hu : u < g.size
    case pos =>
      have ⟨read, ht, hsub, hback⟩ := hs.accounted.black_read u hu (Search.run_black hg hu)
      rw [List.append_nil] at ht
      exact ⟨ht ▸ hsub, ht ▸ hback⟩
    case neg =>
      have hk := forward_size g hg roots
      simp [targets_eq_listAt, listAt_of_size_le, hg, hk, Nat.le_of_not_lt hu]
  exact ⟨fun u => (hread u).left, hs.ordered.acyclic, fun u => (hread u).right⟩

theorem outgoing_size_of_ofPlan (h : ofPlan p = .ok g) : g.outgoing.size = g.size := by
  rw [(indexes_of_ofPlan h).outgoing_size, (indexes_of_ofPlan h).size_eq]

-- Whatever the roots are, the search keeps as much as it can, and everything if it may.
theorem forward_maximal (h : ofPlan p = .ok g) (roots : List Nat) :
    MaximalAcyclic (g.forward roots) g.outgoing ∧
      (g.forward roots = g.outgoing ↔ Acyclic (Leads g.outgoing)) := by
  have hg := outgoing_size_of_ofPlan h
  have hm := forward_maximalAcyclic hg roots
  exact ⟨hm, hm.eq_iff (by rw [forward_size g hg, hg])⟩

theorem forward_maximal_twoWays : ∃ g, ofPlan .twoWays = .ok g ∧
    MaximalAcyclic (g.forward [2, 2]) g.outgoing ∧ g.forward [2, 2] ≠ g.outgoing := by
  have ⟨g, h, hg⟩ := ofPlan_of_valid (p := .twoWays) (by decide)
  have ⟨hm, hiff⟩ := forward_maximal h [2, 2]
  have hloop : Leads g.outgoing 3 3 := by
    have ht : g.targets 3 = [3] := hg.targets_eq "d" (by decide)
    simp [Leads, ← targets_eq_listAt, ht]
  exact ⟨g, h, hm, fun he => hiff.mp he 3 (.single hloop)⟩

end LayeredDiagram.Graph
