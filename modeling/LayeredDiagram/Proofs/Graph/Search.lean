import LayeredDiagram.Graph.Forward
import LayeredDiagram.Proofs.Graph.Indexing
import LayeredDiagram.Proofs.Graph.Walk
import Mathlib.Algebra.BigOperators.Group.Finset.Basic

namespace LayeredDiagram.Graph.Search

open Relation

-- The nodes on the stack, the topmost first.
def nodes (s : Search) : List Nat :=
  s.stack.map (·.node)

def advance (u : Nat) (rest : List Nat) (below : List Frame) (s : Search) : Search :=
  { s with stack := ⟨u, rest⟩ :: below }

-- What a step can do: leave a node, drop an edge, keep one to a black node, or follow one.
inductive Moves (g : Graph) (s : Search) : Search → Prop
  | leave {u below} : s.stack = ⟨u, []⟩ :: below → Moves g s (s.leave u below)
  | drop {u v rest below} : s.stack = ⟨u, v :: rest⟩ :: below → s.colour v = .grey →
    Moves g s (s.advance u rest below)
  | pass {u v rest below} : s.stack = ⟨u, v :: rest⟩ :: below → s.colour v = .black →
    Moves g s ((s.advance u rest below).keep u v)
  | enter {u v rest below} : s.stack = ⟨u, v :: rest⟩ :: below → s.colour v = .white →
    Moves g s (((s.advance u rest below).keep u v).enter g v)

variable {g : Graph} {s s' : Search} {u v w : Nat} {rest : List Nat} {below : List Frame}

theorem moves_step (h : s.stack ≠ []) : Moves g s (s.step g) := by
  unfold step
  split
  case h_1 hs => exact absurd hs h
  case h_2 hs => exact .leave hs
  case h_3 u v rest below hs =>
    dsimp only
    split
    case h_1 hv => exact .drop hs hv
    case h_2 hv => exact .enter hs hv
    case h_3 hv => exact .pass hs hv

theorem Moves.stack_ne_nil (h : Moves g s s') : s.stack ≠ [] := by
  cases h <;> simp_all

theorem Moves.step_eq (h : Moves g s s') : s.step g = s' := by
  cases h with
  | leave hs => simp [step, hs]
  | @drop u v rest below hs hv | @pass u v rest below hs hv | @enter u v rest below hs hv =>
    have hv' : (s.advance u rest below).colour v = _ := hv
    rw [advance] at hv'
    simp only [step, hs, hv', advance]

@[simp]
theorem colour_advance : (s.advance u rest below).colour w = s.colour w :=
  rfl

@[simp]
theorem colour_keep : (s.keep u v).colour w = s.colour w :=
  rfl

@[simp]
theorem colour_leave : (s.leave u below).colour w = if w = u then .black else s.colour w := by
  simp only [colour, leave, Array.getElem?_setIfInBounds, eq_comm (a := u)]
  split
  case isTrue  => split <;> rfl
  case isFalse => rfl

theorem lt_of_colour_ne_black (h : s.colour u ≠ .black) : u < s.colours.size := by
  by_contra hu
  exact h (by simp [colour, Nat.le_of_not_lt hu])

theorem colour_enter (h : s.colour v = .white) :
    (s.enter g v).colour w = if w = v then .grey else s.colour w := by
  have hv : v < s.colours.size := lt_of_colour_ne_black (by simp [h])
  simp only [colour, enter, Array.getElem?_setIfInBounds, eq_comm (a := v)]
  split
  case isTrue  => simp
  case isFalse => rfl

theorem nodes_of_stack {f : Frame} (h : s.stack = f :: below) :
    s.nodes = f.node :: below.map (·.node) := by
  simp [nodes, h]

theorem nodes_advance (h : s.stack = ⟨u, v :: rest⟩ :: below) :
    (s.advance u rest below).nodes = s.nodes := by
  simp [nodes, advance, h]

@[simp]
theorem nodes_keep : (s.keep u v).nodes = s.nodes :=
  rfl

@[simp]
theorem nodes_enter : (s.enter g v).nodes = v :: s.nodes :=
  rfl

@[simp]
theorem nodes_leave : (s.leave u below).nodes = below.map (·.node) :=
  rfl

-- The stack holds each grey node once.
structure Stacked (g : Graph) (s : Search) : Prop where
  colours_size : s.colours.size = g.size
  kept_size    : s.kept.size = g.size
  nodup        : s.nodes.Nodup
  grey_iff     : ∀ u, s.colour u = .grey ↔ u ∈ s.nodes

namespace Stacked

theorem grey_of_stack {f : Frame} (h : s.Stacked g) (hs : s.stack = f :: below) :
    s.colour f.node = .grey := by
  simp [h.grey_iff, nodes_of_stack hs]

theorem lt_of_stack {f : Frame} (h : s.Stacked g) (hs : s.stack = f :: below) :
    f.node < g.size := by
  rw [← h.colours_size]
  exact lt_of_colour_ne_black (by simp [h.grey_of_stack hs])

theorem listAt_keep (h : s.Stacked g) (hs : s.stack = ⟨u, v :: rest⟩ :: below) :
    listAt ((s.advance u rest below).keep u v).kept w =
      if w = u then listAt s.kept u ++ [v] else listAt s.kept w :=
  listAt_modify_push (by simpa [advance, h.kept_size] using h.lt_of_stack hs)

theorem leads_keep {x y : Nat} (h : s.Stacked g) (hs : s.stack = ⟨u, v :: rest⟩ :: below) :
    Leads ((s.advance u rest below).keep u v).kept x y ↔ Leads s.kept x y ∨ (x = u ∧ y = v) := by
  rw [Leads, h.listAt_keep hs]
  split
  case isTrue hx  => simp [hx, Leads]
  case isFalse hx => simp [hx, Leads]

theorem enter (h : s.Stacked g) (hv : s.colour v = .white) : (s.enter g v).Stacked g where
  colours_size := by simpa [Search.enter] using h.colours_size
  kept_size    := h.kept_size
  nodup        := List.nodup_cons.mpr ⟨fun hm => by simp [h.grey_iff v |>.mpr hm] at hv, h.nodup⟩
  grey_iff w   := by
    rw [colour_enter hv, nodes_enter, List.mem_cons, ← h.grey_iff]
    by_cases hw : w = v <;> simp [hw]

theorem advance (h : s.Stacked g) (hs : s.stack = ⟨u, v :: rest⟩ :: below) :
    (s.advance u rest below).Stacked g where
  colours_size := h.colours_size
  kept_size    := h.kept_size
  nodup        := nodes_advance hs ▸ h.nodup
  grey_iff     := nodes_advance hs ▸ h.grey_iff

theorem keep (h : s.Stacked g) (hs : s.stack = ⟨u, v :: rest⟩ :: below) :
    ((s.advance u rest below).keep u v).Stacked g where
  colours_size := h.colours_size
  kept_size    := by simpa [Search.keep] using (h.advance hs).kept_size
  nodup        := (h.advance hs).nodup
  grey_iff     := (h.advance hs).grey_iff

theorem leave (h : s.Stacked g) (hs : s.stack = ⟨u, []⟩ :: below) :
    (s.leave u below).Stacked g := by
  have hn := h.nodup
  rw [nodes_of_stack hs, List.nodup_cons] at hn
  refine ⟨by simpa [Search.leave] using h.colours_size, h.kept_size, hn.right, fun w => ?_⟩
  rw [colour_leave, nodes_leave]
  by_cases hw : w = u
  case pos => simpa [hw] using hn.left
  case neg => simp [hw, h.grey_iff, nodes_of_stack hs]

theorem moves (h : s.Stacked g) (hm : Moves g s s') : s'.Stacked g := by
  cases hm with
  | leave hs    => exact h.leave hs
  | drop hs _   => exact h.advance hs
  | pass hs _   => exact h.keep hs
  | enter hs hv => exact (h.keep hs).enter hv

end Stacked

-- Kept edges lead from black nodes to black nodes only, and from grey nodes to black nodes or
-- further up the stack.
structure Ordered (s : Search) : Prop where
  -- From each node on the stack to the one above it.
  path       : s.nodes.IsChain fun upper lower => Leads s.kept lower upper
  white_kept : ∀ u, s.colour u = .white → listAt s.kept u = []
  not_white  : ∀ u v, Leads s.kept u v → s.colour v ≠ .white
  black      : ∀ u v, Leads s.kept u v → s.colour u = .black → s.colour v = .black
  upward     : ∀ u v, Leads s.kept u v → s.colour u = .grey → s.colour v = .grey →
    [v, u].Sublist s.nodes
  acyclic    : Acyclic (Leads s.kept)

namespace Ordered

-- Every node on the stack reaches the topmost one.
theorem reaches_top (h : s.Ordered) {f : Frame} (hs : s.stack = f :: below) (hv : v ∈ s.nodes) :
    ReflTransGen (Leads s.kept) v f.node := by
  have hp := h.path
  rw [nodes_of_stack hs] at hp hv
  generalize f.node = u, below.map (·.node) = us at hp hv
  induction us generalizing u with
  | nil => exact List.mem_singleton.mp hv ▸ .refl
  | cons w us hi =>
    have ⟨e, hp⟩ := List.isChain_cons_cons.mp hp
    cases hv
    case head   => exact .refl
    case tail hv => exact (hi w hp hv).tail e

-- Nothing on the stack is reached from a node that was left.
theorem reaches_black (h : s.Ordered) (hr : ReflTransGen (Leads s.kept) u v)
    (hu : s.colour u = .black) : s.colour v = .black := by
  induction hr with
  | refl        => exact hu
  | tail _ e hi => exact h.black _ _ e hi

-- No edge that is kept now leads back to the top of the stack.
theorem not_reaches_top (h : s.Ordered) (hu : s.colour u = .grey) (hv : s.colour v ≠ .grey) :
    ¬ReflTransGen (Leads s.kept) v u := by
  intro hr
  cases hc : s.colour v
  case grey  => exact hv hc
  case black => simp [h.reaches_black hr hc] at hu
  case white =>
    obtain rfl | ⟨w, e, _⟩ := hr.cases_head
    · simp [hc] at hu
    · simp [Leads, h.white_kept v hc] at e

theorem leave (h : s.Ordered) (hg : s.Stacked g) (hs : s.stack = ⟨u, []⟩ :: below) :
    (s.leave u below).Ordered := by
  have hn := nodes_of_stack hs
  have hu : u ∉ below.map (·.node) := (List.nodup_cons.mp (hn ▸ hg.nodup)).left
  have hgrey := hg.grey_of_stack hs
  -- The kept edges of the top lead to black nodes: there is nothing above it.
  have htop (w : Nat) (e : Leads s.kept u w) : s.colour w = .black := by
    cases hw : s.colour w
    case black => rfl
    case white => exact absurd hw (h.not_white u w e)
    case grey  =>
      have := h.upward u w e hgrey hw
      rw [hn] at this
      cases this
      case cons hl       => exact absurd (hl.mem (by simp)) hu
      case cons_cons hl  => exact absurd (hl.mem (by simp)) hu
  refine ⟨?_, fun x hx => ?_, fun x y e => ?_, fun x y e hx => ?_, fun x y e hx hy => ?_, h.acyclic⟩
  case refine_1 => exact (hn ▸ h.path).tail
  all_goals simp only [colour_leave] at *
  case refine_2 =>
    split at hx
    case isTrue  => nomatch hx
    case isFalse => exact h.white_kept x hx
  case refine_3 =>
    split
    case isTrue  => simp
    case isFalse => exact h.not_white x y e
  case refine_4 =>
    split
    case isTrue  => rfl
    case isFalse =>
      split at hx
      case isTrue hxu => exact htop y (hxu ▸ e)
      case isFalse    => exact h.black x y e hx
  case refine_5 =>
    split at hx <;> split at hy <;> try contradiction
    case isFalse.isFalse hyu =>
      have := h.upward x y e hx hy
      rw [hn] at this
      cases this
      case cons hl => exact hl
      case cons_cons => exact absurd rfl hyu

-- The top of the stack keeps an edge to a node that is not grey.
theorem keep_acyclic (h : s.Ordered) (hg : s.Stacked g) (hs : s.stack = ⟨u, v :: rest⟩ :: below)
    (hv : s.colour v ≠ .grey) : Acyclic (Leads ((s.advance u rest below).keep u v).kept) :=
  h.acyclic.add_edge (fun _ _ => (hg.leads_keep hs).mp)
    (h.not_reaches_top (hg.grey_of_stack hs) hv)

theorem keep_path (h : s.Ordered) (hg : s.Stacked g) (hs : s.stack = ⟨u, v :: rest⟩ :: below) :
    s.nodes.IsChain fun upper lower => Leads ((s.advance u rest below).keep u v).kept lower upper :=
  h.path.imp fun _ _ e => (hg.leads_keep hs).mpr (.inl e)

theorem keep_white_kept (h : s.Ordered) (hg : s.Stacked g)
    (hs : s.stack = ⟨u, v :: rest⟩ :: below) (hw : s.colour w = .white) :
    listAt ((s.advance u rest below).keep u v).kept w = [] := by
  have hwu : w ≠ u := fun hwu => by simp [hwu, hg.grey_of_stack hs] at hw
  rw [hg.listAt_keep hs, if_neg hwu]
  exact h.white_kept w hw

theorem pass (h : s.Ordered) (hg : s.Stacked g) (hs : s.stack = ⟨u, v :: rest⟩ :: below)
    (hv : s.colour v = .black) : ((s.advance u rest below).keep u v).Ordered := by
  have hk (x y : Nat) := hg.leads_keep (x := x) (y := y) hs
  refine ⟨?_, fun x hx => h.keep_white_kept hg hs hx, fun x y e => ?_, fun x y e hx => ?_,
    fun x y e hx hy => ?_, h.keep_acyclic hg hs (by simp [hv])⟩
  case refine_1 => simpa [nodes_advance hs] using h.keep_path hg hs
  all_goals
    simp only [colour_keep, colour_advance, nodes_keep, nodes_advance hs] at *
    obtain e | ⟨rfl, rfl⟩ := (hk x y).mp e
  case refine_2.inl => exact h.not_white x y e
  case refine_2.inr => simp [hv]
  case refine_3.inl => exact h.black x y e hx
  case refine_3.inr => exact hv
  case refine_4.inl => exact h.upward x y e hx hy
  case refine_4.inr => simp [hv] at hy

theorem enter (h : s.Ordered) (hg : s.Stacked g) (hs : s.stack = ⟨u, v :: rest⟩ :: below)
    (hv : s.colour v = .white) : (((s.advance u rest below).keep u v).enter g v).Ordered := by
  have hk (x y : Nat) := hg.leads_keep (x := x) (y := y) hs
  have hc (x : Nat) := colour_enter (g := g) (s := (s.advance u rest below).keep u v) (w := x) hv
  have hn : ((s.advance u rest below).keep u v).nodes = s.nodes := nodes_advance hs
  have hgrey := hg.grey_of_stack hs
  -- No edge is kept to or from `v` yet.
  have hto (x y : Nat) (e : Leads s.kept x y) : y ≠ v := fun hy => h.not_white x y e (hy ▸ hv)
  have hfrom (x y : Nat) (e : Leads s.kept x y) : x ≠ v := by
    rintro rfl
    simp [Leads, h.white_kept x hv] at e
  refine ⟨?_, fun x hx => ?_, fun x y e => ?_, fun x y e hx => ?_, fun x y e hx hy => ?_,
    h.keep_acyclic hg hs (by simp [hv])⟩
  case refine_1 =>
    have hp := h.keep_path hg hs
    rw [nodes_enter, hn, nodes_of_stack hs] at *
    exact .cons_cons ((hk u v).mpr (.inr ⟨rfl, rfl⟩)) hp
  case refine_2 =>
    rw [hc] at hx
    split at hx
    case isTrue  => cases hx
    case isFalse => exact h.keep_white_kept hg hs hx
  all_goals
    simp only [hc, nodes_enter, hn, colour_keep, colour_advance] at *
    obtain e | ⟨rfl, rfl⟩ := (hk x y).mp e
  case refine_3.inl => simpa [hto x y e] using h.not_white x y e
  case refine_3.inr => simp
  case refine_4.inl =>
    rw [if_neg (hfrom x y e)] at hx
    simpa [hto x y e] using h.black x y e hx
  case refine_4.inr =>
    split at hx <;> simp [hgrey] at hx
  case refine_5.inl =>
    rw [if_neg (hfrom x y e)] at hx
    rw [if_neg (hto x y e)] at hy
    exact (h.upward x y e hx hy).cons v
  case refine_5.inr =>
    exact .cons_cons y (List.singleton_sublist.mpr ((hg.grey_iff x).mp hgrey))

theorem moves (h : s.Ordered) (hg : s.Stacked g) (hm : Moves g s s') : s'.Ordered := by
  cases hm with
  | leave hs    => exact h.leave hg hs
  | pass hs hv  => exact h.pass hg hs hv
  | enter hs hv => exact h.enter hg hs hv
  | drop hs _   =>
    have hn := nodes_advance hs
    exact ⟨hn ▸ h.path, h.white_kept, h.not_white, h.black, hn ▸ h.upward, h.acyclic⟩

end Ordered

-- The targets of `u` in front of `rest` are kept, or dropped where they lead back to `u`.
def HasRead (g : Graph) (s : Search) (u : Nat) (rest : List Nat) : Prop :=
  ∃ read, g.targets u = read ++ rest ∧ (listAt s.kept u).Sublist read ∧
    ∀ v, (listAt s.kept u).count v < read.count v → ReflTransGen (Leads s.kept) v u

namespace HasRead

theorem mono (h : s.HasRead g u rest) (hl : listAt s'.kept u = listAt s.kept u)
    (hm : ∀ x y, Leads s.kept x y → Leads s'.kept x y) : s'.HasRead g u rest := by
  have ⟨read, ht, hsub, hback⟩ := h
  exact ⟨read, ht, hl ▸ hsub, fun w hw => ReflTransGen.mono hm _ _ (hback w (hl ▸ hw))⟩

theorem drop (h : s.HasRead g u (v :: rest)) (hr : ReflTransGen (Leads s.kept) v u) :
    s.HasRead g u rest := by
  have ⟨read, ht, hsub, hback⟩ := h
  refine ⟨read ++ [v], by simpa using ht, hsub.trans (List.sublist_append_left ..), fun w hw => ?_⟩
  by_cases hwv : w = v
  case pos => exact hwv ▸ hr
  case neg => exact hback w (by simpa [List.count_singleton, Ne.symm hwv] using hw)

theorem keep (h : s.HasRead g u (v :: rest)) (hl : listAt s'.kept u = listAt s.kept u ++ [v])
    (hm : ∀ x y, Leads s.kept x y → Leads s'.kept x y) : s'.HasRead g u rest := by
  have ⟨read, ht, hsub, hback⟩ := h
  refine ⟨read ++ [v], by simpa using ht, hl ▸ hsub.append (List.Sublist.refl _), fun w hw => ?_⟩
  rw [hl, List.count_append, List.count_append] at hw
  exact ReflTransGen.mono hm _ _ (hback w (by omega))

end HasRead

structure Accounted (g : Graph) (s : Search) : Prop where
  stack_read : ∀ f ∈ s.stack, s.HasRead g f.node f.rest
  black_read : ∀ u < g.size, s.colour u = .black → s.HasRead g u []

namespace Accounted

theorem leave (h : s.Accounted g) (hs : s.stack = ⟨u, []⟩ :: below) :
    (s.leave u below).Accounted g where
  stack_read f hf  := h.stack_read f (hs ▸ List.mem_cons_of_mem _ hf)
  black_read w hw hc := by
    by_cases hwu : w = u
    case pos => exact hwu ▸ h.stack_read ⟨u, []⟩ (hs ▸ List.mem_cons_self)
    case neg => exact h.black_read w hw (by simpa [hwu] using hc)

theorem drop (h : s.Accounted g) (ho : s.Ordered) (hg : s.Stacked g)
    (hs : s.stack = ⟨u, v :: rest⟩ :: below) (hv : s.colour v = .grey) :
    (s.advance u rest below).Accounted g where
  stack_read f hf := by
    cases hf
    case head =>
      have hr := ho.reaches_top hs ((hg.grey_iff v).mp hv)
      exact (h.stack_read ⟨u, v :: rest⟩ (hs ▸ List.mem_cons_self)).drop hr
    case tail hf => exact h.stack_read f (hs ▸ List.mem_cons_of_mem _ hf)
  black_read := h.black_read

theorem keep (h : s.Accounted g) (hg : s.Stacked g) (hs : s.stack = ⟨u, v :: rest⟩ :: below) :
    ((s.advance u rest below).keep u v).Accounted g := by
  have hl (w : Nat) := hg.listAt_keep (w := w) hs
  have hm (x y : Nat) (e : Leads s.kept x y) :
      Leads ((s.advance u rest below).keep u v).kept x y :=
    (hg.leads_keep hs).mpr (.inl e)
  refine ⟨fun f hf => ?_, fun w hw hc => ?_⟩
  case refine_1 =>
    cases hf
    case head =>
      have hr := h.stack_read ⟨u, v :: rest⟩ (hs ▸ List.mem_cons_self)
      exact hr.keep (by simp [hl]) hm
    case tail hf =>
      have hn := (List.nodup_cons.mp (nodes_of_stack hs ▸ hg.nodup)).left
      have hfu : f.node ≠ u := fun hfu => hn (hfu ▸ List.mem_map.mpr ⟨f, hf, rfl⟩)
      have hr := h.stack_read f (hs ▸ List.mem_cons_of_mem _ hf)
      exact hr.mono (by rw [hl, if_neg hfu]) hm
  case refine_2 =>
    have hwu : w ≠ u := fun hwu => by simp [hwu, hg.grey_of_stack hs] at hc
    exact (h.black_read w hw hc).mono (by rw [hl, if_neg hwu]) hm

theorem enter (h : s.Accounted g) (hv : s.colour v = .white) (hk : listAt s.kept v = []) :
    (s.enter g v).Accounted g where
  stack_read f hf := by
    cases hf
    case head    => exact ⟨[], rfl, hk ▸ List.Sublist.refl _, by simp⟩
    case tail hf => exact h.stack_read f hf
  black_read w hw hc := by
    rw [colour_enter hv] at hc
    split at hc
    case isTrue  => nomatch hc
    case isFalse => exact h.black_read w hw hc

theorem moves (h : s.Accounted g) (ho : s.Ordered) (hg : s.Stacked g) (hm : Moves g s s') :
    s'.Accounted g := by
  cases hm with
  | leave hs    => exact h.leave hs
  | drop hs hv  => exact h.drop ho hg hs hv
  | pass hs _   => exact h.keep hg hs
  | enter hs hv => exact (h.keep hg hs).enter hv (ho.keep_white_kept hg hs hv)

end Accounted

end LayeredDiagram.Graph.Search
