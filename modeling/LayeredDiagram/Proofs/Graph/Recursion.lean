import LayeredDiagram.Proofs.Graph.Forward

namespace LayeredDiagram.Graph

open Relation

-- How far a search has come: what it has seen, and what it has kept.
structure Marks where
  colours : Array Colour
  kept : Array (Array Nat)

namespace Marks

def start (g : Graph) : Marks where
  colours := Array.replicate g.size .white
  kept := Array.replicate g.size #[]

-- There is nothing to see outside the graph.
def colour (m : Marks) (u : Nat) : Colour :=
  m.colours[u]?.getD .black

def paint (m : Marks) (u : Nat) (c : Colour) : Marks :=
  { m with colours := m.colours.setIfInBounds u c }

def keep (m : Marks) (u v : Nat) : Marks :=
  { m with kept := m.kept.modify u (·.push v) }

def whites (m : Marks) : Nat :=
  m.colours.count .white

-- Marks that a search may come to from `m`: no node becomes white again.
structure Later (m : Marks) extends Marks where
  whites_le : toMarks.whites ≤ m.whites

variable {m : Marks} {g : Graph} {u v w : Nat} {vs : List Nat} {c : Colour}

theorem whites_paint_le (hc : c ≠ .white) : (m.paint u c).whites ≤ m.whites := by
  simp only [whites, paint, Array.setIfInBounds]
  split
  case isTrue  => simp [Array.count_set, hc]
  case isFalse => exact le_rfl

theorem whites_paint_lt (hu : m.colour u = .white) (hc : c ≠ .white) :
    (m.paint u c).whites < m.whites := by
  have hlt : u < m.colours.size := by
    by_contra hn
    simp [colour, Nat.le_of_not_lt hn] at hu
  have hw : m.colours[u] = .white := by simpa [colour, hlt] using hu
  have hpos : 0 < m.colours.count .white := Array.count_pos_iff.mpr (hw ▸ Array.getElem_mem hlt)
  simp only [whites, paint, Array.setIfInBounds, dif_pos hlt]
  simp only [Array.count_set, hw, beq_self_eq_true, beq_eq_false_iff_ne.mpr hc]
  exact Nat.sub_lt hpos Nat.one_pos

mutual

-- A white node is painted grey, its targets are read in order, and it is painted black. A grey
-- target is dropped; any other one is kept, and explored before the next one is read. A node that
-- is not white has been explored before, or is being explored.
def explore (m : Marks) (g : Graph) (u : Nat) : m.Later :=
  if m.colour u = .white then
    let ⟨m', h⟩ := (m.paint u .grey).read g u (g.targets u)
    have hgrey := whites_paint_le (m := m) (u := u) (c := .grey) nofun
    have hblack := whites_paint_le (m := m') (u := u) (c := .black) nofun
    ⟨m'.paint u .black, hblack.trans (h.trans hgrey)⟩
  else ⟨m, le_rfl⟩
termination_by (m.whites, 0)
decreasing_by exact .left _ _ (whites_paint_lt ‹m.colour u = .white› nofun)

def read (m : Marks) (g : Graph) (u : Nat) (vs : List Nat) : m.Later :=
  match vs with
  | [] => ⟨m, le_rfl⟩
  | v :: vs =>
    if m.colour v = .grey then m.read g u vs
    else
      let ⟨m₁, h₁⟩ := (m.keep u v).explore g v
      let ⟨m₂, h₂⟩ := m₁.read g u vs
      ⟨m₂, h₂.trans h₁⟩
termination_by (m.whites, vs.length)
decreasing_by
  · exact .right _ (Nat.lt_succ_self _)
  · exact .right _ (Nat.succ_pos _)
  · exact .right' _ h₁ (Nat.lt_succ_self _)

end

-- The roots in their order, and then every node that is still white.
def run (g : Graph) (roots : List Nat) : Marks :=
  (roots ++ List.range g.size).foldl (fun m root => (m.explore g root).toMarks) (start g)

@[simp]
theorem colour_keep : (m.keep u v).colour w = m.colour w :=
  rfl

theorem colour_paint (h : m.colour u ≠ .black ∨ c = .black) :
    (m.paint u c).colour w = if w = u then c else m.colour w := by
  simp only [colour, paint, Array.getElem?_setIfInBounds, eq_comm (a := u)]
  by_cases hwu : w = u
  case neg => simp [hwu]
  case pos =>
    by_cases hu : u < m.colours.size
    case pos => simp [hwu, hu]
    case neg =>
      have hc := h.resolve_left (absurd (by simp [colour, Nat.le_of_not_lt hu]))
      simp [hwu, hu, hc]

theorem listAt_keep (hu : u < m.kept.size) : listAt (m.keep u v).kept w =
    if w = u then listAt m.kept u ++ [v] else listAt m.kept w :=
  listAt_modify_push hu

theorem listAt_keep_of_ne (hwu : w ≠ u) : listAt (m.keep u v).kept w = listAt m.kept w := by
  simp [listAt, keep, Array.getElem?_modify, Ne.symm hwu]

theorem explore_of_white (hu : m.colour u = .white) : (m.explore g u).toMarks =
    ((m.paint u .grey).read g u (g.targets u)).toMarks.paint u .black := by
  rw [explore, if_pos hu]

theorem explore_of_not_white (hu : m.colour u ≠ .white) : (m.explore g u).toMarks = m := by
  rw [explore, if_neg hu]

theorem read_nil : (m.read g u []).toMarks = m := by
  rw [read]

theorem read_of_grey (hv : m.colour v = .grey) :
    (m.read g u (v :: vs)).toMarks = (m.read g u vs).toMarks := by
  rw [read, if_pos hv]

theorem read_of_not_grey (hv : m.colour v ≠ .grey) : (m.read g u (v :: vs)).toMarks =
    (((m.keep u v).explore g v).toMarks.read g u vs).toMarks := by
  rw [read, if_neg hv]

-- What holds of a node once it holds of the reading of its targets, and of that reading once it
-- holds of each step of it. By induction on the white nodes, and on the targets among equals.
theorem induct {explores : Marks → Nat → Prop} {reads : Marks → Nat → List Nat → Prop}
    (stays : ∀ m u, m.colour u ≠ .white → explores m u)
    (enters : ∀ m u, m.colour u = .white → reads (m.paint u .grey) u (g.targets u) → explores m u)
    (ends : ∀ m u, reads m u [])
    (drops : ∀ m u v vs, m.colour v = .grey → reads m u vs → reads m u (v :: vs))
    (keeps : ∀ m u v vs, m.colour v ≠ .grey → explores (m.keep u v) v →
      reads ((m.keep u v).explore g v).toMarks u vs → reads m u (v :: vs)) :
    (∀ m u, explores m u) ∧ ∀ m u vs, reads m u vs := by
  have hreads (n : Nat) (hi : ∀ m u, m.whites ≤ n → explores m u) (vs : List Nat) :
      ∀ m u, m.whites ≤ n → reads m u vs := by
    induction vs with
    | nil           => exact fun m u _ => ends m u
    | cons v vs hvs =>
      intro m u hm
      by_cases hv : m.colour v = .grey
      case pos => exact drops m u v vs hv (hvs m u hm)
      case neg =>
        have hle := ((m.keep u v).explore g v).whites_le
        exact keeps m u v vs hv (hi (m.keep u v) v hm) (hvs _ u (hle.trans hm))
  have hexplores (n : Nat) : ∀ m u, m.whites = n → explores m u := by
    induction n using Nat.strong_induction_on with
    | _ n hi =>
      rintro m u rfl
      by_cases hu : m.colour u = .white
      case neg => exact stays m u hu
      case pos =>
        have hlt := whites_paint_lt hu (c := .grey) nofun
        have hless (m' : Marks) (u' : Nat) (hle : m'.whites ≤ _) : explores m' u' :=
          hi _ (hle.trans_lt hlt) m' u' rfl
        exact enters m u hu (hreads _ hless _ _ u le_rfl)
  exact ⟨fun m u => hexplores _ m u rfl,
    fun m u vs => hreads _ (fun m' u' _ => hexplores _ m' u' rfl) vs m u le_rfl⟩

-- The search that has come as far as `m`, with `stack` on its stack.
def on (m : Marks) (stack : List Frame) : Search where
  colours := m.colours
  kept := m.kept
  stack := stack

-- The top of the stack is read to its end and left, and what is below is not touched.
theorem runs : (∀ (m : Marks) u, m.colour u = .white → ∀ below, ReflTransGen (Search.Moves g)
      ((m.paint u .grey).on (⟨u, g.targets u⟩ :: below)) ((m.explore g u).toMarks.on below)) ∧
    ∀ (m : Marks) u vs below, ReflTransGen (Search.Moves g) (m.on (⟨u, vs⟩ :: below))
      (((m.read g u vs).toMarks.paint u .black).on below) := by
  apply induct
  case stays => exact fun m u hu hw => absurd hw hu
  case enters =>
    intro m u hu hread _ below
    rw [explore_of_white hu]
    exact hread below
  case ends =>
    intro m u below
    rw [read_nil]
    exact .single (.leave rfl)
  case drops =>
    intro m u v vs hv hread below
    rw [read_of_grey hv]
    exact .head (.drop rfl hv) (hread below)
  case keeps =>
    intro m u v vs hv hexplore hread below
    rw [read_of_not_grey hv]
    cases hc : m.colour v with
    | grey  => exact absurd hc hv
    | white => exact .head (.enter rfl hc) ((hexplore hc (⟨u, vs⟩ :: below)).trans (hread below))
    | black =>
      rw [explore_of_not_white (by simp [hc])] at hread ⊢
      exact .head (.pass rfl hc) (hread below)

end Marks

namespace Search

variable {g : Graph} {s s' : Search} {m : Marks} {fuel : Nat} {roots : List Nat}

-- With enough fuel a search comes to the end of its moves.
theorem drain_eq_of_runs (h : ReflTransGen (Moves g) s s') (hs : s'.stack = [])
    (hd : (drain g fuel s).stack = []) : drain g fuel s = s' := by
  induction h using ReflTransGen.head_induction_on generalizing fuel with
  | refl         => exact drain_of_stack hs
  | head hm _ hi =>
    cases fuel with
    | zero      => exact absurd hd hm.stack_ne_nil
    | succ fuel =>
      rw [drain_of_moves hm] at hd ⊢
      exact hi hd

theorem visit_on (h : (m.on []).Idle g) (hg : g.outgoing.size = g.size) (root : Nat) :
    visit g (g.size + g.edgeCount) (m.on []) root = (m.explore g root).toMarks.on [] := by
  have hd := (h.visit hg root).stack
  unfold visit at hd ⊢
  split
  case isFalse hw => rw [Marks.explore_of_not_white hw]
  case isTrue hw  =>
    rw [if_pos hw] at hd
    exact drain_eq_of_runs (Marks.runs.left m root hw []) rfl hd

theorem foldl_visit_on (h : (m.on []).Idle g) (hg : g.outgoing.size = g.size) :
    roots.foldl (visit g (g.size + g.edgeCount)) (m.on []) =
      (roots.foldl (fun m root => (m.explore g root).toMarks) m).on [] := by
  induction roots generalizing m with
  | nil               => rfl
  | cons root roots hi =>
    have hv := visit_on h hg root
    rw [List.foldl_cons, List.foldl_cons, hv]
    exact hi (hv ▸ h.visit hg root)

theorem run_on (hg : g.outgoing.size = g.size) : run g roots = (Marks.run g roots).on [] :=
  foldl_visit_on (m := .start g) (.start g) hg

end Search

-- From whatever roots, the search with a stack keeps what the recursive one keeps.
theorem forward_eq_kept {p : Plan} {g : Graph} (h : ofPlan p = .ok g) (roots : List Nat) :
    g.forward roots = (Marks.run g roots).kept := by
  rw [forward, Search.run_on (outgoing_size_of_ofPlan h)]
  rfl

-- The roots are a node that stands below the first one, the same node again, and none of the graph.
theorem forward_eq_kept_twoWays : ∃ g, ofPlan .twoWays = .ok g ∧
    (Marks.run g [2, 2, 7]).kept = #[#[3, 1, 1], #[], #[3, 1], #[]] := by
  have hf : (ofPlan .twoWays).map (fun g => g.forward [2, 2, 7]) =
      .ok #[#[3, 1, 1], #[], #[3, 1], #[]] := by cbv
  obtain ⟨g, h, _⟩ := ofPlan_of_valid (p := .twoWays) (by decide)
  rw [h] at hf
  exact ⟨g, h, (forward_eq_kept h [2, 2, 7]).symm.trans (Except.ok.inj hf)⟩

end LayeredDiagram.Graph
