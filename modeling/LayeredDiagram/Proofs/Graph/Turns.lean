import LayeredDiagram.Proofs.Graph.Forward
import LayeredDiagram.Proofs.Layout.Indexed

namespace LayeredDiagram.Graph.Search

inductive Event where
  -- The node is put on the stack.
  | enter (u : Nat)
  -- The node is taken from the stack.
  | leave (u : Nat)
  -- The edge is read, and kept or dropped.
  | keep (u v : Nat)
  | drop (u v : Nat)
deriving DecidableEq, Repr

namespace Event

def entered? : Event → Option Nat
  | enter u => some u
  | _ => none

def left? : Event → Option Nat
  | leave u => some u
  | _ => none

-- Where a kept edge from `u` leads.
def kept? (u : Nat) : Event → Option Nat
  | keep w v => if w = u then some v else none
  | _ => none

def dropped? (u : Nat) : Event → Option Nat
  | drop w v => if w = u then some v else none
  | _ => none

def read? (u : Nat) (e : Event) : Option Nat :=
  (e.kept? u).or (e.dropped? u)

end Event

def entered (es : List Event) : List Nat :=
  es.filterMap Event.entered?

def left (es : List Event) : List Nat :=
  es.filterMap Event.left?

def keptFrom (u : Nat) (es : List Event) : List Nat :=
  es.filterMap (Event.kept? u)

def droppedFrom (u : Nat) (es : List Event) : List Nat :=
  es.filterMap (Event.dropped? u)

-- The targets that are read from `u`, in the order in which they are read.
def readFrom (u : Nat) (es : List Event) : List Nat :=
  es.filterMap (Event.read? u)

-- What the next turn of the loop does.
def turn (s : Search) : List Event :=
  match s.stack with
  | [] => []
  | ⟨u, []⟩ :: _ => [.leave u]
  | ⟨u, v :: _⟩ :: _ =>
    match s.colour v with
    | .grey => [.drop u v]
    | .white => [.keep u v, .enter v]
    | .black => [.keep u v]

-- The loop: how many turns it takes until the stack is empty, and what they do.
inductive Drains (g : Graph) : Search → Nat → List Event → Search → Prop
  | rest {s} : s.stack = [] → Drains g s 0 [] s
  | turn {s n es s'} : s.stack ≠ [] → Drains g (s.step g) n es s' →
    Drains g s (n + 1) (s.turn ++ es) s'

-- The loops of the roots, one after the other. A root that is not white any more has none.
inductive Visits (g : Graph) : Search → List Nat → Nat → List Event → Search → Prop
  | done {s} : Visits g s [] 0 [] s
  | skip {s root roots n es s'} : s.colour root ≠ .white → Visits g s roots n es s' →
    Visits g s (root :: roots) n es s'
  | enter {s root roots m n es fs s' s''} : s.colour root = .white →
    Drains g (s.enter g root) m es s' → Visits g s' roots n fs s'' →
    Visits g s (root :: roots) (m + n) (.enter root :: es ++ fs) s''

variable {g : Graph} {s s' t : Search} {u v w m n fuel : Nat} {rest roots : List Nat}
  {below : List Frame} {es fs : List Event}

theorem Drains.unique (h : Drains g s n es s') (h' : Drains g s m fs t) :
    n = m ∧ es = fs ∧ s' = t := by
  induction h generalizing m fs with
  | rest hs =>
    cases h' with
    | rest       => exact ⟨rfl, rfl, rfl⟩
    | turn hs' _ => exact absurd hs hs'
  | turn hs _ hi =>
    cases h' with
    | rest hs'   => exact absurd hs' hs
    | turn _ h'  =>
      obtain ⟨rfl, rfl, rfl⟩ := hi h'
      exact ⟨rfl, rfl, rfl⟩

theorem Visits.unique (h : Visits g s roots n es s') (h' : Visits g s roots m fs t) :
    n = m ∧ es = fs ∧ s' = t := by
  induction h generalizing m fs with
  | done =>
    cases h'
    exact ⟨rfl, rfl, rfl⟩
  | skip hw _ hi =>
    cases h' with
    | skip _ h'     => exact hi h'
    | enter hw' _ _ => exact absurd hw' hw
  | enter hw hd _ hi =>
    cases h' with
    | skip hw' _     => exact absurd hw hw'
    | enter _ hd' h' =>
      obtain ⟨rfl, rfl, rfl⟩ := hd.unique hd'
      obtain ⟨rfl, rfl, rfl⟩ := hi h'
      exact ⟨rfl, rfl, rfl⟩

-- A loop that has come to its end with the fuel it was given comes to it without fuel as well.
theorem exists_drains (hd : (drain g fuel s).stack = []) :
    ∃ n es, Drains g s n es (drain g fuel s) := by
  induction fuel generalizing s with
  | zero         => exact ⟨0, [], .rest hd⟩
  | succ fuel hi =>
    by_cases hs : s.stack = []
    case pos =>
      rw [drain_of_stack hs]
      exact ⟨0, [], .rest hs⟩
    case neg =>
      rw [drain_of_moves (moves_step hs)] at hd ⊢
      have ⟨n, es, h⟩ := hi hd
      exact ⟨n + 1, _, .turn hs h⟩

theorem exists_visits (h : s.Idle g) (hg : g.outgoing.size = g.size) (roots : List Nat) :
    ∃ n es, Visits g s roots n es (roots.foldl (visit g (g.size + g.edgeCount)) s) := by
  induction roots generalizing s with
  | nil                => exact ⟨0, [], .done⟩
  | cons root roots hi =>
    obtain ⟨n, fs, hv⟩ := hi (h.visit hg root)
    by_cases hw : s.colour root = .white
    case neg =>
      rw [List.foldl_cons]
      rw [visit, if_neg hw] at hv ⊢
      exact ⟨n, fs, .skip hw hv⟩
    case pos =>
      have hd := (h.visit hg root).stack
      rw [List.foldl_cons]
      rw [visit, if_pos hw] at hd hv ⊢
      obtain ⟨m, es, hd⟩ := exists_drains hd
      exact ⟨m + n, _, .enter hw hd hv⟩

@[simp]
theorem entered_append : entered (es ++ fs) = entered es ++ entered fs :=
  List.filterMap_append

@[simp]
theorem left_append : left (es ++ fs) = left es ++ left fs :=
  List.filterMap_append

@[simp]
theorem keptFrom_append : keptFrom u (es ++ fs) = keptFrom u es ++ keptFrom u fs :=
  List.filterMap_append

@[simp]
theorem readFrom_append : readFrom u (es ++ fs) = readFrom u es ++ readFrom u fs :=
  List.filterMap_append

theorem keptFrom_keep : keptFrom w [.keep u v] = if w = u then [v] else [] := by
  by_cases hw : w = u <;> simp [keptFrom, Event.kept?, hw, eq_comm (a := u)]

theorem readFrom_keep : readFrom w [.keep u v] = if w = u then [v] else [] := by
  by_cases hw : w = u <;>
    simp [readFrom, Event.read?, Event.kept?, Event.dropped?, hw, eq_comm (a := u)]

theorem readFrom_drop : readFrom w [.drop u v] = if w = u then [v] else [] := by
  by_cases hw : w = u <;>
    simp [readFrom, Event.read?, Event.kept?, Event.dropped?, hw, eq_comm (a := u)]

theorem Event.dropped?_of_kept? {e : Event} (h : e.kept? u = some v) : e.dropped? u = none := by
  cases e with
  | keep w v                     => rfl
  | enter w | leave w | drop w v => nomatch h

-- What is read is kept or else dropped.
theorem readFrom_perm : (readFrom u es).Perm (keptFrom u es ++ droppedFrom u es) := by
  induction es with
  | nil          => exact .nil
  | cons e es hi =>
    simp only [readFrom, keptFrom, droppedFrom, List.filterMap_cons, Event.read?] at hi ⊢
    cases hk : e.kept? u with
    | some v =>
      rw [Event.dropped?_of_kept? hk]
      exact hi.cons v
    | none   =>
      cases e.dropped? u with
      | none   => exact hi
      | some v => exact (hi.cons v).trans List.perm_middle.symm

-- Each node that is not white has been entered once, and each one that is black left once.
structure Counted (g : Graph) (s : Search) (es : List Event) : Prop where
  entered_nodup : (entered es).Nodup
  mem_entered   : ∀ u, u ∈ entered es ↔ u < g.size ∧ s.colour u ≠ .white
  left_nodup    : (left es).Nodup
  mem_left      : ∀ u, u ∈ left es ↔ u < g.size ∧ s.colour u = .black

namespace Counted

theorem start (g : Graph) : (start g).Counted g [] where
  entered_nodup := .nil
  mem_entered u := by simp [entered, Sound.colour_start]
  left_nodup    := .nil
  mem_left u    := by simp [left, Sound.colour_start]

theorem enter (h : s.Counted g es) (hg : s.Stacked g) (hv : s.colour v = .white) :
    (s.enter g v).Counted g (es ++ [.enter v]) := by
  have hlt : v < g.size := hg.colours_size ▸ lt_of_colour_ne_black (by simp [hv])
  have hentered : entered (es ++ [.enter v]) = entered es ++ [v] := entered_append
  have hleft : left (es ++ [.enter v]) = left es := left_append.trans (List.append_nil _)
  have hnew : v ∉ entered es := fun hm => ((h.mem_entered v).mp hm).right hv
  constructor
  case entered_nodup =>
    rw [hentered]
    exact h.entered_nodup.append (List.nodup_singleton v) (by simpa using hnew)
  case mem_entered =>
    intro u
    rw [hentered, List.mem_append, List.mem_singleton, h.mem_entered, colour_enter hv]
    by_cases hu : u = v <;> simp [hu, hlt]
  case left_nodup => exact hleft ▸ h.left_nodup
  case mem_left   =>
    intro u
    rw [hleft, h.mem_left, colour_enter hv]
    by_cases hu : u = v <;> simp [hu, hv]

theorem leave (h : s.Counted g es) (hg : s.Stacked g) (hs : s.stack = ⟨u, []⟩ :: below) :
    (s.leave u below).Counted g (es ++ [.leave u]) := by
  have hgrey : s.colour u = .grey := hg.grey_of_stack hs
  have hlt : u < g.size := hg.lt_of_stack hs
  have hentered : entered (es ++ [.leave u]) = entered es :=
    entered_append.trans (List.append_nil _)
  have hleft : left (es ++ [.leave u]) = left es ++ [u] := left_append
  have hnew : u ∉ left es := fun hm => by simpa [hgrey] using (h.mem_left u).mp hm
  constructor
  case entered_nodup => exact hentered ▸ h.entered_nodup
  case mem_entered   =>
    intro w
    rw [hentered, h.mem_entered, colour_leave]
    by_cases hw : w = u <;> simp [hw, hgrey]
  case left_nodup =>
    rw [hleft]
    exact h.left_nodup.append (List.nodup_singleton u) (by simpa using hnew)
  case mem_left =>
    intro w
    rw [hleft, List.mem_append, List.mem_singleton, h.mem_left, colour_leave]
    by_cases hw : w = u <;> simp [hw, hlt]

-- To read an edge is neither to enter a node nor to leave one.
theorem read (h : s.Counted g es) (hentered : entered fs = []) (hleft : left fs = [])
    (hcolour : ∀ w, s'.colour w = s.colour w) : s'.Counted g (es ++ fs) := by
  constructor <;> simp only [entered_append, left_append, hentered, hleft, List.append_nil, hcolour]
  case entered_nodup => exact h.entered_nodup
  case mem_entered   => exact h.mem_entered
  case left_nodup    => exact h.left_nodup
  case mem_left      => exact h.mem_left

theorem perm_entered (h : s.Counted g es) (hb : ∀ u, s.colour u = .black) :
    (entered es).Perm (List.range g.size) := by
  refine (List.perm_ext_iff_of_nodup h.entered_nodup List.nodup_range).mpr fun u => ?_
  simp [h.mem_entered, hb]

theorem perm_left (h : s.Counted g es) (hb : ∀ u, s.colour u = .black) :
    (left es).Perm (List.range g.size) := by
  refine (List.perm_ext_iff_of_nodup h.left_nodup List.nodup_range).mpr fun u => ?_
  simp [h.mem_left, hb]

end Counted

-- How far the targets of each node have been read, and which of them are kept.
structure Traced (g : Graph) (s : Search) (es : List Event) : Prop where
  stack_read  : ∀ f ∈ s.stack, readFrom f.node es ++ f.rest = g.targets f.node
  black_read  : ∀ u, s.colour u = .black → readFrom u es = g.targets u
  white_read  : ∀ u, s.colour u = .white → readFrom u es = []
  keptFrom_eq : ∀ u, keptFrom u es = listAt s.kept u

namespace Traced

theorem start (hg : g.outgoing.size = g.size) : (start g).Traced g [] where
  stack_read      := nofun
  black_read u hu := by
    have hu : g.size ≤ u := by simpa [Sound.colour_start] using hu
    simp [readFrom, targets_eq_listAt, listAt_of_size_le, hg, hu]
  white_read _ _  := rfl
  keptFrom_eq u   := Sound.listAt_start.symm

theorem enter (h : s.Traced g es) (hv : s.colour v = .white) :
    (s.enter g v).Traced g (es ++ [.enter v]) := by
  have hread (u : Nat) : readFrom u (es ++ [.enter v]) = readFrom u es :=
    readFrom_append.trans (List.append_nil _)
  have hkept (u : Nat) : keptFrom u (es ++ [.enter v]) = keptFrom u es :=
    keptFrom_append.trans (List.append_nil _)
  have hother {u : Nat} {c : Colour} (hc : c ≠ .grey) (hu : (s.enter g v).colour u = c) :
      s.colour u = c := by
    rw [colour_enter hv] at hu
    split at hu
    case isTrue  => exact absurd hu.symm hc
    case isFalse => exact hu
  constructor <;> simp only [hread, hkept]
  case stack_read =>
    intro f hf
    cases hf
    case head    => exact congrArg (· ++ g.targets v) (h.white_read v hv)
    case tail hf => exact h.stack_read f hf
  case black_read  => exact fun u hu => h.black_read u (hother nofun hu)
  case white_read  => exact fun u hu => h.white_read u (hother nofun hu)
  case keptFrom_eq => exact h.keptFrom_eq

theorem leave (h : s.Traced g es) (hs : s.stack = ⟨u, []⟩ :: below) :
    (s.leave u below).Traced g (es ++ [.leave u]) := by
  have hread (w : Nat) : readFrom w (es ++ [.leave u]) = readFrom w es :=
    readFrom_append.trans (List.append_nil _)
  have hkept (w : Nat) : keptFrom w (es ++ [.leave u]) = keptFrom w es :=
    keptFrom_append.trans (List.append_nil _)
  constructor <;> simp only [hread, hkept, colour_leave]
  case stack_read => exact fun f hf => h.stack_read f (hs ▸ List.mem_cons_of_mem _ hf)
  case black_read =>
    intro w hw
    by_cases hwu : w = u
    case pos => simpa [hwu] using h.stack_read ⟨u, []⟩ (hs ▸ List.mem_cons_self)
    case neg => exact h.black_read w (by simpa [hwu] using hw)
  case white_read =>
    intro w hw
    by_cases hwu : w = u
    case pos => simp [hwu] at hw
    case neg => exact h.white_read w (by simpa [hwu] using hw)
  case keptFrom_eq => exact h.keptFrom_eq

-- Of the node on top one more target has been read, of the others none.
theorem read (h : s.Traced g es) (hg : s.Stacked g) (hs : s.stack = ⟨u, v :: rest⟩ :: below)
    (hread : ∀ w, readFrom w fs = if w = u then [v] else [])
    (hstack : s'.stack = ⟨u, rest⟩ :: below) (hcolour : ∀ w, s'.colour w = s.colour w)
    (hkept : ∀ w, keptFrom w (es ++ fs) = listAt s'.kept w) : s'.Traced g (es ++ fs) := by
  have hgrey := hg.grey_of_stack hs
  have hother {w : Nat} (hw : w ≠ u) : readFrom w (es ++ fs) = readFrom w es := by
    simp [hread, hw]
  have hne {w : Nat} (hw : s.colour w ≠ .grey) : w ≠ u := fun he => hw (he ▸ hgrey)
  constructor
  case stack_read =>
    intro f hf
    rw [hstack] at hf
    cases hf
    case head =>
      have ht := h.stack_read ⟨u, v :: rest⟩ (hs ▸ List.mem_cons_self)
      simpa [hread] using ht
    case tail hf =>
      have hn := (List.nodup_cons.mp (nodes_of_stack hs ▸ hg.nodup)).left
      have hne : f.node ≠ u := fun he => hn (he ▸ List.mem_map.mpr ⟨f, hf, rfl⟩)
      rw [hother hne]
      exact h.stack_read f (hs ▸ List.mem_cons_of_mem _ hf)
  case black_read =>
    intro w hw
    rw [hcolour] at hw
    exact (hother (hne (by simp [hw]))).trans (h.black_read w hw)
  case white_read =>
    intro w hw
    rw [hcolour] at hw
    exact (hother (hne (by simp [hw]))).trans (h.white_read w hw)
  case keptFrom_eq => exact hkept

end Traced

-- The events that have led to where a search stands.
structure Told (g : Graph) (s : Search) (es : List Event) : Prop where
  counted : s.Counted g es
  traced  : s.Traced g es

namespace Told

theorem enter (h : s.Told g es) (hg : s.Stacked g) (hv : s.colour v = .white) :
    (s.enter g v).Told g (es ++ [.enter v]) :=
  ⟨h.counted.enter hg hv, h.traced.enter hv⟩

theorem drop (h : s.Told g es) (hg : s.Stacked g) (hs : s.stack = ⟨u, v :: rest⟩ :: below) :
    (s.advance u rest below).Told g (es ++ [.drop u v]) := by
  have hkept (w : Nat) : keptFrom w (es ++ [.drop u v]) = listAt s.kept w :=
    (keptFrom_append.trans (List.append_nil _)).trans (h.traced.keptFrom_eq w)
  exact ⟨h.counted.read rfl rfl fun _ => rfl,
    h.traced.read hg hs (fun _ => readFrom_drop) rfl (fun _ => rfl) hkept⟩

theorem keep (h : s.Told g es) (hg : s.Stacked g) (hs : s.stack = ⟨u, v :: rest⟩ :: below) :
    ((s.advance u rest below).keep u v).Told g (es ++ [.keep u v]) := by
  have hkept (w : Nat) : keptFrom w (es ++ [.keep u v]) =
      listAt ((s.advance u rest below).keep u v).kept w := by
    rw [keptFrom_append, keptFrom_keep, hg.listAt_keep hs, h.traced.keptFrom_eq]
    by_cases hw : w = u <;> simp [hw]
  exact ⟨h.counted.read rfl rfl fun _ => rfl,
    h.traced.read hg hs (fun _ => readFrom_keep) rfl (fun _ => rfl) hkept⟩

-- A turn does what it is told to do.
theorem moves (h : s.Told g es) (hg : s.Stacked g) (hm : Moves g s s') :
    s'.Told g (es ++ s.turn) := by
  cases hm with
  | leave hs =>
    simp only [turn, hs]
    exact ⟨h.counted.leave hg hs, h.traced.leave hs⟩
  | drop hs hv =>
    simp only [turn, hs, hv]
    exact h.drop hg hs
  | pass hs hv =>
    simp only [turn, hs, hv]
    exact h.keep hg hs
  | @enter u v rest below hs hv =>
    simp only [turn, hs, hv]
    rw [List.append_cons]
    exact (h.keep hg hs).enter (hg.keep hs) hv

end Told

-- Each turn uses up one unit of the work, and all that is done is told.
theorem Drains.told (hd : Drains g s n fs s') (hs : s.Sound g) (h : s.Told g es) :
    s'.Idle g ∧ s'.Told g (es ++ fs) ∧ s'.work g + n = s.work g := by
  induction hd generalizing es with
  | rest hstack => exact ⟨⟨hs, hstack⟩, by rwa [List.append_nil], rfl⟩
  | turn hstack _ hi =>
    have hm := moves_step (g := g) hstack
    have hw := work_moves hs.stacked hm
    obtain ⟨hidle, htold, hwork⟩ := hi (hs.moves hm) (h.moves hs.stacked hm)
    exact ⟨hidle, by rwa [← List.append_assoc], by omega⟩

theorem Visits.told (hv : Visits g s roots n fs s') (hs : s.Idle g) (h : s.Told g es) :
    s'.Idle g ∧ s'.Told g (es ++ fs) ∧ s'.work g + n = s.work g := by
  induction hv generalizing es with
  | done        => exact ⟨hs, by rwa [List.append_nil], rfl⟩
  | skip _ _ hi => exact hi hs h
  | @enter s root roots m n es' fs s' s'' hw hd _ hi =>
    have he := h.enter hs.sound.stacked hw
    have hwork := work_enter (g := g) hs.sound.stacked hw
    obtain ⟨hidle, htold, hwork₁⟩ := hd.told (hs.sound.enter hs.stack hw) he
    obtain ⟨hidle, htold, hwork₂⟩ := hi hidle htold
    exact ⟨hidle, by simpa using htold, by omega⟩

theorem work_start (hg : g.outgoing.size = g.size) : (start g).work g = g.size + g.edgeCount := by
  have hall : (Finset.range g.size).filter ((start g).colour · = .white) = Finset.range g.size := by
    refine Finset.filter_true_of_mem fun u hu => ?_
    rw [Sound.colour_start, if_pos (Finset.mem_range.mp hu)]
  rw [work, unseen, hall, Finset.sum_add_distrib, edgeCount_eq, hg]
  simp [pending, start, add_comm]

theorem work_of_black (hb : ∀ u, s.colour u = .black) (hs : s.stack = []) : s.work g = 0 := by
  simp [work, unseen, hb, pending, hs]

-- What is not in the graph has never been white.
theorem colour_run (hg : g.outgoing.size = g.size) (roots : List Nat) (u : Nat) :
    (run g roots).colour u = .black := by
  by_contra hu
  have hlt := lt_of_colour_ne_black hu
  exact hu (run_black hg ((run_idle hg roots).sound.stacked.colours_size ▸ hlt))

theorem visits_run (hg : g.outgoing.size = g.size) (roots : List Nat) : ∃ es,
    Visits g (start g) (roots ++ List.range g.size) (g.size + g.edgeCount) es (run g roots) ∧
    (run g roots).Told g es := by
  obtain ⟨n, es, hv⟩ : ∃ n es,
      Visits g (start g) (roots ++ List.range g.size) n es (run g roots) :=
    exists_visits (.start g) hg _
  obtain ⟨hidle, htold, hwork⟩ := hv.told (.start g) ⟨.start g, .start hg⟩
  have hn : n = g.size + g.edgeCount := by
    rw [← work_start hg, ← hwork, work_of_black (colour_run hg roots) hidle.stack, Nat.zero_add]
  exact ⟨es, hn ▸ hv, htold⟩

end Search

open Search

variable {p : Plan} {g : Graph}

-- From whatever roots, the loops come to their end, in just one way: each node is entered once and
-- left once, the targets of each are read once, in edge order, and each edge that is read is kept
-- or else dropped.
theorem visits_exactly (h : ofPlan p = .ok g) (roots : List Nat) : ∃ es,
    (∀ turns es' s, Visits g (.start g) (roots ++ List.range g.size) turns es' s ↔
      turns = p.nodes.length + p.edges.length ∧ es' = es ∧ s = run g roots) ∧
    (entered es).Perm (List.range p.nodes.length) ∧ (left es).Perm (List.range p.nodes.length) ∧
    ∀ u, readFrom u es = g.targets u ∧ keptFrom u es = listAt (g.forward roots) u ∧
      (g.targets u).Perm (keptFrom u es ++ droppedFrom u es) := by
  have hg := outgoing_size_of_ofPlan h
  have hblack := colour_run hg roots
  have ⟨es, hv, htold⟩ := visits_run hg roots
  rw [← size_of_ofPlan h, ← (exact_of_ofPlan h).outgoingTotal]
  refine ⟨es, fun turns es' s => ⟨fun hv' => hv'.unique hv, ?comes⟩,
    htold.counted.perm_entered hblack, htold.counted.perm_left hblack, fun u => ?edges⟩
  case comes =>
    rintro ⟨rfl, rfl, rfl⟩
    exact hv
  case edges =>
    have hread := htold.traced.black_read u (hblack u)
    exact ⟨hread, htold.traced.keptFrom_eq u, hread ▸ readFrom_perm⟩

-- Four nodes and seven edges. The roots are a node that stands below the first one, the same node
-- again, and none of the graph.
theorem visits_exactly_twoWays : ∃ g es, ofPlan .twoWays = .ok g ∧
    Visits g (.start g) ([2, 2, 7] ++ List.range g.size) 11 es (run g [2, 2, 7]) ∧
    (entered es).Perm [0, 1, 2, 3] ∧ (left es).Perm [0, 1, 2, 3] ∧
    readFrom 0 es = [3, 1, 1] ∧ readFrom 3 es = [3] ∧ keptFrom 3 es = [] ∧
      droppedFrom 3 es = [3] := by
  obtain ⟨g, h, hg⟩ := ofPlan_of_valid (p := .twoWays) (by decide)
  obtain ⟨es, hv, hentered, hleft, hread⟩ := visits_exactly h [2, 2, 7]
  have hf : (ofPlan .twoWays).map (fun g => listAt (g.forward [2, 2, 7]) 3) = .ok [] := by cbv
  rw [h] at hf
  have h₀ : g.targets 0 = [3, 1, 1] := hg.targets_eq "a" (by decide)
  have h₃ : g.targets 3 = [3] := hg.targets_eq "d" (by decide)
  obtain ⟨hread₃, hforward₃, hperm₃⟩ := hread 3
  have hkept₃ : keptFrom 3 es = [] := hforward₃.trans (Except.ok.inj hf)
  rw [h₃, hkept₃, List.nil_append] at hperm₃
  exact ⟨g, es, h, (hv 11 es _).mpr ⟨rfl, rfl, rfl⟩, hentered, hleft, h₀ ▸ (hread 0).left,
    h₃ ▸ hread₃, hkept₃, List.perm_singleton.mp hperm₃.symm⟩

end LayeredDiagram.Graph
