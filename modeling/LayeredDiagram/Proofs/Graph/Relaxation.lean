import LayeredDiagram.Graph.Layering
import LayeredDiagram.Proofs.Graph.Indexing
import LayeredDiagram.Proofs.Graph.Walk
import LayeredDiagram.Proofs.Number.Value
import Mathlib.Algebra.BigOperators.Group.Finset.Piecewise
import Mathlib.Algebra.Order.BigOperators.Group.Finset
import Mathlib.Order.Bounds.Basic

namespace LayeredDiagram

namespace Queue

variable {α : Type} {q q' : Queue α} {a : α}

@[simp]
theorem toList_push : (q.push a).toList = q.toList ++ [a] := by
  simp [push, toList]

theorem toList_of_pop?_some (h : q.pop? = some (a, q')) : q.toList = a :: q'.toList := by
  unfold pop? at h
  split at h
  case h_1 hf =>
    cases h
    simp [toList, hf]
  case h_2 hf =>
    split at h
    case h_1 hb =>
      cases h
      simp [toList, hf, hb]
    case h_2 => nomatch h

theorem toList_of_pop?_none (h : q.pop? = none) : q.toList = [] := by
  unfold pop? at h
  split at h
  case h_1 => nomatch h
  case h_2 hf =>
    split at h
    case h_1    => nomatch h
    case h_2 hb => simp [toList, hf, hb]

end Queue

namespace Graph

theorem Cap.isExceededBy_mono {cap : Cap} {m n : Nat} (hmn : m ≤ n) (h : cap.isExceededBy m) :
    cap.isExceededBy n := by
  cases cap with
  | derived k =>
    simp only [isExceededBy, decide_eq_true_eq] at h ⊢
    omega
  | given x   => exact Number.exceeds_mono hmn h

namespace Relaxation

-- The way of a relaxation that no cap stops: how many nodes it takes, and where it comes to rest.
inductive Settles (forward : Array (Array Nat)) : Relaxation → Nat → Relaxation → Prop
  | rest {r} : r.queue.pop? = none → Settles forward r 0 r
  | take {r u queue n r'} : r.queue.pop? = some (u, queue) →
    Settles forward (relax forward u { r with queue }) n r' → Settles forward r (n + 1) r'

-- What makes a relaxation come to rest.
structure Relaxable (forward : Array (Array Nat)) (seeds : List Nat) (size : Nat) : Prop where
  acyclic  : Acyclic (Leads forward)
  bounded  : ∀ u v, Leads forward u v → v < size
  seeds_lt : ∀ s ∈ seeds, s < size

structure Sound (forward : Array (Array Nat)) (seeds : List Nat) (size : Nat) (r : Relaxation) :
    Prop where
  layers_size : r.layers.size = size
  reached     : ∀ v l, r.layer? v = some l → ∃ s ∈ seeds, Walk (Leads forward) s v l
  seeded      : ∀ s ∈ seeds, ∃ l, r.layer? s = some l
  queued      : ∀ u ∈ r.queue.toList, ∃ l, r.layer? u = some l
  -- What is not queued is below its targets.
  settled     : ∀ u l, r.layer? u = some l → u ∉ r.queue.toList →
    ∀ v, Leads forward u v → ∃ m, r.layer? v = some m ∧ l < m

variable {forward : Array (Array Nat)} {seeds vs : List Nat} {size u v w l n proposed : Nat}
variable {r r' : Relaxation} {queue : Queue Nat}

theorem layer?_raise (hv : v < r.layers.size) : (raise proposed r v).layer? w =
    if w = v ∧ isBelow (r.layer? w) proposed then some proposed else r.layer? w := by
  unfold raise
  by_cases hw : w = v
  case pos =>
    subst hw
    split
    case isTrue hb =>
      rw [if_pos ⟨rfl, hb⟩]
      simp [layer?, hv]
    case isFalse hb => simp [hb]
  case neg =>
    split
    case isTrue  => simp [layer?, Array.getElem?_setIfInBounds_ne (Ne.symm hw), hw]
    case isFalse => simp [hw]

theorem mem_queue_raise : w ∈ (raise proposed r v).queue.toList ↔
    w ∈ r.queue.toList ∨ (w = v ∧ isBelow (r.layer? w) proposed) := by
  unfold raise
  split
  case isTrue hb =>
    rw [Queue.toList_push, List.mem_append, List.mem_singleton]
    exact or_congr_right ⟨fun h => ⟨h, h ▸ hb⟩, And.left⟩
  case isFalse hb =>
    refine ⟨.inl, fun h => h.resolve_right fun ⟨hw, h⟩ => hb (hw ▸ h)⟩

@[simp]
theorem size_raise : (raise proposed r v).layers.size = r.layers.size := by
  unfold raise
  split <;> simp

theorem size_foldl_raise : (vs.foldl (raise proposed) r).layers.size = r.layers.size := by
  induction vs generalizing r with
  | nil          => rfl
  | cons v vs hi => simp [hi]

theorem not_isBelow_self : isBelow (some proposed) proposed = false := by
  simp [isBelow]

-- A target that occurs again is not raised again.
theorem layer?_foldl_raise (hvs : ∀ v ∈ vs, v < r.layers.size) :
    (vs.foldl (raise proposed) r).layer? w =
      if w ∈ vs ∧ isBelow (r.layer? w) proposed then some proposed else r.layer? w := by
  induction vs generalizing r with
  | nil => simp
  | cons v vs hi =>
    have hv := hvs v List.mem_cons_self
    rw [List.foldl_cons, hi (fun x hx => by simpa using hvs x (.tail _ hx)), layer?_raise hv]
    by_cases hw : w = v ∧ isBelow (r.layer? w) proposed
    case pos =>
      obtain ⟨rfl, hb⟩ := hw
      simp [hb, not_isBelow_self]
    case neg =>
      rw [if_neg hw]
      congr 1
      simp only [List.mem_cons, or_and_right, hw, false_or]

theorem mem_queue_foldl_raise (hvs : ∀ v ∈ vs, v < r.layers.size) :
    w ∈ (vs.foldl (raise proposed) r).queue.toList ↔
      w ∈ r.queue.toList ∨ (w ∈ vs ∧ isBelow (r.layer? w) proposed) := by
  induction vs generalizing r with
  | nil => simp
  | cons v vs hi =>
    have hv := hvs v List.mem_cons_self
    rw [List.foldl_cons, hi (fun x hx => by simpa using hvs x (.tail _ hx)), layer?_raise hv,
      mem_queue_raise]
    by_cases hw : w = v ∧ isBelow (r.layer? w) proposed
    case pos =>
      obtain ⟨rfl, hb⟩ := hw
      simp [hb]
    case neg =>
      simp only [hw, if_false, or_false, List.mem_cons, or_and_right, false_or]

theorem relax_eq (hu : r.layer? u = some l) :
    relax forward u r = (listAt forward u).foldl (raise (l + 1)) r := by
  simp [relax, listAt, hu]

theorem eq_or_lt_of_isBelow_false {layer? : Option Nat} (h : ¬isBelow layer? proposed) :
    ∃ m, layer? = some m ∧ proposed ≤ m := by
  cases layer? with
  | none   => exact absurd rfl h
  | some m => exact ⟨m, rfl, by simpa [isBelow] using h⟩

namespace Sound

variable (hr : Relaxable forward seeds size)
include hr

theorem walk_lt {s : Nat} (hs : s ∈ seeds) (hw : Walk (Leads forward) s v l) : l < size :=
  hw.length_lt hr.acyclic hr.bounded (hr.seeds_lt s hs)

-- One node is taken, and its targets are raised.
theorem take (h : r.Sound forward seeds size) (hp : r.queue.pop? = some (u, queue)) :
    (relax forward u { r with queue }).Sound forward seeds size := by
  have hq := Queue.toList_of_pop?_some hp
  have ⟨l, hl⟩ := h.queued u (by simp [hq])
  have hlt (v : Nat) (hv : v ∈ listAt forward u) : v < r.layers.size :=
    h.layers_size ▸ hr.bounded u v hv
  rw [relax_eq (r := { r with queue }) hl]
  have hlayer (w : Nat) : ((listAt forward u).foldl (raise (l + 1)) { r with queue }).layer? w =
      if w ∈ listAt forward u ∧ isBelow (r.layer? w) (l + 1) then some (l + 1) else r.layer? w :=
    layer?_foldl_raise (r := { r with queue }) hlt
  have hqueue (w : Nat) :
      w ∈ ((listAt forward u).foldl (raise (l + 1)) { r with queue }).queue.toList ↔
        w ∈ queue.toList ∨ (w ∈ listAt forward u ∧ isBelow (r.layer? w) (l + 1)) :=
    mem_queue_foldl_raise (r := { r with queue }) hlt
  -- No layer is lost, and none becomes smaller.
  have hmono (w m : Nat) (hw : r.layer? w = some m) : ∃ k,
      ((listAt forward u).foldl (raise (l + 1)) { r with queue }).layer? w = some k ∧ m ≤ k := by
    rw [hlayer, hw]
    split
    case isTrue hb  => exact ⟨l + 1, rfl, by simp [isBelow] at hb; omega⟩
    case isFalse hb => exact ⟨m, rfl, le_rfl⟩
  refine ⟨by simpa [size_foldl_raise] using h.layers_size, fun v m hm => ?_, fun s hs => ?_,
    fun w hw => ?_, fun w m hm hw v e => ?_⟩
  case refine_1 =>
    rw [hlayer] at hm
    split at hm
    case isFalse   => exact h.reached v m hm
    case isTrue hv =>
      have ⟨s, hs, hw⟩ := h.reached u l hl
      cases hm
      exact ⟨s, hs, hw.snoc hv.left⟩
  case refine_2 =>
    have ⟨m, hm⟩ := h.seeded s hs
    have ⟨k, hk, _⟩ := hmono s m hm
    exact ⟨k, hk⟩
  case refine_3 =>
    obtain hw | hw := (hqueue w).mp hw
    case inr => exact ⟨l + 1, by rw [hlayer, if_pos hw]⟩
    case inl =>
      have ⟨m, hm⟩ := h.queued w (hq ▸ .tail _ hw)
      have ⟨k, hk, _⟩ := hmono w m hm
      exact ⟨k, hk⟩
  case refine_4 =>
    -- What was raised is queued, so `w` keeps its layer.
    rw [hqueue, not_or] at hw
    rw [hlayer, if_neg hw.right] at hm
    by_cases hwu : w = u
    case pos =>
      obtain rfl : m = l := by simpa [hwu, hl] using hm.symm
      rw [hlayer]
      split
      case isTrue     => exact ⟨m + 1, rfl, m.lt_succ_self⟩
      case isFalse hb =>
        have hv : v ∈ listAt forward u := hwu ▸ e
        have ⟨k, hk, hle⟩ := eq_or_lt_of_isBelow_false fun hb' => hb ⟨hv, hb'⟩
        exact ⟨k, hk, hle⟩
    case neg =>
      have ⟨k, hk, hlt⟩ := h.settled w m hm (by simp [hq, hwu, hw.left]) v e
      have ⟨k', hk', hle⟩ := hmono v k hk
      exact ⟨k', hk', by omega⟩

omit hr in
-- At rest no walk from a seed is longer than the layer where it ends.
theorem le_layer (h : r.Sound forward seeds size) (hq : r.queue.toList = []) {s : Nat}
    (hs : s ∈ seeds) (hw : Walk (Leads forward) s v n) : ∃ m, r.layer? v = some m ∧ n ≤ m := by
  induction hw with
  | nil =>
    have ⟨m, hm⟩ := h.seeded s hs
    exact ⟨m, hm, m.zero_le⟩
  | snoc _ e hi =>
    have ⟨k, hk, hle⟩ := hi
    have ⟨m, hm, hlt⟩ := h.settled _ k hk (by simp [hq]) _ e
    exact ⟨m, hm, by omega⟩

end Sound

-- How often a node in a layer can still be raised: without a cycle, a walk has fewer edges than
-- there are nodes.
def room (size : Nat) : Option Nat → Nat
  | none   => size
  | some l => size - (l + 1)

-- How many nodes can still be taken. A raise takes from one summand what it adds to the other.
def potential (size : Nat) (r : Relaxation) : Nat :=
  r.queue.toList.length + ∑ u ∈ Finset.range size, room size (r.layer? u)

theorem room_lt_room {layer? : Option Nat} (hb : isBelow layer? proposed) (hp : proposed < size) :
    room size (some proposed) < room size layer? := by
  cases layer? with
  | none   => simp only [room]; omega
  | some m => simp [isBelow] at hb; simp only [room]; omega

theorem potential_raise_le (hv : v < r.layers.size) (hs : r.layers.size = size)
    (hp : proposed < size) : (raise proposed r v).potential size ≤ r.potential size := by
  by_cases hb : isBelow (r.layer? v) proposed
  case neg => simp [raise, hb]
  case pos =>
    have hsum : ∑ u ∈ Finset.range size, room size ((raise proposed r v).layer? u) <
        ∑ u ∈ Finset.range size, room size (r.layer? u) := by
      apply Finset.sum_lt_sum
      case hle =>
        intro w _
        rw [layer?_raise hv]
        split
        case isTrue hw => exact (room_lt_room hw.right hp).le
        case isFalse   => exact le_rfl
      case hlt =>
        refine ⟨v, by simpa [← hs] using hv, ?_⟩
        rw [layer?_raise hv, if_pos ⟨rfl, hb⟩]
        exact room_lt_room hb hp
    have hlen : (raise proposed r v).queue.toList.length = r.queue.toList.length + 1 := by
      simp [raise, hb]
    simp only [potential]
    omega

theorem potential_foldl_raise_le (hvs : ∀ v ∈ vs, v < r.layers.size) (hs : r.layers.size = size)
    (hp : proposed < size) : (vs.foldl (raise proposed) r).potential size ≤ r.potential size := by
  induction vs generalizing r with
  | nil          => exact le_rfl
  | cons v vs hi =>
    calc (vs.foldl (raise proposed) (raise proposed r v)).potential size
        ≤ (raise proposed r v).potential size :=
          hi (fun x hx => by simpa using hvs x (.tail _ hx)) (by simpa using hs)
      _ ≤ r.potential size := potential_raise_le (hvs v List.mem_cons_self) hs hp

-- A node that raises has targets, so its layer leaves room for theirs.
theorem Sound.potential_take (hr : Relaxable forward seeds size) (h : r.Sound forward seeds size)
    (hp : r.queue.pop? = some (u, queue)) :
    (relax forward u { r with queue }).potential size + 1 ≤ r.potential size := by
  have hq := Queue.toList_of_pop?_some hp
  have ⟨l, hl⟩ := h.queued u (by simp [hq])
  have hlt (v : Nat) (hv : v ∈ listAt forward u) : v < r.layers.size :=
    h.layers_size ▸ hr.bounded u v hv
  have hle : (relax forward u { r with queue }).potential size ≤
      { r with queue }.potential size := by
    rw [relax_eq (r := { r with queue }) hl]
    cases hv : listAt forward u
    case nil       => exact le_rfl
    case cons v vs =>
      rw [← hv]
      have ⟨s, hs, hw⟩ := h.reached u l hl
      have e : Leads forward u v := by simp [Leads, hv]
      exact potential_foldl_raise_le hlt h.layers_size (walk_lt hr hs (hw.snoc e))
  have hpop : { r with queue }.potential size + 1 = r.potential size := by
    simp only [potential, hq, List.length_cons]
    exact Nat.add_right_comm ..
  omega

theorem exists_settles (hr : Relaxable forward seeds size) (h : r.Sound forward seeds size) :
    ∃ n r', Settles forward r n r' ∧ n ≤ r.potential size := by
  induction hn : r.potential size using Nat.strong_induction_on generalizing r with
  | h k hi =>
    cases hp : r.queue.pop?
    case none      => exact ⟨0, r, .rest hp, k.zero_le⟩
    case some taken =>
      have ⟨u, queue⟩ := taken
      have hlt := h.potential_take hr hp
      have ⟨n, r', hs, hle⟩ := hi _ (by omega) (h.take hr hp) rfl
      exact ⟨n + 1, r', .take hp hs, by omega⟩

theorem Settles.sound (hr : Relaxable forward seeds size) (hs : Settles forward r n r')
    (h : r.Sound forward seeds size) : r'.Sound forward seeds size := by
  induction hs with
  | rest         => exact h
  | take hp _ hi => exact hi (h.take hr hp)

theorem Settles.queue_eq (hs : Settles forward r n r') : r'.queue.toList = [] := by
  induction hs with
  | rest hp     => exact Queue.toList_of_pop?_none hp
  | take _ _ hi => exact hi

variable {g : Graph} {cap : Cap} {fuel pops : Nat}

theorem size_foldl_seed {layers : Array (Option Nat)} :
    (vs.foldl (fun layers u => layers.setIfInBounds u (some 0)) layers).size = layers.size := by
  induction vs generalizing layers with
  | nil          => rfl
  | cons _ vs hi => simp [hi]

theorem getElem?_foldl_seed {layers : Array (Option Nat)} (hvs : ∀ v ∈ vs, v < layers.size) :
    (vs.foldl (fun layers u => layers.setIfInBounds u (some 0)) layers)[u]?.getD none =
      if u ∈ vs then some 0 else layers[u]?.getD none := by
  induction vs generalizing layers with
  | nil => simp
  | cons v vs hi =>
    rw [List.foldl_cons, hi (fun x hx => by simpa using hvs x (.tail _ hx))]
    have hv := hvs v List.mem_cons_self
    by_cases hu : u = v
    case pos => simp [hu, hv]
    case neg => simp [hu, Array.getElem?_setIfInBounds_ne (Ne.symm hu)]

theorem size_start : (start g).layers.size = g.size := by
  simp [start, size_foldl_seed]

theorem layer?_start (hs : ∀ s ∈ g.seeds, s < g.size) :
    (start g).layer? u = if u ∈ g.seeds then some 0 else none := by
  rw [start, layer?, getElem?_foldl_seed (by simpa using hs)]
  split
  case isTrue  => rfl
  case isFalse =>
    rw [Array.getElem?_replicate]
    split <;> rfl

theorem sound_start (hr : Relaxable forward g.seeds g.size) :
    (start g).Sound forward g.seeds g.size where
  layers_size := size_start
  reached     := by
    intro v l hl
    rw [layer?_start hr.seeds_lt] at hl
    split at hl
    case isFalse   => nomatch hl
    case isTrue hv =>
      cases hl
      exact ⟨v, hv, .nil⟩
  seeded      := fun s hs => ⟨0, by rw [layer?_start hr.seeds_lt, if_pos hs]⟩
  queued      := fun u hu => ⟨0, by
    rw [layer?_start hr.seeds_lt, if_pos (by simpa [start, Queue.ofList, Queue.toList] using hu)]⟩
  settled     := by
    intro u l hl hu
    rw [layer?_start hr.seeds_lt] at hl
    split at hl
    case isFalse   => nomatch hl
    case isTrue hs => exact absurd hs (by simpa [start, Queue.ofList, Queue.toList] using hu)

-- A seed has one raise less before it, and is queued instead.
theorem potential_start (hs : ∀ s ∈ g.seeds, s < g.size) (hn : g.seeds.Nodup) :
    (start g).potential g.size = g.size * g.size := by
  have hl : (start g).queue.toList.length =
      ∑ u ∈ Finset.range g.size, if u ∈ g.seeds then 1 else 0 := by
    have hf : g.seeds.toFinset = (Finset.range g.size).filter (· ∈ g.seeds) := by
      ext u
      simpa using hs u
    rw [← Finset.card_filter, ← hf, List.toFinset_card_of_nodup hn]
    simp [start, Queue.ofList, Queue.toList]
  rw [potential, hl, ← Finset.sum_add_distrib]
  calc ∑ u ∈ Finset.range g.size,
        ((if u ∈ g.seeds then 1 else 0) + room g.size ((start g).layer? u))
      = ∑ _u ∈ Finset.range g.size, g.size := by
        refine Finset.sum_congr rfl fun u hu => ?_
        have hu := Finset.mem_range.mp hu
        rw [layer?_start hs]
        split <;> simp only [room] <;> omega
    _ = g.size * g.size := by simp

-- A cap that is ever exceeded is exceeded by the last count, so that one decides.
theorem run_of_settles (hs : Settles forward r n r') (hf : n ≤ fuel) :
    run forward cap fuel pops r =
      if 0 < n ∧ cap.isExceededBy (pops + n) then .error (.notSettled cap.value) else .ok r' := by
  induction hs generalizing fuel pops with
  | rest hp =>
    cases fuel with
    | zero      => rfl
    | succ fuel => simp [run, hp]
  | @take r u queue n r' hp _ hi =>
    cases fuel with
    | zero      => nomatch hf
    | succ fuel =>
      simp only [run, hp, n.succ_pos, true_and]
      split
      case isTrue hc => rw [if_pos (Cap.isExceededBy_mono (by omega) hc)]
      case isFalse hc =>
        rw [hi (by omega), Nat.add_assoc, Nat.add_comm 1]
        cases n with
        | zero   => simp [hc]
        | succ n => simp

end Relaxation

end Graph

end LayeredDiagram
