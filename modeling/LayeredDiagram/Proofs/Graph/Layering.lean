import LayeredDiagram.Proofs.Graph.Forward
import LayeredDiagram.Proofs.Graph.Relaxation

namespace LayeredDiagram

namespace Graph

open Relaxation

-- The lengths of the walks of kept edges from the seeds to `u`.
def wayLengths (g : Graph) (u : Nat) : Set Nat :=
  { n | ∃ s ∈ g.seeds, Walk (Leads (g.forward g.seeds)) s u n }

structure IsLongest (lengths : Set Nat) (l : Nat) : Prop where
  greatest  : lengths.Nonempty → IsGreatest lengths l
  unreached : lengths = ∅ → l = 0

-- The layers where a relaxation rests.
def Relaxation.result (g : Graph) (r : Relaxation) : List (String × Nat) :=
  g.ids.toList.zip (r.layers.toList.map (·.getD 0))

variable {g : Graph} {p : Plan} {cap : Cap} {r : Relaxation} {u v l m n : Nat}

theorem wayLengths_snoc (hl : l ∈ g.wayLengths u) (e : Leads (g.forward g.seeds) u v) :
    l + 1 ∈ g.wayLengths v :=
  have ⟨s, hs, hw⟩ := hl
  ⟨s, hs, hw.snoc e⟩

namespace IsLongest

variable {lengths : Set Nat}

theorem le (h : IsLongest lengths l) (hn : n ∈ lengths) : n ≤ l :=
  (h.greatest ⟨n, hn⟩).right hn

theorem mem (h : IsLongest lengths l) (hl : l ≠ 0) : l ∈ lengths :=
  (h.greatest (Set.nonempty_iff_ne_empty.mpr (mt h.unreached hl))).left

theorem unique (hl : IsLongest lengths l) (hm : IsLongest lengths m) : l = m := by
  by_cases hn : lengths.Nonempty
  case pos => exact (hl.greatest hn).unique (hm.greatest hn)
  case neg =>
    have he := Set.not_nonempty_iff_eq_empty.mp hn
    rw [hl.unreached he, hm.unreached he]

end IsLongest

theorem relaxable_of_ofPlan (h : ofPlan p = .ok g) :
    Relaxable (g.forward g.seeds) g.seeds g.size := by
  have hm := forward_maximalAcyclic (outgoing_size_of_ofPlan h) g.seeds
  exact {
    acyclic  := hm.acyclic
    bounded  := fun _ _ e => targets_lt_of_ofPlan h (hm.leads e)
    seeds_lt := fun _ => seeds_lt }

theorem exists_settles_start (h : ofPlan p = .ok g) :
    ∃ n r, Settles (g.forward g.seeds) (.start g) n r ∧ n ≤ g.size * g.size := by
  have hr := relaxable_of_ofPlan h
  rw [← potential_start (fun _ => seeds_lt) seeds_nodup]
  exact exists_settles hr (sound_start hr)

theorem isLongest_of_settles (h : ofPlan p = .ok g)
    (hs : Settles (g.forward g.seeds) (.start g) n r) :
    IsLongest (g.wayLengths u) ((r.layer? u).getD 0) := by
  have hr := relaxable_of_ofPlan h
  have hsound := hs.sound hr (sound_start hr)
  have hle (n : Nat) (hn : n ∈ g.wayLengths u) : ∃ m, r.layer? u = some m ∧ n ≤ m :=
    have ⟨_, hs', hw⟩ := hn
    hsound.le_layer hs.queue_eq hs' hw
  cases hl : r.layer? u with
  | none =>
    refine ⟨fun ⟨n, hn⟩ => ?_, fun _ => rfl⟩
    have ⟨m, hm, _⟩ := hle n hn
    nomatch hl ▸ hm
  | some l =>
    have hmem : l ∈ g.wayLengths u := hsound.reached u l hl
    refine ⟨fun _ => ⟨hmem, fun n hn => ?_⟩, fun he => absurd hmem (he ▸ Set.notMem_empty l)⟩
    have ⟨m, hm, hnm⟩ := hle n hn
    simp_all

theorem layers_of_settles (hs : Settles (g.forward g.seeds) (.start g) n r)
    (hn : n ≤ g.size * g.size) : g.layers cap =
      if 0 < n ∧ cap.isExceededBy n then .error (.notSettled cap.value) else .ok (r.result g) := by
  unfold layers
  simp only [run_of_settles hs (Nat.le_succ_of_le hn), Nat.zero_add]
  split <;> rfl

-- Without a node there is nothing to take, so a cap below zero is not exceeded either.
theorem pos_of_settles (h : ofPlan p = .ok g) (hp : p.nodes ≠ [])
    (hs : Settles (g.forward g.seeds) (.start g) n r) : 0 < n := by
  have ⟨u, hu⟩ : ∃ u, p.IsSeed u := by
    by_cases hs : ∃ u, p.IsSource u
    case pos => exact ⟨hs.choose, .inl hs.choose_spec⟩
    case neg => exact ⟨0, .inr ⟨rfl, hp, not_exists.mp hs⟩⟩
  have hu := (mem_seeds_iff h).mpr hu
  cases hs with
  | take _ hs => exact Nat.succ_pos _
  | rest hq   =>
    have he := Queue.toList_of_pop?_none hq
    simp only [Relaxation.start, Queue.ofList, Queue.toList, List.reverse_nil,
      List.append_nil] at he
    simp [he] at hu

theorem result_fst (hr : r.layers.size = g.size) :
    (r.result g).map (·.1) = g.ids.toList := by
  rw [Relaxation.result, List.map_fst_zip (by simp [hr, size])]

theorem layer_of_result {id : String} (h : (r.result g)[u]? = some (id, l)) :
    (r.layer? u).getD 0 = l := by
  rw [Relaxation.result, List.getElem?_zip_eq_some] at h
  have hl := h.right
  simp only [List.getElem?_map, Array.getElem?_toList, Option.map_eq_some_iff] at hl
  obtain ⟨layer?, hu, rfl⟩ := hl
  simp [Relaxation.layer?, hu]

end Graph

namespace Plan

open LayeredDiagram.Graph Relaxation

variable {p : Plan} {g : Graph} {r : Relaxation} {cap : Option Float} {ls : List (String × Nat)}
variable {u n : Nat}

theorem layers_eq_of_ofPlan (h : ofPlan p = .ok g) : p.layers cap = g.layers (p.cap cap) := by
  unfold layers
  rw [h]
  rfl

theorem isLongest_of_layers (h : ofPlan p = .ok g) (hl : p.layers cap = .ok ls) :
    ls.map (·.1) = p.ids ∧ ∀ u id l, ls[u]? = some (id, l) → IsLongest (g.wayLengths u) l := by
  have ⟨n, r, hs, hn⟩ := exists_settles_start h
  rw [layers_eq_of_ofPlan h, layers_of_settles hs hn] at hl
  split at hl
  case isTrue => nomatch hl
  case isFalse =>
    cases hl
    have hr := relaxable_of_ofPlan h
    constructor
    case left  => rw [result_fst (hs.sound hr (sound_start hr)).layers_size,
      (indexes_of_ofPlan h).ids_eq]
    case right => exact fun u id l hu => layer_of_result hu ▸ isLongest_of_settles h hs

theorem exists_layer (h : ofPlan p = .ok g) (hl : p.layers cap = .ok ls) (hu : u < g.size) :
    ∃ l, (ls.map (·.2))[u]? = some l ∧ IsLongest (g.wayLengths u) l := by
  have ⟨hids, hlong⟩ := isLongest_of_layers h hl
  have hlt : u < ls.length := by
    rw [← List.length_map, hids, ← (indexes_of_ofPlan h).size_eq]
    exact hu
  exact ⟨ls[u].2, by simp [hlt], hlong u ls[u].1 ls[u].2 (List.getElem?_eq_getElem hlt)⟩

theorem layers_none (h : ofPlan p = .ok g) (hs : Settles (g.forward g.seeds) (.start g) n r)
    (hn : n ≤ g.size * g.size) : p.layers = .ok (r.result g) := by
  rw [layers_eq_of_ofPlan h, layers_of_settles hs hn, if_neg]
  have hc : n ≤ p.nodes.length * p.nodes.length := size_of_ofPlan h ▸ hn
  simp only [Plan.cap, Cap.isExceededBy, decide_eq_true_eq]
  omega

theorem exists_layers (hp : p.Valid) : ∃ ls, p.layers = .ok ls ∧ ls.map (·.1) = p.ids := by
  have ⟨g, h, _⟩ := ofPlan_of_valid hp
  have ⟨n, r, hs, hn⟩ := exists_settles_start h
  have hl := layers_none h hs hn
  exact ⟨_, hl, (isLongest_of_layers h hl).left⟩

-- Nothing but the ways to its nodes decides the layers of a plan.
theorem layers_eq_of_wayLengths {q : Plan} {g' : Graph} {cap' : Option Float}
    {ms : List (String × Nat)} (h : ofPlan p = .ok g) (h' : ofPlan q = .ok g')
    (hi : q.ids = p.ids) (hw : ∀ u, g'.wayLengths u = g.wayLengths u)
    (hl : p.layers cap = .ok ls) (hm : q.layers cap' = .ok ms) : ms = ls := by
  have ⟨hids, hlong⟩ := isLongest_of_layers h hl
  have ⟨hids', hlong'⟩ := isLongest_of_layers h' hm
  have he : ms.map (·.1) = ls.map (·.1) := by rw [hids', hi, hids]
  have hlength : ms.length = ls.length := by simpa using congrArg List.length he
  refine List.ext_getElem hlength fun u hu' hu => Prod.ext ?_ ?_
  case refine_1 => simpa [hu, hu'] using congrArg (·[u]?) he
  case refine_2 =>
    have hlu := hlong u _ _ (List.getElem?_eq_getElem hu)
    exact (hlong' u _ _ (List.getElem?_eq_getElem hu')).unique (hw u ▸ hlu)

-- The layers are those of the longest ways, whatever the cap is.
theorem layers_isLongest (hp : p.Valid) : ∃ g, ofPlan p = .ok g ∧
    (∀ u, u ∈ g.seeds ↔ p.IsSeed u) ∧ (∃ ls, p.layers = .ok ls) ∧
    ∀ cap ls, p.layers cap = .ok ls → ls.map (·.1) = p.ids ∧
      ∀ u id l, ls[u]? = some (id, l) → IsLongest (g.wayLengths u) l := by
  have ⟨g, h, _⟩ := ofPlan_of_valid hp
  have ⟨n, r, hs, hn⟩ := exists_settles_start h
  exact ⟨g, h, fun _ => mem_seeds_iff h, ⟨_, layers_none h hs hn⟩,
    fun _ _ hl => isLongest_of_layers h hl⟩

theorem twoWays_layers : twoWays.layers = .ok [("a", 0), ("b", 1), ("c", 2), ("d", 3)] := by
  cbv

theorem layers_isLongest_twoWays : twoWays.Valid ∧
    ∃ g, ofPlan twoWays = .ok g ∧ g.seeds = [0] ∧ IsGreatest (g.wayLengths 3) 3 := by
  refine ⟨by decide, ?_⟩
  have ⟨g, h, _, _, hlong⟩ := layers_isLongest (p := twoWays) (by decide)
  have hs : (ofPlan twoWays).map (·.seeds) = .ok [0] := by cbv
  have h₃ := (hlong none _ twoWays_layers).right 3 "d" 3 rfl
  rw [h] at hs
  exact ⟨g, h, Except.ok.inj hs, h₃.greatest ⟨3, h₃.mem (by decide)⟩⟩

-- A cap below the count of the nodes taken is an error, and any other one has no effect.
theorem layers_capped (hp : p.Valid) (hn : p.nodes ≠ []) : ∃ g pops last, ofPlan p = .ok g ∧
    Settles (g.forward g.seeds) (.start g) pops last ∧
    pops ≤ p.nodes.length * p.nodes.length ∧
    (∀ m, Number.LessThan m pops → p.layers (some m) = .error (.notSettled m)) ∧
    (∀ m, ¬Number.LessThan m pops → p.layers (some m) = .ok (last.result g)) ∧
    (∀ m, m.isNaN → p.layers (some m) = .ok (last.result g)) ∧
    p.layers = .ok (last.result g) := by
  have ⟨g, h, _⟩ := ofPlan_of_valid hp
  have ⟨pops, last, hs, hle⟩ := exists_settles_start h
  have hpos := pos_of_settles h hn hs
  have hcap (m : Float) : p.layers (some m) = if Number.exceeds pops m then
      .error (.notSettled m) else .ok (last.result g) := by
    rw [layers_eq_of_ofPlan h, layers_of_settles hs hle]
    simp [hpos, Plan.cap, Cap.isExceededBy, Cap.value]
  have hok (m : Float) (hm : ¬Number.LessThan m pops) :
      p.layers (some m) = .ok (last.result g) := by
    rw [hcap, if_neg (mt Number.exceeds_iff.mp hm)]
  refine ⟨g, pops, last, h, hs, size_of_ofPlan h ▸ hle, fun m hm => ?_, hok, fun m hm => ?_,
    layers_none h hs hle⟩
  case refine_1 => rw [hcap, if_pos (Number.exceeds_iff.mpr hm)]
  case refine_2 => exact hok m (Number.not_lessThan_of_isNaN hm)

theorem layers_capped_twoWays : twoWays.Valid ∧ twoWays.nodes ≠ [] ∧ ∃ g pops last,
    ofPlan twoWays = .ok g ∧ Settles (g.forward g.seeds) (.start g) pops last ∧ pops ≤ 16 ∧
    (∀ m, Number.LessThan m pops → twoWays.layers (some m) = .error (.notSettled m)) ∧
    ∀ m, ¬Number.LessThan m pops →
      twoWays.layers (some m) = .ok [("a", 0), ("b", 1), ("c", 2), ("d", 3)] := by
  refine ⟨by decide, by decide, ?_⟩
  have ⟨g, pops, last, h, hs, hle, herror, hok, _, hnone⟩ :=
    layers_capped (p := twoWays) (by decide) (by decide)
  exact ⟨g, pops, last, h, hs, hle, herror, fun m hm => by rw [hok m hm, ← hnone, twoWays_layers]⟩

-- A kept edge leads to a later layer where a walk from a seed ends with an edge at its target, so
-- whenever its source is reached. Otherwise both of its ends are left in layer 0.
theorem layer_lt_layer_iff (hp : p.Valid) : ∃ g, ofPlan p = .ok g ∧
    ∀ cap ls, p.layers cap = .ok ls → ∀ u v, Leads (g.forward g.seeds) u v →
      ∃ l m, (ls.map (·.2))[u]? = some l ∧ (ls.map (·.2))[v]? = some m ∧
        ((g.wayLengths u).Nonempty → l + 1 ≤ m) ∧
        (l + 1 ≤ m ↔ ∃ n, n + 1 ∈ g.wayLengths v) ∧ (m < l + 1 → l = 0 ∧ m = 0) := by
  have ⟨g, h, _⟩ := ofPlan_of_valid hp
  refine ⟨g, h, fun cap ls hl u v e => ?_⟩
  have hsize := forward_size g (outgoing_size_of_ofPlan h) g.seeds
  have ⟨l, hul, hu⟩ := exists_layer h hl (u := u) (hsize ▸ lt_size_of_leads e)
  have ⟨m, hvm, hv⟩ := exists_layer h hl (u := v) ((relaxable_of_ofPlan h).bounded u v e)
  have hreached (hne : (g.wayLengths u).Nonempty) : l + 1 ≤ m :=
    hv.le (wayLengths_snoc (hu.greatest hne).left e)
  have hunreached (hne : ¬(g.wayLengths u).Nonempty) : l = 0 :=
    hu.unreached (Set.not_nonempty_iff_eq_empty.mp hne)
  refine ⟨l, m, hul, hvm, hreached, ⟨fun hlm => ?_, fun ⟨n, hn⟩ => ?_⟩, fun hml => ?_⟩
  case refine_1 =>
    obtain ⟨n, rfl⟩ : ∃ n, m = n + 1 := ⟨m - 1, by omega⟩
    exact ⟨n, hv.mem n.succ_ne_zero⟩
  case refine_2 =>
    have hle := hv.le hn
    by_cases hne : (g.wayLengths u).Nonempty
    case pos => exact hreached hne
    case neg =>
      have hl₀ := hunreached hne
      omega
  case refine_3 =>
    have hl₀ := hunreached fun hne => Nat.not_lt_of_le (hreached hne) hml
    omega

-- A cycle without a source beside a node of its own.
def besideCycle : Plan :=
  ofEnds ["x", "y", "root"] [("x", "y"), ("y", "x")]

theorem besideCycle_layers : besideCycle.layers = .ok [("x", 0), ("y", 0), ("root", 0)] := by
  cbv

theorem besideCycle_kept (h : ofPlan besideCycle = .ok g) : Leads (g.forward g.seeds) 0 1 := by
  have hf : (ofPlan besideCycle).map (fun g => g.forward g.seeds) = .ok #[#[1], #[], #[]] := by cbv
  rw [h] at hf
  simp [Leads, listAt, Except.ok.inj hf]

-- No seed reaches the cycle, so the edge that is kept of it does not lead to a later layer.
theorem layer_lt_layer_fails : ¬∀ p : Plan, p.Valid → ∀ g ls, ofPlan p = .ok g →
    p.layers = .ok ls → ∀ u v l m, Leads (g.forward g.seeds) u v →
      (ls.map (·.2))[u]? = some l → (ls.map (·.2))[v]? = some m → l + 1 ≤ m := by
  intro h
  have hv : besideCycle.Valid := by decide
  have ⟨g, hg, _⟩ := ofPlan_of_valid hv
  have hle := h besideCycle hv g _ hg besideCycle_layers 0 1 0 0 (besideCycle_kept hg) rfl rfl
  exact absurd hle (by decide)

theorem layer_lt_layer_iff_besideCycle : besideCycle.Valid ∧
    ∃ g, ofPlan besideCycle = .ok g ∧ Leads (g.forward g.seeds) 0 1 ∧
      ∀ n, n + 1 ∉ g.wayLengths 1 := by
  refine ⟨by decide, ?_⟩
  have ⟨g, h, hlaw⟩ := layer_lt_layer_iff (p := besideCycle) (by decide)
  have he := besideCycle_kept h
  obtain ⟨l, m, _, hv, _, hiff, _⟩ := hlaw none _ besideCycle_layers 0 1 he
  obtain rfl : 0 = m := Option.some.inj hv
  exact ⟨g, h, he, fun n hn => absurd (hiff.mpr ⟨n, hn⟩) l.not_succ_le_zero⟩

end Plan

end LayeredDiagram
