import LayeredDiagram.Proofs.Graph.Least
import LayeredDiagram.Proofs.Layout.Arrangement
import Mathlib.Data.Finset.Max

namespace LayeredDiagram

namespace Graph

variable {g : Graph} {v l n : Nat}

theorem exists_of_wayLengths_succ (h : n + 1 ∈ g.wayLengths v) :
    ∃ u, Leads (g.forward g.seeds) u v ∧ n ∈ g.wayLengths u := by
  obtain ⟨s, hs, hw⟩ := h
  cases hw with
  | snoc hw e => exact ⟨_, e, s, hs, hw⟩

-- The longest way to a node goes through the layer before its own. A longer way to the node there
-- would go on to a longer one.
theorem IsLongest.exists_before (h : IsLongest (g.wayLengths v) (l + 1)) :
    ∃ u, Leads (g.forward g.seeds) u v ∧ IsLongest (g.wayLengths u) l := by
  have ⟨u, e, hu⟩ := exists_of_wayLengths_succ (h.mem l.succ_ne_zero)
  have hle (n : Nat) (hn : n ∈ g.wayLengths u) : n ≤ l :=
    Nat.le_of_succ_le_succ (h.le (wayLengths_snoc hn e))
  exact ⟨u, e, fun _ => ⟨hu, hle⟩, fun he => absurd hu (he ▸ Set.notMem_empty l)⟩

end Graph

namespace Plan

open LayeredDiagram.Graph

variable {p : Plan} {g : Graph} {cap : Option Float} {ls : List (String × Nat)} {l m : Nat}

theorem pred_mem_layers (h : ofPlan p = .ok g) (hl : p.layers cap = .ok ls)
    (hm : l + 1 ∈ ls.map (·.2)) : l ∈ ls.map (·.2) := by
  obtain ⟨⟨id, _⟩, hmem, rfl⟩ := List.mem_map.mp hm
  obtain ⟨v, hv⟩ := List.mem_iff_getElem?.mp hmem
  have ⟨u, e, hu⟩ := ((isLongest_of_layers h hl).right v id (l + 1) hv).exists_before
  have hlt : u < g.size := forward_size g (outgoing_size_of_ofPlan h) g.seeds ▸ lt_size_of_leads e
  have ⟨l', hl', hlong⟩ := exists_layer h hl hlt
  exact hu.unique hlong ▸ List.mem_of_getElem? hl'

theorem mem_layers_of_le (h : ofPlan p = .ok g) (hl : p.layers cap = .ok ls) (hlm : l ≤ m)
    (hm : m ∈ ls.map (·.2)) : l ∈ ls.map (·.2) := by
  induction hlm with
  | refl      => exact hm
  | step _ hi => exact hi (pred_mem_layers h hl hm)

-- The layers are those up to the last one, which are no more than there are nodes.
theorem exists_last_layer (hp : p.Valid) (hn : p.nodes ≠ []) (hl : p.layers cap = .ok ls) :
    ∃ m < p.nodes.length, ∀ l, l ∈ ls.map (·.2) ↔ l ≤ m := by
  have ⟨g, h, _⟩ := ofPlan_of_valid hp
  have hlen : (ls.map (·.2)).length = p.nodes.length := by
    simpa [ids] using congrArg List.length (isLongest_of_layers h hl).left
  have hne : (ls.map (·.2)).toFinset.Nonempty := by
    rw [List.toFinset_nonempty_iff, ← List.length_pos_iff, hlen]
    exact List.length_pos_iff.mpr hn
  obtain ⟨m, hm, hmax⟩ := Finset.exists_max_image _ id hne
  simp only [List.mem_toFinset, id] at hm hmax
  have hiff (l : Nat) : l ∈ ls.map (·.2) ↔ l ≤ m :=
    ⟨hmax l, fun hlm => mem_layers_of_le h hl hlm hm⟩
  refine ⟨m, ?_, hiff⟩
  have hsub : List.range (m + 1) ⊆ ls.map (·.2) := fun l hlm =>
    (hiff l).mpr (Nat.le_of_lt_succ (List.mem_range.mp hlm))
  have hle := (List.nodup_range.subperm hsub).length_le
  rwa [List.length_range, hlen] at hle

end Plan

namespace Layout

variable {K L : Type} [Scalar K] [Ranked L] {nodes : List Node} {ls : List (String × L)}
  {c : Canvas K} {s : Spacing K} {placed : List (Placed K)} {b : Placed K} {id : String} {k : Nat}

-- The identifiers in column `k`.
def InColumn (ls : List (String × L)) (k : Nat) (id : String) : Prop :=
  ∃ ids, (columns ls)[k]? = some ids ∧ id ∈ ids

-- A column is that of the layers with as many different layers below them.
theorem AreRanked.inColumn_iff [LT L] [DecidableLT L] [BEq L] (h : AreRanked ls) :
    InColumn ls k id ↔ ∃ l, (id, l) ∈ ls ∧ columnOf ls l = k := by
  have hr : ∀ r ∈ ls.map withRank, r.2.isSome := List.forall_mem_map.mpr h.isSome
  have hc : columns ls = (groups (ls.map withRank)).map (·.map (·.1)) := columns_eq h.isSome
  have hm (r : String × Option Int) :
      (∃ g ∈ groups (ls.map withRank), r ∈ g) ↔ ∃ e ∈ ls, withRank e = r := by
    rw [← List.mem_flatten, flatten_groups, List.mem_mergeSort, List.mem_map]
  simp only [InColumn, hc, List.getElem?_map, Option.map_eq_some_iff]
  constructor
  case mp =>
    rintro ⟨_, ⟨g, hk, rfl⟩, hid⟩
    obtain ⟨r, hg, rfl⟩ := List.mem_map.mp hid
    obtain ⟨e, he, rfl⟩ := (hm r).mp ⟨g, List.mem_of_getElem? hk, hg⟩
    exact ⟨e.2, he, (h.columnOf_eq he).symm.trans (Layout.columnOf_eq hr hk hg)⟩
  case mpr =>
    rintro ⟨l, he, rfl⟩
    obtain ⟨g, hgs, hg⟩ := (hm _).mpr ⟨_, he, rfl⟩
    obtain ⟨k, hk⟩ := List.mem_iff_getElem?.mp hgs
    have hcol : columnOf ls l = k := (h.columnOf_eq he).symm.trans (Layout.columnOf_eq hr hk hg)
    exact ⟨_, ⟨g, hcol ▸ hk, rfl⟩, List.mem_map_of_mem hg⟩

theorem exists_of_mem_placeNodes (hn : (nodes.map (·.id)).Nodup)
    (h : placeNodes nodes ls c s = .ok placed) (hb : b ∈ placed) :
    ∃ k, InColumn ls k b.id ∧ b.x = s.margin + Scalar.ofNat k * s.horizontal := by
  obtain ⟨spot, hs, hpl⟩ := exists_of_mem_mapM h hb
  obtain ⟨⟨ids, k⟩, hk, hs⟩ := List.mem_flatMap.mp hs
  obtain ⟨⟨id, row⟩, hid, rfl⟩ := List.mem_map.mp hs
  have ⟨hbid, hxy⟩ := Prod.mk.inj (spot_eq_of_place hn hpl)
  refine ⟨k, ⟨ids, List.mem_zipIdx_iff_getElem?.mp hk, ?_⟩, congrArg Prod.fst hxy⟩
  exact hbid ▸ List.mem_of_getElem? (List.mem_zipIdx_iff_getElem?.mp hid)

-- Where no layer is left out, a layer has as many below it as its number says.
theorem columnOf_eq_self {ls : List (String × Nat)} {l m : Nat}
    (h : ∀ l, l ∈ ls.map (·.2) ↔ l ≤ m) (hl : l ≤ m) : columnOf ls l = l := by
  have hp : (ls.map (·.2)).eraseDups.Perm (List.range (m + 1)) := by
    refine (List.perm_ext_iff_of_nodup (nodup_eraseDups _) List.nodup_range).mpr fun k => ?_
    rw [List.mem_eraseDups, h, List.mem_range, Nat.lt_succ_iff]
  rw [columnOf, hp.countP_eq]
  exact countP_of_pairwise (fun _ _ => Nat.lt_asymm) List.pairwise_lt_range
    (List.getElem?_range (Nat.lt_succ_of_le hl))

theorem inColumn_iff_mem {ls : List (String × Nat)} {m : Nat}
    (h : ∀ l, l ∈ ls.map (·.2) ↔ l ≤ m) : InColumn ls k id ↔ (id, k) ∈ ls := by
  have hcol (l : Nat) (hl : (id, l) ∈ ls) : columnOf ls l = l :=
    columnOf_eq_self h ((h l).mp (List.mem_map_of_mem hl))
  rw [(areRanked_counts ls).inColumn_iff]
  constructor
  case mp  => exact fun ⟨l, hl, hk⟩ => hk ▸ (hcol l hl).symm ▸ hl
  case mpr => exact fun hl => ⟨k, hl, hcol k hl⟩

end Layout

namespace Plan

open LayeredDiagram.Graph Layout

variable {p : Plan} {cap : Option Float} {ls : List (String × Nat)}

-- No layer up to the last one is empty, so the columns are the layers, in whichever numbers
-- positions are computed.
theorem layers_gapless (hp : p.Valid) (hn : p.nodes ≠ []) (hl : p.layers cap = .ok ls) :
    (∃ m < p.nodes.length, ∀ l, l ∈ ls.map (·.2) ↔ l ≤ m) ∧
    (∀ k id, InColumn ls k id ↔ (id, k) ∈ ls) ∧
    (∀ {K : Type} [Scalar K] (c : Canvas K) (s : Spacing K), ∃ l, p.arrange c s cap = .ok l ∧
      (l.nodes.map (·.toNode)).Perm p.nodes ∧
      ∀ b ∈ l.nodes, ∃ k, (b.id, k) ∈ ls ∧ b.x = s.margin + Scalar.ofNat k * s.horizontal) ∧
    (Acyclic p.Joins → ∀ e ∈ p.edges, ∃ j k, InColumn ls j e.source ∧ InColumn ls k e.target ∧
      j < k) := by
  have ⟨g, h, _⟩ := ofPlan_of_valid hp
  have ⟨m, hm, hlast⟩ := exists_last_layer hp hn hl
  have hcol (k : Nat) (id : String) : InColumn ls k id ↔ (id, k) ∈ ls := inColumn_iff_mem hlast
  refine ⟨⟨m, hm, hlast⟩, hcol, fun c s => ?_, fun ha e he => ?_⟩
  case refine_1 =>
    have hr : ∀ e ∈ ls, (Ranked.rank? e.2).isSome := fun _ _ => rfl
    have ⟨placed, hpl, hall⟩ := placeNodes_perm (c := c) (s := s) hr hp.distinct
      (isLongest_of_layers h hl).left
    refine ⟨_, arrange_of_layers hl hpl, hall, fun b hb => ?_⟩
    have ⟨k, hk, hx⟩ := exists_of_mem_placeNodes hp.distinct hpl hb
    exact ⟨k, (hcol k b.id).mp hk, hx⟩
  case refine_2 =>
    have ⟨j, k, hj, hk, hlt⟩ := rises_layers h ha hl he
    exact ⟨j, k, (hcol j _).mpr hj, (hcol k _).mpr hk, hlt⟩

theorem layers_gapless_parted : parted.Valid ∧ parted.nodes ≠ [] ∧ Acyclic parted.Joins ∧
    parted.layers = .ok [("d", 1), ("a", 0), ("b", 1), ("c", 2)] ∧
    (∃ m < 4, ∀ l, l ∈ [1, 0, 1, 2] ↔ l ≤ m) ∧
    ∃ l, parted.layout = .ok l ∧ ∀ b ∈ l.nodes,
      ∃ k, (b.id, k) ∈ [("d", 1), ("a", 0), ("b", 1), ("c", 2)] ∧
        b.x = 60 + Float.ofNat k * 200 := by
  have hv : parted.Valid := by decide
  have hn : parted.nodes ≠ [] := by decide
  have hl : parted.layers = .ok [("d", 1), ("a", 0), ("b", 1), ("c", 2)] := by cbv
  obtain ⟨hlast, _, hx, _⟩ := layers_gapless hv hn hl
  obtain ⟨l, harr, _, hx⟩ := hx standardCanvas standardSpacing
  exact ⟨hv, hn, acyclic_parted, hl, hlast, l, harr, hx⟩

end Plan

end LayeredDiagram
