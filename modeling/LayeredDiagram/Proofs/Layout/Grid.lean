import LayeredDiagram.Proofs.Layout.Placement
import LayeredDiagram.Proofs.Number.Order

namespace LayeredDiagram.Layout

open Text

section Counts

variable {L : Type} [LT L] [DecidableLT L] [BEq L] (ls : List (String × L))

-- Layers first, and identifiers within a layer.
def Ahead (e f : String × L) : Prop :=
  e.2 < f.2 ∨ e.2 == f.2 ∧ spelling e.1 < spelling f.1

-- How many different layers are below `l`.
def columnOf (l : L) : Nat :=
  (ls.map (·.2)).eraseDups.countP (· < l)

def countOf (l : L) : Nat :=
  ls.countP (·.2 == l)

-- How many identifiers in its layer are before that of `e`.
def rowOf (e : String × L) : Nat :=
  ls.countP fun f => spelling f.1 < spelling e.1 && f.2 == e.2

-- Where an identifier stands.
def spot {K : Type} [Scalar K] (c : Canvas K) (s : Spacing K) (e : String × L) : String × K × K :=
  (e.1, position c s (columnOf ls e.2) (countOf ls e.2) (rowOf ls e))

end Counts

section Ranks

instance : DecidableLT (Option Int) :=
  inferInstanceAs (DecidableRel (Option.lt (· < ·)))

theorem rank_lt_trans : ∀ {l m n : Option Int}, l < m → m < n → l < n
  | some _, some _, some _, hlm, hmn => Int.lt_trans hlm hmn
  | none, some _, some _, _, _       => trivial

theorem rank_lt_asymm : ∀ {l m : Option Int}, l < m → ¬m < l
  | some _, some _, hlm => Int.lt_asymm hlm
  | none, some _, _     => nofun

theorem isOrdered_iff {a b : String × Option Int} (ha : a.2.isSome) (hb : b.2.isSome) :
    isOrdered a b ↔ a.2 < b.2 ∨ a.2 = b.2 ∧ a.1.precedes b.1 := by
  obtain ⟨a, _ | m⟩ := a <;> obtain ⟨b, _ | n⟩ := b <;>
    simp only [Option.isSome_none, Bool.false_eq_true] at ha hb
  simp [isOrdered]

variable {rs : List (String × Option Int)} {r : String × Option Int}
  {g : List (String × Option Int)} {k i : Nat}

def groups (rs : List (String × Option Int)) : List (List (String × Option Int)) :=
  (rs.mergeSort isOrdered).splitBy shareColumn

theorem flatten_groups (rs : List (String × Option Int)) :
    (groups rs).flatten = rs.mergeSort isOrdered :=
  List.flatten_splitBy _ _

theorem rank_eq_of_mem_groups (hg : g ∈ groups rs) :
    ∀ a ∈ g, ∀ b ∈ g, a.2 = b.2 := by
  have hc := List.isChain_of_mem_splitBy hg
  have hp : (g.map (·.2)).Pairwise (· = ·) :=
    ((List.isChain_map _).mpr (hc.imp fun a b h => by simpa [shareColumn] using h)).pairwise
  have : Std.Symm fun a b : String × Option Int => a.2 = b.2 := ⟨fun _ _ => Eq.symm⟩
  exact (List.pairwise_map.mp hp).forall_of_forall fun _ _ => rfl

-- The ranks that groups have, each taken from the first of its group.
def headRanks (rs : List (String × Option Int)) : List (Option Int) :=
  (groups rs).map fun g => g.head?.bind (·.2)

theorem head_rank_eq (hg : g ∈ groups rs) (hm : r ∈ g) : g.head?.bind (·.2) = r.2 := by
  obtain ⟨a, ha⟩ := Option.isSome_iff_exists.mp (List.isSome_head?.mpr (List.ne_nil_of_mem hm))
  rw [ha]
  exact rank_eq_of_mem_groups hg a (List.mem_of_mem_head? ha) r hm

theorem mem_headRanks_iff {l : Option Int} : l ∈ headRanks rs ↔ l ∈ rs.map (·.2) := by
  simp only [headRanks, List.mem_map, ← (List.mergeSort_perm rs isOrdered).mem_iff (a := (_, _)),
    ← flatten_groups, List.mem_flatten]
  constructor
  case mp =>
    rintro ⟨g, hg, rfl⟩
    have ⟨a, ha⟩ := List.exists_mem_of_ne_nil _ (List.ne_nil_of_mem_splitBy hg)
    exact ⟨a, ⟨g, hg, ha⟩, (head_rank_eq hg ha).symm⟩
  case mpr =>
    rintro ⟨a, ⟨g, hg, ha⟩, rfl⟩
    exact ⟨g, hg, head_rank_eq hg ha⟩

-- All of one group are below all of another. None is empty, so that this may be chained.
structure Below (g h : List (String × Option Int)) : Prop where
  left  : g ≠ []
  right : h ≠ []
  below : ∀ a ∈ g, ∀ b ∈ h, a.2 < b.2

instance : Trans Below Below Below where
  trans {g h k} hgh hhk := by
    refine ⟨hgh.left, hhk.right, fun a ha c hc => ?_⟩
    have ⟨b, hb⟩ := List.exists_mem_of_ne_nil h hgh.right
    exact rank_lt_trans (hgh.below a ha b hb) (hhk.below b hb c hc)

section Ranked

variable (hr : ∀ r ∈ rs, r.2.isSome)

include hr

theorem pairwise_rank :
    (rs.mergeSort isOrdered).Pairwise fun a b => a.2 < b.2 ∨ a.2 = b.2 := by
  have hp := List.mergeSort_perm rs isOrdered
  refine (List.pairwise_mergeSort isOrdered_trans isOrdered_total rs).imp_of_mem ?_
  intro a b ha hb hab
  have ho := (isOrdered_iff (hr a (hp.mem_iff.mp ha)) (hr b (hp.mem_iff.mp hb))).mp hab
  exact ho.imp_right And.left

-- Neighbours differ in rank where they meet.
theorem isChain_groups : (groups rs).IsChain Below := by
  have ⟨_, ho⟩ := List.pairwise_flatten.mp (flatten_groups rs ▸ pairwise_rank hr)
  have hm := List.isChain_getLast_head_splitBy shareColumn (rs.mergeSort isOrdered)
  refine List.isChain_iff_getElem.mpr fun i hi => ?_
  have ⟨hg, hh, hne⟩ := List.isChain_iff_getElem.mp hm i hi
  have hgh := List.pairwise_iff_getElem.mp ho i (i + 1) (by omega) hi (by omega)
  refine ⟨hg, hh, fun a ha b hb => (hgh a ha b hb).resolve_right fun h => ?_⟩
  rw [shareColumn, ← rank_eq_of_mem_groups (List.getElem_mem _) a ha _ (List.getLast_mem hg),
    ← rank_eq_of_mem_groups (List.getElem_mem _) b hb _ (List.head_mem hh)] at hne
  exact Bool.false_ne_true (hne.symm.trans (beq_iff_eq.mpr h))

theorem pairwise_groups : (groups rs).Pairwise Below :=
  (isChain_groups hr).pairwise

theorem filter_groups (hg : g ∈ groups rs) (hm : r ∈ g) :
    (rs.mergeSort isOrdered).filter (·.2 == r.2) = g := by
  rw [← flatten_groups]
  refine filter_flatten_of_mem (fun g hg => rank_eq_of_mem_groups hg) ?_ hg hm
  refine (pairwise_groups hr).imp fun h a ha b hb he => ?_
  exact rank_lt_asymm (he ▸ h.below a ha b hb) (he ▸ h.below a ha b hb)

theorem countOf_eq (hg : g ∈ groups rs) (hm : r ∈ g) : countOf rs r.2 = g.length := by
  rw [countOf, ← (List.mergeSort_perm rs isOrdered).countP_eq, List.countP_eq_length_filter,
    filter_groups hr hg hm]

theorem pairwise_headRanks : (headRanks rs).Pairwise (· < ·) := by
  refine List.pairwise_map.mpr ((pairwise_groups hr).imp_of_mem fun hg hh h => ?_)
  have ⟨a, ha⟩ := List.exists_mem_of_ne_nil _ h.left
  have ⟨b, hb⟩ := List.exists_mem_of_ne_nil _ h.right
  rw [head_rank_eq hg ha, head_rank_eq hh hb]
  exact h.below a ha b hb

theorem eraseDups_perm_headRanks : (rs.map (·.2)).eraseDups.Perm (headRanks rs) := by
  have hd : (headRanks rs).Nodup := (pairwise_headRanks hr).imp fun h => by
    rintro rfl
    exact rank_lt_asymm h h
  refine (List.perm_ext_iff_of_nodup (nodup_eraseDups _) hd).mpr fun l => ?_
  rw [List.mem_eraseDups, mem_headRanks_iff]

-- The columns have the different ranks, one each, in their order.
theorem columnOf_eq (hk : (groups rs)[k]? = some g) (hm : r ∈ g) : columnOf rs r.2 = k := by
  rw [columnOf, (eraseDups_perm_headRanks hr).countP_eq]
  refine countP_of_pairwise (fun _ _ => rank_lt_asymm) (pairwise_headRanks hr) ?_
  rw [headRanks, List.getElem?_map, hk, Option.map_some,
    head_rank_eq (List.mem_of_getElem? hk) hm]

variable (hs : (rs.map fun r => spelling r.1).Nodup)

include hs

theorem pairwise_ahead : (rs.mergeSort isOrdered).Pairwise Ahead := by
  have ho := List.pairwise_mergeSort isOrdered_trans isOrdered_total rs
  have hp := List.mergeSort_perm rs isOrdered
  have hd : (rs.mergeSort isOrdered).Pairwise fun a b => spelling a.1 ≠ spelling b.1 :=
    List.pairwise_map.mp ((hp.map _).nodup_iff.mpr hs)
  refine (ho.and hd).imp_of_mem fun {a b} ha hb ⟨hab, hne⟩ => ?_
  have h := (isOrdered_iff (hr a (hp.mem_iff.mp ha)) (hr b (hp.mem_iff.mp hb))).mp hab
  refine h.imp_right fun ⟨he, h⟩ => ⟨by simp [he], ?_⟩
  exact (precedes_iff.mp h).resolve_right hne

theorem rowOf_eq (hg : g ∈ groups rs) (hi : g[i]? = some r) : rowOf rs r = i := by
  have hm := List.mem_of_getElem? hi
  have ho := (List.pairwise_flatten.mp (flatten_groups rs ▸ pairwise_ahead hr hs)).left g hg
  have hp : g.Pairwise fun a b => spelling a.1 < spelling b.1 := by
    refine ho.imp_of_mem fun ha hb hab => ?_
    have he := rank_eq_of_mem_groups hg _ ha _ hb
    exact (hab.resolve_left fun h => rank_lt_asymm (he ▸ h) (he ▸ h)).right
  rw [rowOf, ← (List.mergeSort_perm rs isOrdered).countP_eq, ← List.countP_filter,
    filter_groups hr hg hm]
  exact countP_of_pairwise (fun _ _ => List.lt_asymm) hp hi

theorem positions_groups {K : Type} [Scalar K] {c : Canvas K} {s : Spacing K} :
    positions c s ((groups rs).map (·.map (·.1))) = (rs.mergeSort isOrdered).map (spot rs c s) := by
  have hrow (g : List (String × Option Int)) (k : Nat) (hk : (groups rs)[k]? = some g) :
      (g.map (·.1)).zipIdx.map (fun e => (e.1, position c s k (g.map (·.1)).length e.2)) =
        g.map (spot rs c s) := by
    have hg := List.mem_of_getElem? hk
    conv_rhs => rw [← List.zipIdx_map_fst 0 g, List.map_map]
    rw [List.zipIdx_map, List.map_map]
    refine List.map_congr_left fun e hi => ?_
    replace hi := List.mem_zipIdx_iff_getElem?.mp hi
    have hm := List.mem_of_getElem? hi
    simp [spot, columnOf_eq hr hk hm, countOf_eq hr hg hm, rowOf_eq hr hs hg hi]
  calc positions c s ((groups rs).map (·.map (·.1)))
    _ = (groups rs).zipIdx.flatMap fun e => e.1.map (spot rs c s) := by
      rw [positions, List.zipIdx_map, List.flatMap_map]
      exact List.flatMap_congr fun e he => hrow e.1 e.2 (List.mem_zipIdx_iff_getElem?.mp he)
    _ = ((groups rs).zipIdx.map (·.1)).flatMap fun g => g.map (spot rs c s) := by
      rw [List.flatMap_map]
    _ = (rs.mergeSort isOrdered).map (spot rs c s) := by
      rw [List.zipIdx_map_fst, ← flatten_groups, List.map_flatten, List.flatMap_def]

end Ranked

end Ranks

section Layers

variable {K L : Type} [Scalar K] [Ranked L] [LT L] [BEq L] {ls : List (String × L)}
  {c : Canvas K} {s : Spacing K} {e f : String × L}

-- The layers are compared as their ranks are.
structure AreRanked (ls : List (String × L)) : Prop where
  isSome : ∀ e ∈ ls, (Ranked.rank? e.2).isSome
  lt_iff : ∀ e ∈ ls, ∀ f ∈ ls, e.2 < f.2 ↔ Ranked.rank? e.2 < Ranked.rank? f.2
  beq_eq : ∀ e ∈ ls, ∀ f ∈ ls, (Ranked.rank? e.2 == Ranked.rank? f.2) = (e.2 == f.2)

def withRank (e : String × L) : String × Option Int :=
  (e.1, Ranked.rank? e.2)

namespace AreRanked

theorem ahead_iff (h : AreRanked ls) (he : e ∈ ls) (hf : f ∈ ls) :
    Ahead (withRank e) (withRank f) ↔ Ahead e f := by
  rw [Ahead, Ahead, h.lt_iff e he f hf, ← h.beq_eq e he f hf]
  rfl

theorem countOf_eq (h : AreRanked ls) (he : e ∈ ls) :
    countOf (ls.map withRank) (Ranked.rank? e.2) = countOf ls e.2 := by
  rw [countOf, countOf, List.countP_map]
  exact List.countP_congr fun f hf => by simp [withRank, ← h.beq_eq f hf e he]

theorem rowOf_eq (h : AreRanked ls) (he : e ∈ ls) :
    rowOf (ls.map withRank) (withRank e) = rowOf ls e := by
  rw [rowOf, rowOf, List.countP_map]
  refine List.countP_congr fun f hf => ?_
  rw [← h.beq_eq f hf e he]
  rfl

variable [DecidableLT L]

theorem columnOf_eq (h : AreRanked ls) (he : e ∈ ls) :
    columnOf (ls.map withRank) (Ranked.rank? e.2) = columnOf ls e.2 := by
  have hm : (ls.map withRank).map (·.2) = (ls.map (·.2)).map Ranked.rank? := by
    simp [withRank, Function.comp_def]
  have hb : ∀ l ∈ ls.map (·.2), ∀ m ∈ ls.map (·.2),
      (Ranked.rank? l == Ranked.rank? m) = (l == m) := by
    simpa only [List.forall_mem_map] using h.beq_eq
  rw [columnOf, columnOf, hm, eraseDups_map hb, List.countP_map]
  refine List.countP_congr fun l hl => ?_
  obtain ⟨f, hf, rfl⟩ := List.mem_map.mp (eraseDups_subset _ hl)
  simp [h.lt_iff f hf e he]

theorem spot_eq (h : AreRanked ls) (he : e ∈ ls) :
    spot (ls.map withRank) c s (withRank e) = spot ls c s e := by
  rw [spot, spot, h.rowOf_eq he, ← h.columnOf_eq he, ← h.countOf_eq he]
  rfl

-- The positions are those of all identifiers, in their order.
theorem exists_positions (h : AreRanked ls) (hs : (ls.map fun e => spelling e.1).Nodup) :
    ∃ es : List (String × L), es.Perm ls ∧ es.Pairwise Ahead ∧
      positions c s (columns ls) = es.map (spot ls c s) := by
  let es := ls.mergeSort fun e f => isOrdered (withRank e) (withRank f)
  have hp : es.Perm ls := List.mergeSort_perm ls _
  have hm : es.map withRank = (ls.map withRank).mergeSort isOrdered :=
    List.map_mergeSort fun _ _ _ _ => rfl
  have hr : ∀ r ∈ ls.map withRank, r.2.isSome := List.forall_mem_map.mpr h.isSome
  have hs' : ((ls.map withRank).map fun r => spelling r.1).Nodup := by
    simpa [withRank, Function.comp_def] using hs
  refine ⟨es, hp, ?_, ?_⟩
  case refine_1 =>
    have ho := List.pairwise_map.mp (hm ▸ pairwise_ahead hr hs')
    exact ho.imp_of_mem fun he hf hef => (h.ahead_iff (hp.mem_iff.mp he) (hp.mem_iff.mp hf)).mp hef
  case refine_2 =>
    calc positions c s (columns ls)
      _ = positions c s ((groups (ls.map withRank)).map (·.map (·.1))) := by
        rw [columns_eq h.isSome]
        rfl
      _ = (es.map withRank).map (spot (ls.map withRank) c s) := by
        rw [positions_groups hr hs', hm]
      _ = es.map (spot ls c s) := by
        rw [List.map_map]
        exact List.map_congr_left fun e he => h.spot_eq (hp.mem_iff.mp he)

end AreRanked

end Layers

theorem areRanked_of_isFinite {ls : List (String × Float)} (h : ∀ e ∈ ls, e.2.isFinite) :
    AreRanked ls := by
  have hr (e : String × Float) (he : e ∈ ls) : ∃ i, Ranked.rank? e.2 = some i :=
    Number.exists_rank?_of_isFinite (h e he)
  constructor
  case isSome => exact fun e he => Option.isSome_iff_exists.mpr (hr e he)
  case lt_iff =>
    intro e he f hf
    have ⟨i, hi⟩ := hr e he
    have ⟨j, hj⟩ := hr f hf
    rw [hi, hj, Option.some_lt_some]
    exact Number.lt_iff_rank?_lt hi hj
  case beq_eq =>
    intro e he f hf
    have ⟨i, hi⟩ := hr e he
    have ⟨j, hj⟩ := hr f hf
    rw [hi, hj, Bool.eq_iff_iff, beq_iff_eq, Option.some.injEq]
    exact (Number.beq_iff_rank?_eq hi hj).symm

theorem areRanked_counts (ls : List (String × Nat)) : AreRanked ls := by
  constructor
  case isSome => exact fun _ _ => rfl
  case lt_iff => exact fun _ _ _ _ => Int.ofNat_lt.symm
  case beq_eq =>
    intro e _ f _
    rw [Bool.eq_iff_iff, beq_iff_eq, beq_iff_eq]
    exact Option.some_inj.trans Int.natCast_inj

end LayeredDiagram.Layout
