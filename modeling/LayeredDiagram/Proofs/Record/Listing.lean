import LayeredDiagram.Proofs.Record

namespace LayeredDiagram.Record

variable {α β : Type} {r r' r'' s s' t : Record α} {key other : String} {value old : α}
variable {e : String × α} {p : String → Bool} {f : α → Option β}

section Merge

theorem put_put : (r.put key old).put key value = r.put key value := by
  induction r with
  | nil          => simp [put]
  | cons e r hi =>
    by_cases he : e.1 = key <;> simp [put, he, hi]

theorem put_comm {new : α} (hk : key ∈ r.keys) (h : other ≠ key) :
    (r.put other new).put key value = (r.put key value).put other new := by
  induction r with
  | nil          => nomatch hk
  | cons e r hi =>
    by_cases he : e.1 = key
    case pos => simp [put, he, h.symm]
    case neg =>
      have hk : key ∈ keys r := (List.mem_cons.mp hk).resolve_left (Ne.symm he)
      by_cases ho : e.1 = other
      case pos => simp [put, ho, h]
      case neg => simp [put, he, ho, hi hk]

-- Nothing is in a record that has not been set.
theorem eq_or_mem_of_mem_put (h : e ∈ r.put key value) : e = (key, value) ∨ e ∈ r := by
  induction r with
  | nil           => exact .inl (List.mem_singleton.mp h)
  | cons e' r hi =>
    rw [put] at h
    split at h
    case isTrue  => exact (List.mem_cons.mp h).imp_right (List.mem_cons_of_mem _)
    case isFalse =>
      obtain rfl | h := List.mem_cons.mp h
      case inl => exact .inr List.mem_cons_self
      case inr => exact (hi h).imp_right (List.mem_cons_of_mem _)

theorem merge_cons : r.merge (e :: s) = (r.put e.1 e.2).merge s :=
  rfl

theorem merge_append : r.merge (s ++ t) = (r.merge s).merge t :=
  List.foldl_append

-- A field that is set before and not after takes its value whenever it is set.
theorem put_merge (hk : key ∈ r.keys) (hs : key ∉ s.keys) :
    (r.merge s).put key value = (r.put key value).merge s := by
  induction s generalizing r with
  | nil          => rfl
  | cons e s hi =>
    have ⟨hne, hs⟩ := List.ne_and_not_mem_of_not_mem_cons hs
    rw [merge_cons, merge_cons, hi (mem_keys_put_iff.mpr (.inr hk)) hs, put_comm hk hne.symm]

theorem merge_put (hn : s.keys.Nodup) : r.merge (s.put key value) = (r.merge s).put key value := by
  induction s generalizing r with
  | nil          => rfl
  | cons e s hi =>
    have ⟨hnot, hn⟩ := List.nodup_cons.mp hn
    by_cases he : e.1 = key
    case pos =>
      subst he
      rw [put, if_pos (beq_self_eq_true _), merge_cons, merge_cons,
        put_merge (mem_keys_put_iff.mpr (.inl rfl)) hnot, put_put]
    case neg => rw [put, if_neg (by simpa using he), merge_cons, merge_cons, hi hn]

theorem merge_merge (hn : s.keys.Nodup) : r.merge (s.merge t) = (r.merge s).merge t := by
  induction t generalizing s with
  | nil          => rfl
  | cons e t hi => rw [merge_cons, hi (nodup_keys_put hn), merge_put hn, merge_cons]

theorem merge_ofPairs : r.merge (ofPairs s) = r.merge s :=
  merge_merge List.nodup_nil

theorem nodup_keys_merge (hn : r.keys.Nodup) : (r.merge s).keys.Nodup := by
  induction s generalizing r with
  | nil          => exact hn
  | cons e s hi => exact hi (nodup_keys_put hn)

theorem mem_or_mem_of_mem_merge (h : e ∈ r.merge s) : e ∈ r ∨ e ∈ s := by
  induction s generalizing r with
  | nil           => exact .inl h
  | cons e' s hi =>
    obtain hr | hs := hi (merge_cons ▸ h)
    case inl =>
      obtain rfl | hr := eq_or_mem_of_mem_put hr
      case inl => exact .inr List.mem_cons_self
      case inr => exact .inl hr
    case inr => exact .inr (List.mem_cons_of_mem _ hs)

theorem get?_merge (hn : s.keys.Nodup) : (r.merge s).get? key = (s.get? key).or (r.get? key) := by
  induction s generalizing r with
  | nil          => rfl
  | cons e s hi =>
    have ⟨hnot, hn⟩ := List.nodup_cons.mp hn
    rw [merge_cons, hi hn, get?_put, get?_cons]
    by_cases he : key = e.1
    case pos =>
      subst he
      rw [get?_eq_none_iff.mpr hnot]
      simp
    case neg => rw [if_neg he, if_neg (Ne.symm he)]

end Merge

section Only

def only (p : String → Bool) (r : Record α) : Record α :=
  r.filter (p ·.1)

theorem only_append : only p (r ++ s) = only p r ++ only p s :=
  List.filter_append _ _

theorem only_cons : only p (e :: r) = if p e.1 then e :: only p r else only p r :=
  List.filter_cons

theorem only_put : only p (r.put key value) =
    if p key then (only p r).put key value else only p r := by
  induction r with
  | nil          => cases hp : p key <;> simp [put, only, hp]
  | cons e r hi =>
    by_cases he : e.1 = key
    case pos => cases hp : p key <;> simp [put, only_cons, he, hp]
    case neg => cases hp : p e.1 <;> cases hk : p key <;> simp_all [put, only_cons]

-- Fields under some keys are set without regard to the others.
theorem only_merge : only p (r.merge s) = (only p r).merge (only p s) := by
  induction s generalizing r with
  | nil          => rfl
  | cons e s hi =>
    rw [merge_cons, hi, only_put, only_cons]
    split <;> rfl

theorem only_erase : only p (r.erase key) = (only p r).erase key := by
  rw [only, erase, List.filter_comm]
  rfl

-- The fields for which there is something, as that.
def collect (f : α → Option β) (r : Record α) : Record β :=
  r.filterMap fun e => (f e.2).map (e.1, ·)

theorem keys_collect_sublist : (collect f r).keys.Sublist r.keys := by
  induction r with
  | nil          => exact List.Sublist.refl _
  | cons e r hi =>
    rw [collect, List.filterMap_cons]
    cases f e.2 with
    | none   => exact hi.cons e.1
    | some b => exact hi.cons_cons e.1

theorem only_collect : only p (collect f r) = collect f (only p r) := by
  induction r with
  | nil          => rfl
  | cons e r hi =>
    rw [only_cons, collect, List.filterMap_cons, ← collect]
    cases hf : f e.2 <;> cases hp : p e.1 <;> simp_all [only_cons, collect]

theorem get?_collect (hn : r.keys.Nodup) : (collect f r).get? key = (r.get? key).bind f := by
  induction r with
  | nil          => rfl
  | cons e r hi =>
    have ⟨hnot, hn⟩ := List.nodup_cons.mp hn
    rw [collect, List.filterMap_cons, ← collect, get?_cons]
    by_cases he : e.1 = key
    case pos =>
      subst he
      have hnone : (collect f r).get? e.1 = none := by
        rw [hi hn, get?_eq_none_iff.mpr hnot, Option.bind_none]
      cases hf : f e.2 <;> simp [hf, hnone, get?_cons]
    case neg => cases hf : f e.2 <;> simp [he, hi hn, get?_cons]

end Only

-- Names are all keys that are no indices.
def isName (key : String) : Bool :=
  (index? key).isNone

-- Where an index was set cannot be told from a listing, so records are alike if they hold the same
-- under each key, and the same under names in the same order.
structure Alike (r r' : Record α) : Prop where
  names : only isName r = only isName r'
  each  : ∀ key, only (· == key) r = only (· == key) r'

namespace Alike

theorem refl (r : Record α) : Alike r r :=
  ⟨rfl, fun _ => rfl⟩

theorem symm (h : Alike r r') : Alike r' r :=
  ⟨h.names.symm, fun key => (h.each key).symm⟩

theorem append (h : Alike r r') (hs : Alike s s') : Alike (r ++ s) (r' ++ s') where
  names    := by rw [only_append, only_append, h.names, hs.names]
  each key := by rw [only_append, only_append, h.each, hs.each]

theorem merge (h : Alike r r') (hs : Alike s s') : Alike (r.merge s) (r'.merge s') where
  names    := by rw [only_merge, only_merge, h.names, hs.names]
  each key := by rw [only_merge, only_merge, h.each, hs.each]

theorem erase (h : Alike r r') : Alike (r.erase key) (r'.erase key) where
  names    := by rw [only_erase, only_erase, h.names]
  each key := by rw [only_erase, only_erase, h.each]

theorem collect (h : Alike r r') : Alike (collect f r) (collect f r') where
  names    := by rw [only_collect, only_collect, h.names]
  each key := by rw [only_collect, only_collect, h.each]

theorem get?_eq (h : Alike r r') : r.get? key = r'.get? key := by
  have hfind (r : Record α) : r.get? key = (only (· == key) r).head?.map (·.2) := by
    rw [get?, only, List.head?_filter]
  rw [hfind, hfind, h.each]

theorem mem_iff (h : Alike r r') : e ∈ r ↔ e ∈ r' := by
  have hmem (r : Record α) : e ∈ r ↔ e ∈ only (· == e.1) r := by simp [only]
  rw [hmem r, hmem r', h.each]

end Alike

section Listing

theorem toList_of_index? {n : Nat} (h : index? key = some n) : key.toList = Nat.toDigits 10 n := by
  simp only [index?] at h
  split_ifs at h with _ hd
  obtain rfl := Option.some.inj h
  simp only [Bool.and_eq_true, beq_iff_eq] at hd
  exact hd.right.symm

theorem eq_of_index? {n : Nat} (h : index? key = some n) (ho : index? other = some n) :
    key = other :=
  String.toList_inj.mp ((toList_of_index? h).trans (toList_of_index? ho).symm)

theorem only_name_inOrder : only isName (inOrder r) = only isName r := by
  have hindexed : only isName ((byIndex r).map (·.2)) = [] := by
    refine List.filter_eq_nil_iff.mpr fun e he => ?_
    obtain ⟨⟨n, _⟩, hm, rfl⟩ := List.mem_map.mp he
    simp [isName, index?_of_mem_indexed (byIndex_perm.mem_iff.mp hm)]
  rw [inOrder_eq, only_append, hindexed, List.nil_append, only, List.filter_filter, only]
  refine List.filter_congr fun e _ => ?_
  cases h : index? e.1 <;> simp [isName, h]

-- Sorting is stable: it leaves fields under one key in their order.
theorem only_key_inOrder : only (· == key) (inOrder r) = only (· == key) r := by
  have hsub : (only (· == key) r).Sublist (inOrder r) := by
    cases hk : index? key with
    | none =>
      have he : only (· == key) r =
          (r.filter fun e => !(index? e.1).isSome).filter (·.1 == key) := by
        rw [List.filter_filter, only]
        refine List.filter_congr fun e _ => ?_
        by_cases he : e.1 = key <;> simp [he, hk]
      rw [inOrder_eq, he]
      exact List.filter_sublist.trans (List.sublist_append_right _ _)
    | some n =>
      have he : only (· == key) r = ((indexed r).filter (·.2.1 == key)).map (·.2) := by
        have hm : ((indexed r).filter (·.2.1 == key)).map (·.2) =
            ((indexed r).map (·.2)).filter (·.1 == key) := by
          rw [List.filter_map]
          rfl
        rw [hm, map_indexed, List.filter_filter, only]
        refine List.filter_congr fun e _ => ?_
        by_cases he : e.1 = key <;> simp [he, hk]
      have hle : ((indexed r).filter (·.2.1 == key)).Pairwise fun a b => a.1 ≤ b.1 := by
        refine List.pairwise_of_forall_mem_list fun a ha b hb => Nat.le_of_eq ?_
        have hindex {a : Nat × String × α} (ha : a ∈ (indexed r).filter (·.2.1 == key)) :
            a.1 = n := by
          have ⟨hm, he⟩ := List.mem_filter.mp ha
          rw [← Option.some.injEq, ← hk, ← beq_iff_eq.mp he]
          exact (index?_of_mem_indexed hm).symm
        rw [hindex ha, hindex hb]
      rw [inOrder_eq, he]
      refine (List.Sublist.map _ ?_).trans (List.sublist_append_left _ _)
      refine List.sublist_mergeSort ?_ ?_ (hle.imp decide_eq_true) List.filter_sublist
      case refine_1 =>
        exact fun a b c hab hbc =>
          decide_eq_true (Nat.le_trans (of_decide_eq_true hab) (of_decide_eq_true hbc))
      case refine_2 => exact fun a b => by simpa using Nat.le_total a.1 b.1
  have hself : only (· == key) (only (· == key) r) = only (· == key) r := by simp [only]
  have hlen : (only (· == key) (inOrder r)).length = (only (· == key) r).length :=
    ((inOrder_perm r).filter _).length_eq
  have honly : (only (· == key) r).Sublist (only (· == key) (inOrder r)) := hself ▸ hsub.filter _
  exact (honly.eq_of_length hlen.symm).symm

theorem alike_inOrder : Alike (inOrder r) r :=
  ⟨only_name_inOrder, fun _ => only_key_inOrder⟩

theorem perm_of_alike (h : Alike r r') (hn : r.keys.Nodup) (hn' : r'.keys.Nodup) : r.Perm r' :=
  (List.perm_ext_iff_of_nodup (List.Nodup.of_map _ hn) (List.Nodup.of_map _ hn')).mpr
    fun _ => h.mem_iff

-- Without repeats, indices stand in their order in one way only.
theorem Alike.inOrder_eq (h : Alike r r') (hn : r.keys.Nodup) (hn' : r'.keys.Nodup) :
    inOrder r = inOrder r' := by
  have hp := perm_of_alike h hn hn'
  have hnames : (r.filter fun e => !(index? e.1).isSome) =
      r'.filter fun e => !(index? e.1).isSome := by
    have hname (r : Record α) : (r.filter fun e => !(index? e.1).isSome) = only isName r := by
      refine List.filter_congr fun e _ => ?_
      cases he : index? e.1 <;> simp [isName, he]
    rw [hname, hname, h.names]
  have hindexed : byIndex r = byIndex r' := by
    have hpi : (byIndex r).Perm (byIndex r') :=
      (byIndex_perm.trans (hp.filterMap _)).trans byIndex_perm.symm
    refine hpi.eq_of_pairwise (fun a b ha hb hab hba => ?_) pairwise_byIndex pairwise_byIndex
    obtain ⟨m, e⟩ := a
    obtain ⟨n, e'⟩ := b
    obtain rfl : m = n := Nat.le_antisymm hab hba
    have hmem {e : String × α} (he : (m, e) ∈ byIndex r) : index? e.1 = some m ∧ e ∈ r := by
      have hi := byIndex_perm.mem_iff.mp he
      exact ⟨index?_of_mem_indexed hi,
        List.mem_of_mem_filter (map_indexed ▸ List.mem_map_of_mem hi)⟩
    have ⟨hi, hr⟩ := hmem ha
    have ⟨hi', hr'⟩ := hmem (hpi.mem_iff.mpr hb)
    rw [List.inj_on_of_nodup_map hn hr hr' (eq_of_index? hi hi')]
  rw [Record.inOrder_eq, Record.inOrder_eq, hindexed, hnames]

end Listing

end LayeredDiagram.Record
