import LayeredDiagram.Proofs.Sequence
import LayeredDiagram.Record

namespace LayeredDiagram.Record

variable {α β : Type} {r r' : Record α} {key other : String} {value : α} {e : String × α}

theorem get?_cons : get? (e :: r) key = if e.1 = key then some e.2 else r.get? key := by
  by_cases h : e.1 = key <;> simp [get?, h]

theorem get?_append : get? (r ++ r') key = (r.get? key).or (get? r' key) := by
  simp [get?, List.find?_append, Option.map_or]

theorem get?_insert (h : other ≠ key) :
    get? (r ++ (key, value) :: r') other = get? (r ++ r') other := by
  rw [get?_append, get?_append, get?_cons, if_neg h.symm]

theorem get?_eq_none_iff : r.get? key = none ↔ key ∉ r.keys := by
  rw [get?, Option.map_eq_none_iff, List.find?_eq_none, keys, List.mem_map, not_exists]
  simp only [beq_iff_eq, not_and]

theorem get?_of_mem (hn : r.keys.Nodup) (h : (key, value) ∈ r) : r.get? key = some value := by
  induction r with
  | nil          => nomatch h
  | cons e r hi =>
    have ⟨hnot, hn⟩ := List.nodup_cons.mp hn
    cases h
    case head   => simp [get?_cons]
    case tail h =>
      have hne : e.1 ≠ key := by
        rintro rfl
        exact hnot (List.mem_map.mpr ⟨_, h, rfl⟩)
      rw [get?_cons, if_neg hne, hi hn h]

theorem mem_of_get? (h : r.get? key = some value) : (key, value) ∈ r := by
  obtain ⟨⟨other, _⟩, hf, rfl⟩ := Option.map_eq_some_iff.mp h
  obtain rfl : other = key := by simpa using List.find?_some hf
  exact List.mem_of_find?_eq_some hf

theorem nodup_keys_perm (hn : r.keys.Nodup) (h : r'.Perm r) : r'.keys.Nodup :=
  (h.map fun e : String × α => e.1).nodup_iff.mpr hn

-- Where no key repeats, the order of the fields is not seen.
theorem get?_eq_of_perm (hn : r.keys.Nodup) (h : r'.Perm r) : r'.get? key = r.get? key := by
  have hk : r'.keys.Perm r.keys := h.map _
  cases hg : r.get? key with
  | none       => rw [get?_eq_none_iff, hk.mem_iff, ← get?_eq_none_iff, hg]
  | some value => exact get?_of_mem (nodup_keys_perm hn h) (h.mem_iff.mpr (mem_of_get? hg))

theorem has_eq_isSome : r.has key = (r.get? key).isSome := by
  rw [Bool.eq_iff_iff]
  simp [has, get?]

theorem get?_map (f : α → β) :
    get? (r.map fun (key, value) => (key, f value)) key = (r.get? key).map f := by
  induction r with
  | nil          => rfl
  | cons e r hi =>
    rw [List.map_cons, get?_cons, get?_cons, hi]
    by_cases he : e.1 = key <;> simp [he]

-- Setting a field changes what is found under its key and nothing else.
theorem get?_put : (r.put key value).get? other =
    if other = key then some value else r.get? other := by
  induction r with
  | nil => simp [put, get?_cons, eq_comm (a := key)]
  | cons e r hi =>
    by_cases he : e.1 = key
    case pos =>
      subst he
      simp only [put, beq_self_eq_true, if_true, get?_cons, eq_comm (a := e.1)]
      split <;> rfl
    case neg =>
      simp only [put, beq_iff_eq, he, if_false, get?_cons, hi]
      by_cases ho : other = key <;> simp [ho, he]

-- Fields under other keys stay in front.
theorem put_append (h : r.get? key = none) : put (r ++ r') key value = r ++ put r' key value := by
  induction r with
  | nil          => rfl
  | cons e r hi =>
    have ⟨he, hr⟩ := List.ne_and_not_mem_of_not_mem_cons (get?_eq_none_iff.mp h)
    rw [List.cons_append, put, if_neg (by simpa using he.symm), hi (get?_eq_none_iff.mpr hr),
      List.cons_append]

theorem put_of_get?_eq_none (h : r.get? key = none) : r.put key value = r ++ [(key, value)] := by
  simpa [put] using (put_append h : put (r ++ []) key value = r ++ put [] key value)

-- A key that is new goes to the end.
theorem keys_put : (r.put key value).keys = if key ∈ r.keys then r.keys else r.keys ++ [key] := by
  induction r with
  | nil          => simp [put, keys]
  | cons e r hi =>
    rw [put]
    by_cases he : e.1 = key
    case pos => simp [he, keys]
    case neg =>
      rw [if_neg (by simpa using he)]
      simp only [keys, List.map_cons, List.mem_cons] at hi ⊢
      rw [hi]
      by_cases hm : key ∈ r.map (·.1) <;> simp [hm, Ne.symm he]

theorem mem_keys_put_iff : other ∈ (r.put key value).keys ↔ other = key ∨ other ∈ r.keys := by
  rw [keys_put]
  by_cases hm : key ∈ r.keys
  case neg => simp [hm, or_comm]
  case pos =>
    rw [if_pos hm]
    exact ⟨.inr, fun h => h.elim (· ▸ hm) id⟩

theorem nodup_keys_put (h : r.keys.Nodup) : (r.put key value).keys.Nodup := by
  rw [keys_put]
  split
  case isTrue     => exact h
  case isFalse hm => exact List.Nodup.append h (List.nodup_singleton _) (by simpa using hm)

-- The key in front stays there.
theorem head?_keys_put : (r.put key value).keys.head? = some (r.keys.head?.getD key) := by
  rw [keys_put]
  cases hr : r.keys with
  | nil            => simp
  | cons first rest =>
    by_cases hm : key ∈ first :: rest <;> simp [hm]

theorem get?_merge_of_get?_eq_none (h : r'.get? key = none) :
    (r.merge r').get? key = r.get? key := by
  induction r' generalizing r with
  | nil          => rfl
  | cons e r' hi =>
    have ⟨hne, hn⟩ := List.ne_and_not_mem_of_not_mem_cons (get?_eq_none_iff.mp h)
    rw [merge, List.foldl_cons, ← merge, hi (get?_eq_none_iff.mpr hn), get?_put, if_neg hne]

theorem get?_erase : (r.erase key).get? other = if other = key then none else r.get? other := by
  simp only [get?, erase, List.find?_filter]
  split
  case isTrue h  => simp [h, List.find?_eq_none]
  case isFalse h =>
    refine congrArg _ (congrArg (r.find? ·) (funext fun e => ?_))
    by_cases he : e.1 = other <;> simp [he, h]

section Listing

-- The fields whose keys are indices, each after its index.
def indexed (r : Record α) : List (Nat × String × α) :=
  r.filterMap fun e => (index? e.1).map (·, e)

def byIndex (r : Record α) : List (Nat × String × α) :=
  (indexed r).mergeSort fun a b => a.1 ≤ b.1

theorem inOrder_eq :
    inOrder r = (byIndex r).map (·.2) ++ r.filter fun e => !(index? e.1).isSome := by
  simp [inOrder, byIndex, indexed]

theorem index?_of_mem_indexed {n : Nat} (h : (n, e) ∈ indexed r) : index? e.1 = some n := by
  obtain ⟨e', _, h⟩ := List.mem_filterMap.mp h
  obtain ⟨n', hn, h⟩ := Option.map_eq_some_iff.mp h
  cases h
  exact hn

theorem map_indexed : (indexed r).map (·.2) = r.filter fun e => (index? e.1).isSome := by
  rw [indexed, List.map_filterMap, ← List.filterMap_eq_filter]
  refine List.filterMap_congr fun e _ => ?_
  cases hi : index? e.1 <;> simp [Option.guard, hi]

theorem byIndex_perm : (byIndex r).Perm (indexed r) :=
  List.mergeSort_perm _ _

-- Listing the fields changes their order only.
theorem inOrder_perm (r : Record α) : (inOrder r).Perm r := by
  rw [inOrder_eq]
  refine ((byIndex_perm.map _).append_right _).trans ?_
  rw [map_indexed]
  exact List.filter_append_perm _ r

theorem nodup_keys_inOrder (h : r.keys.Nodup) : (keys (inOrder r)).Nodup :=
  nodup_keys_perm h (inOrder_perm r)

-- An index stands behind neither a greater one nor a key that is none.
def Leads (key other : String) : Prop :=
  ∀ n, index? other = some n → ∃ m, index? key = some m ∧ m ≤ n

theorem pairwise_byIndex : (byIndex r).Pairwise fun a b => a.1 ≤ b.1 := by
  refine (List.pairwise_mergeSort (fun a b c hab hbc => ?trans) (fun a b => ?total) _).imp
    of_decide_eq_true
  case trans => exact decide_eq_true (Nat.le_trans (of_decide_eq_true hab) (of_decide_eq_true hbc))
  case total => simpa using Nat.le_total a.1 b.1

theorem pairwise_keys_inOrder : (keys (inOrder r)).Pairwise Leads := by
  have hother (e : String × α) (he : e ∈ r.filter fun e => !(index? e.1).isSome) (key : String) :
      Leads key e.1 := by
    intro n hn
    simp [hn] at he
  rw [inOrder_eq, keys, List.pairwise_map, List.pairwise_append, List.pairwise_map]
  refine ⟨pairwise_byIndex.imp_of_mem fun {a b} ha hb hle n hn => ?indices,
    List.pairwise_of_forall_mem_list fun _ _ b hb => hother b hb _,
    fun _ _ b hb => hother b hb _⟩
  case indices =>
    have hb := index?_of_mem_indexed (byIndex_perm.mem_iff.mp hb)
    obtain rfl := Option.some.inj (hb.symm.trans hn)
    exact ⟨a.1, index?_of_mem_indexed (byIndex_perm.mem_iff.mp ha), hle⟩

-- Fields that stand as they are listed stay in their places.
theorem inOrder_of_pairwise (h : r.keys.Pairwise Leads) : inOrder r = r := by
  have h : r.Pairwise fun a b => Leads a.1 b.1 := List.pairwise_map.mp h
  have hsorted : byIndex r = indexed r := by
    refine List.mergeSort_of_pairwise (List.Pairwise.filterMap _ (fun a b hl c hc d hd => ?_) h)
    obtain ⟨m, hm, rfl⟩ := Option.map_eq_some_iff.mp hc
    obtain ⟨n, hn, rfl⟩ := Option.map_eq_some_iff.mp hd
    obtain ⟨m', hm', hle⟩ := hl n hn
    obtain rfl := Option.some.inj (hm.symm.trans hm')
    exact decide_eq_true hle
  rw [inOrder_eq, hsorted, map_indexed]
  refine filter_append_of_pairwise (h.imp fun {a b} hl hb => ?_)
  obtain ⟨n, hn⟩ := Option.isSome_iff_exists.mp hb
  obtain ⟨m, hm, _⟩ := hl n hn
  rw [hm, Option.isSome_some]

theorem inOrder_map (f : α → β) : inOrder (r.map fun e => (e.1, f e.2)) =
    (inOrder r).map fun e => (e.1, f e.2) := by
  have hi : indexed (r.map fun e => (e.1, f e.2)) =
      (indexed r).map fun e => (e.1, e.2.1, f e.2.2) := by
    rw [indexed, List.filterMap_map, indexed, List.map_filterMap]
    refine List.filterMap_congr fun e _ => ?_
    rw [Option.map_map]
    rfl
  have hb : byIndex (r.map fun e => (e.1, f e.2)) =
      (byIndex r).map fun e => (e.1, e.2.1, f e.2.2) := by
    rw [byIndex, hi, byIndex, List.map_mergeSort]
    exact fun _ _ _ _ => rfl
  rw [inOrder_eq, hb, List.filter_map, inOrder_eq, List.map_append, List.map_map, List.map_map]
  rfl

end Listing

end LayeredDiagram.Record
