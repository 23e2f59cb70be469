import Mathlib.Data.List.Forall2
import Mathlib.Data.List.Nodup

namespace LayeredDiagram

variable {ε α β : Type} {x : Except ε α} {k : α → Except ε β} {f : α → Except ε β} {e : ε}
  {b : β} {as : List α} {bs : List β}

theorem bind_eq_ok_iff : x >>= k = .ok b ↔ ∃ a, x = .ok a ∧ k a = .ok b := by
  cases x <;> simp [bind, Except.bind]

theorem bind_eq_error_iff :
    x >>= k = .error e ↔ x = .error e ∨ ∃ a, x = .ok a ∧ k a = .error e := by
  cases x <;> simp [bind, Except.bind]

-- All goes well if and only if every part does.
theorem mapM_eq_ok_iff : as.mapM f = .ok bs ↔ List.Forall₂ (fun a b => f a = .ok b) as bs := by
  induction as generalizing bs with
  | nil => simp [pure, Except.pure, eq_comm]
  | cons a as hi =>
    simp only [List.mapM_cons, bind_eq_ok_iff, List.forall₂_cons_left_iff]
    constructor
    case mp  => exact fun ⟨b, hb, bs, hbs, h⟩ => ⟨b, bs, hb, hi.mp hbs, (Except.ok.inj h).symm⟩
    case mpr => exact fun ⟨b, bs, hb, hbs, h⟩ => ⟨b, hb, bs, hi.mpr hbs, h ▸ rfl⟩

-- Otherwise a sequence fails as its first part that does not go well.
theorem mapM_eq_error_iff : as.mapM f = .error e ↔ ∃ before a after, as = before ++ a :: after ∧
    (∀ c ∈ before, ∃ b, f c = .ok b) ∧ f a = .error e := by
  induction as with
  | nil => simp [pure, Except.pure]
  | cons c as hi =>
    simp only [List.mapM_cons, bind_eq_error_iff, hi]
    constructor
    case mp =>
      rintro (hc | ⟨b, hc, ⟨before, a, after, rfl, hb, ha⟩ | ⟨_, _, h⟩⟩)
      case inl     => exact ⟨[], c, as, rfl, nofun, hc⟩
      case inr.inl =>
        exact ⟨c :: before, a, after, rfl, List.forall_mem_cons.mpr ⟨⟨b, hc⟩, hb⟩, ha⟩
      case inr.inr => nomatch h
    case mpr =>
      rintro ⟨before, a, after, h, hb, ha⟩
      cases before with
      | nil =>
        cases h
        exact .inl ha
      | cons d before =>
        cases h
        have ⟨⟨b, hd⟩, hb⟩ := List.forall_mem_cons.mp hb
        exact .inr ⟨b, hd, .inl ⟨before, a, after, rfl, hb, ha⟩⟩

theorem exists_of_mem_mapM (h : as.mapM f = .ok bs) (hb : b ∈ bs) : ∃ a ∈ as, f a = .ok b := by
  replace h := mapM_eq_ok_iff.mp h
  induction h with
  | nil          => nomatch hb
  | cons ha _ hi =>
    cases hb
    case head => exact ⟨_, List.mem_cons_self, ha⟩
    case tail hb =>
      have ⟨a, hm, ha⟩ := hi hb
      exact ⟨a, List.mem_cons_of_mem _ hm, ha⟩

theorem map_eq_of_mapM {γ : Type} {g : β → γ} {k : α → γ} (h : as.mapM f = .ok bs)
    (hk : ∀ a b, f a = .ok b → g b = k a) : bs.map g = as.map k := by
  replace h := mapM_eq_ok_iff.mp h
  induction h with
  | nil          => rfl
  | cons ha _ hi => rw [List.map_cons, List.map_cons, hk _ _ ha, hi]

theorem exists_mapM_eq_ok (h : ∀ a ∈ as, ∃ b, f a = .ok b) : ∃ bs, as.mapM f = .ok bs := by
  cases hm : as.mapM f with
  | ok bs => exact ⟨bs, rfl⟩
  | error e =>
    have ⟨_, a, _, ha, _, he⟩ := mapM_eq_error_iff.mp hm
    have ⟨b, hb⟩ := h a (by simp [ha])
    nomatch he ▸ hb

theorem foldlM_eq_ok_congr {step step' : β → α → Except ε β}
    (h : ∀ b a c, step b a = .ok c ↔ step' b a = .ok c) {c : β} :
    as.foldlM step b = .ok c ↔ as.foldlM step' b = .ok c := by
  induction as generalizing b with
  | nil          => rfl
  | cons a as hi => simp only [List.foldlM_cons, bind_eq_ok_iff, h, hi]

theorem foldl_eq_of_foldlM {step : β → α → Except ε β} {next : β → α → β}
    (h : ∀ b a c, step b a = .ok c → c = next b a) {c : β} (hc : as.foldlM step b = .ok c) :
    c = as.foldl next b := by
  induction as generalizing b with
  | nil          => exact (Except.ok.inj hc).symm
  | cons a as hi =>
    rw [List.foldlM_cons] at hc
    obtain ⟨d, hd, hc⟩ := bind_eq_ok_iff.mp hc
    rw [List.foldl_cons, ← h b a d hd, hi hc]

-- Lists with distinct keys have the same elements once they have the same keys.
theorem perm_of_map_perm (key : α → β) {as bs : List α} (hn : (bs.map key).Nodup)
    (h : (as.map key).Perm (bs.map key)) (hm : ∀ a ∈ as, a ∈ bs) : as.Perm bs := by
  refine (List.perm_ext_iff_of_nodup (h.nodup_iff.mpr hn).of_map hn.of_map).mpr fun b => ?_
  refine ⟨hm b, fun hb => ?_⟩
  have ⟨a, ha, he⟩ := List.mem_map.mp (h.mem_iff.mpr (List.mem_map_of_mem hb))
  exact List.inj_on_of_nodup_map hn (hm a ha) hb he ▸ ha

-- A list that shows as several lists in a row parts into as many.
theorem exists_parts_of_map_eq {key : α → β} {groups : List (List β)}
    (h : as.map key = groups.flatten) :
    ∃ parts : List (List α), as = parts.flatten ∧ parts.map (·.map key) = groups := by
  induction groups generalizing as with
  | nil => exact ⟨[], List.map_eq_nil_iff.mp h, rfl⟩
  | cons group groups hi =>
    obtain ⟨part, rest, rfl, hp, hr⟩ := List.map_eq_append_iff.mp h
    obtain ⟨parts, rfl, hm⟩ := hi hr
    exact ⟨part :: parts, rfl, congrArg₂ List.cons hp hm⟩

-- Parts hold nothing that parts them.
theorem eq_false_of_mem_splitOnP {p : α → Bool} {as part : List α} {a : α}
    (h : part ∈ as.splitOnP p) (ha : a ∈ part) : p a = false := by
  induction as generalizing part with
  | nil          => simp_all
  | cons b as hi =>
    rw [List.splitOnP_cons_eq_if_modifyHead] at h
    split at h
    case isTrue =>
      cases h
      case head   => nomatch ha
      case tail h => exact hi h ha
    case isFalse hb =>
      obtain ⟨first, rest, hs⟩ := List.exists_cons_of_ne_nil (List.splitOnP_ne_nil p as)
      rw [hs, List.modifyHead_cons] at h
      cases h
      case tail h => exact hi (hs ▸ List.mem_cons_of_mem _ h) ha
      case head   =>
        cases ha
        case head    => exact eq_false_of_ne_true hb
        case tail ha => exact hi (hs ▸ List.mem_cons_self) ha

-- All that does not part them is in the parts, in its order.
theorem flatten_splitOnP (p : α → Bool) (as : List α) :
    (as.splitOnP p).flatten = as.filter (!p ·) := by
  induction as with
  | nil          => rfl
  | cons a as hi =>
    rw [List.splitOnP_cons_eq_if_modifyHead, List.filter_cons, ← hi]
    obtain ⟨first, rest, hs⟩ := List.exists_cons_of_ne_nil (List.splitOnP_ne_nil p as)
    by_cases ha : p a <;> simp [ha, hs]

theorem exists_mem_splitOnP {p : α → Bool} {as : List α} {a : α} (ha : a ∈ as) (hp : p a = false) :
    ∃ part ∈ as.splitOnP p, a ∈ part := by
  rw [← List.mem_flatten, flatten_splitOnP, List.mem_filter]
  exact ⟨ha, by rw [hp, Bool.not_false]⟩

section Interleaving

-- The third list holds the elements of the other two, those of each in their own order.
inductive Interleaves : List α → List α → List α → Prop
  | nil : Interleaves [] [] []
  | left {a as bs cs} : Interleaves as bs cs → Interleaves (a :: as) bs (a :: cs)
  | right {b as bs cs} : Interleaves as bs cs → Interleaves as (b :: bs) (b :: cs)

namespace Interleaves

variable {as bs cs : List α} {a : α}

theorem symm (h : Interleaves as bs cs) : Interleaves bs as cs := by
  induction h with
  | nil        => exact .nil
  | left _ hi  => exact .right hi
  | right _ hi => exact .left hi

theorem map (f : α → β) (h : Interleaves as bs cs) :
    Interleaves (as.map f) (bs.map f) (cs.map f) := by
  induction h with
  | nil        => exact .nil
  | left _ hi  => exact .left hi
  | right _ hi => exact .right hi

theorem perm (h : Interleaves as bs cs) : cs.Perm (as ++ bs) := by
  induction h with
  | nil        => exact .nil
  | left _ hi  => exact hi.cons _
  | right _ hi => exact (hi.cons _).trans List.perm_middle.symm

theorem mem_iff (h : Interleaves as bs cs) : a ∈ cs ↔ a ∈ as ∨ a ∈ bs := by
  rw [h.perm.mem_iff, List.mem_append]

theorem sublist (h : Interleaves as bs cs) : as.Sublist cs := by
  induction h with
  | nil        => exact .slnil
  | left _ hi  => exact hi.cons_cons _
  | right _ hi => exact hi.cons _

theorem filter_eq {P : α → Bool} (h : Interleaves as bs cs) (hn : ∀ b ∈ bs, P b = false) :
    cs.filter P = as.filter P := by
  induction h with
  | nil        => rfl
  | left _ hi  => rw [List.filter_cons, List.filter_cons, hi hn]
  | right _ hi =>
    have ⟨hb, hn⟩ := List.forall_mem_cons.mp hn
    rw [List.filter_cons, if_neg (by simp [hb]), hi hn]

end Interleaves

end Interleaving

section Ordered

variable {R : α → α → Prop} [DecidableRel R] {as : List α} {a : α} {i : Nat}

-- In an ordered list an element stands after as many as are before it in the order.
theorem countP_of_pairwise (hasymm : ∀ a b, R a b → ¬R b a) (h : as.Pairwise R)
    (ha : as[i]? = some a) : as.countP (R · a) = i := by
  induction as generalizing i with
  | nil => simp at ha
  | cons b as hi =>
    have ⟨hb, h⟩ := List.pairwise_cons.mp h
    cases i with
    | zero =>
      obtain rfl : b = a := by simpa using ha
      rw [List.countP_eq_zero]
      simp only [decide_eq_true_eq]
      refine List.forall_mem_cons.mpr ⟨fun hr => hasymm _ _ hr hr, fun c hc => hasymm _ _ (hb c hc)⟩
    | succ i =>
      have ha : as[i]? = some a := by simpa using ha
      rw [List.countP_cons_of_pos (by simpa using hb a (List.mem_of_getElem? ha)), hi h ha]

end Ordered

-- Elements that come first anyway are where they were once they have been put first.
theorem filter_append_of_pairwise {p : α → Bool} {as : List α}
    (h : as.Pairwise fun a b => p b → p a) : as.filter p ++ as.filter (!p ·) = as := by
  induction as with
  | nil          => rfl
  | cons a as hi =>
    have ⟨ha, h⟩ := List.pairwise_cons.mp h
    cases hp : p a with
    | true  => rw [List.filter_cons_of_pos hp, List.filter_cons_of_neg (by simp [hp]),
        List.cons_append, hi h]
    | false =>
      have hno : as.filter p = [] :=
        List.filter_eq_nil_iff.mpr fun b hb hpb => Bool.false_ne_true (hp.symm.trans (ha b hb hpb))
      have hi := hi h
      rw [hno, List.nil_append] at hi
      rw [List.filter_cons_of_neg (by simp [hp]), List.filter_cons_of_pos (by simp [hp]), hno, hi,
        List.nil_append]

section Groups

variable {key : α → β} [BEq β] [LawfulBEq β] {groups : List (List α)} {g : List α} {a : α}

-- Each of the groups holds one key.
theorem filter_flatten_of_mem (hk : ∀ g ∈ groups, ∀ a ∈ g, ∀ b ∈ g, key a = key b)
    (hn : groups.Pairwise fun g h => ∀ a ∈ g, ∀ b ∈ h, key a ≠ key b) (hg : g ∈ groups)
    (ha : a ∈ g) : groups.flatten.filter (key · == key a) = g := by
  induction groups with
  | nil => nomatch hg
  | cons h groups hi =>
    have ⟨hk₁, hk⟩ := List.forall_mem_cons.mp hk
    have ⟨hn₁, hn⟩ := List.pairwise_cons.mp hn
    rw [List.flatten_cons, List.filter_append]
    cases hg
    case head =>
      have hrest : groups.flatten.filter (key · == key a) = [] := by
        simp only [List.filter_eq_nil_iff, List.mem_flatten, beq_iff_eq]
        rintro b ⟨g', hg', hb⟩ he
        exact hn₁ g' hg' a ha b hb he.symm
      rw [hrest, List.append_nil, List.filter_eq_self]
      simpa using fun b hb => hk₁ b hb a ha
    case tail hg =>
      have hfirst : h.filter (key · == key a) = [] := by
        simp only [List.filter_eq_nil_iff, beq_iff_eq]
        exact fun b hb => hn₁ g hg b hb a ha
      rw [hfirst, List.nil_append, hi hk hn hg]

end Groups

section Distinct

variable {r : α → α → Bool} {as : List α} {a : α}

-- What is taken as the same as the first element is taken out of the others.
@[elab_as_elim]
theorem eraseDupsBy_induct {motive : List α → Prop} (r : α → α → Bool) (nil : motive [])
    (cons : ∀ a as, motive (as.filter fun b => r b a = false) → motive (a :: as)) (as : List α) :
    motive as := by
  match as with
  | [] => exact nil
  | a :: as =>
    have := List.length_filter_le (fun b => r b a = false) as
    exact cons a as (eraseDupsBy_induct r nil cons _)
termination_by as.length
decreasing_by exact Nat.lt_succ_of_le this

theorem eraseDupsBy_sublist (r : α → α → Bool) (as : List α) : (as.eraseDupsBy r).Sublist as := by
  induction as using eraseDupsBy_induct r with
  | nil          => exact .slnil
  | cons a as hi =>
    rw [List.eraseDupsBy_cons]
    exact (hi.trans List.filter_sublist).cons_cons a

-- Of elements that are taken as the same, the first one stays.
theorem exists_mem_eraseDupsBy (hr : ∀ a, r a a) (ha : a ∈ as) :
    ∃ b ∈ as.eraseDupsBy r, r a b := by
  induction as using eraseDupsBy_induct r with
  | nil          => nomatch ha
  | cons b as hi =>
    rw [List.eraseDupsBy_cons]
    by_cases hab : r a b
    case pos => exact ⟨b, List.mem_cons_self, hab⟩
    case neg =>
      have ha := (List.mem_cons.mp ha).resolve_left fun h => hab (h ▸ hr a)
      have ⟨c, hc, hac⟩ := hi (List.mem_filter.mpr ⟨ha, by simpa using hab⟩)
      exact ⟨c, List.mem_cons_of_mem _ hc, hac⟩

theorem filter_eraseDupsBy {P : α → Bool} (hP : ∀ a b, r a b → P a = P b) (as : List α) :
    (as.eraseDupsBy r).filter P = (as.filter P).eraseDupsBy r := by
  induction as using eraseDupsBy_induct r with
  | nil          => rfl
  | cons a as hi =>
    rw [List.eraseDupsBy_cons, List.filter_cons, List.filter_cons, hi]
    split
    case isTrue    => rw [List.eraseDupsBy_cons, List.filter_comm]
    case isFalse h =>
      rw [List.filter_filter]
      congr 1
      refine List.filter_congr fun b _ => ?_
      by_cases hb : r b a
      case pos => simp [hP b a hb, h]
      case neg => simp [hb]

theorem map_eraseDupsBy [BEq β] {f : α → β} (h : ∀ a ∈ as, ∀ b ∈ as, (f a == f b) = r a b) :
    (as.eraseDupsBy r).map f = (as.map f).eraseDups := by
  induction as using eraseDupsBy_induct r with
  | nil          => rfl
  | cons a as hi =>
    have hf : (as.map f).filter (fun b => !b == f a) =
        (as.filter fun b => r b a = false).map f := by
      rw [List.filter_map]
      congr 1
      refine List.filter_congr fun b hb => ?_
      simp [h b (by simp [hb]) a (by simp)]
    rw [List.map_cons, List.eraseDups_cons, List.eraseDupsBy_cons, List.map_cons, hf, hi]
    intro b hb c hc
    exact h b (by simp [List.mem_of_mem_filter hb]) c (by simp [List.mem_of_mem_filter hc])

variable [BEq α] [BEq β]

theorem eraseDups_subset (as : List α) : as.eraseDups ⊆ as :=
  (eraseDupsBy_sublist _ as).subset

theorem nodup_eraseDups [LawfulBEq β] (bs : List β) : bs.eraseDups.Nodup := by
  induction bs using eraseDupsBy_induct (fun b c : β => b == c) with
  | nil          => exact List.nodup_nil
  | cons b bs hi =>
    rw [List.eraseDups_cons, List.nodup_cons]
    exact ⟨by simp, by simpa using hi⟩

theorem eraseDups_map {f : α → β} {as : List α}
    (h : ∀ a ∈ as, ∀ b ∈ as, (f a == f b) = (a == b)) :
    (as.map f).eraseDups = as.eraseDups.map f :=
  (map_eraseDupsBy h).symm

theorem eraseDups_snoc [LawfulBEq α] (as : List α) (a : α) :
    (as ++ [a]).eraseDups = if a ∈ as then as.eraseDups else as.eraseDups ++ [a] := by
  rw [List.eraseDups_append, List.cons_removeAll]
  by_cases ha : a ∈ as <;> simp [ha, List.eraseDups_cons]

theorem removeAll_of_mem [LawfulBEq α] {bs : List α} (ha : a ∈ bs) :
    (a :: as).removeAll bs = as.removeAll bs := by
  rw [List.cons_removeAll, if_neg (by simp [ha])]

theorem eraseDups_removeAll_of_not_mem [LawfulBEq α] {bs : List α} (ha : a ∉ bs) :
    ((a :: as).removeAll bs).eraseDups = a :: (as.removeAll (a :: bs)).eraseDups := by
  rw [List.cons_removeAll, if_pos (by simp [ha]), List.eraseDups_cons, List.removeAll,
    List.removeAll, List.filter_filter]
  simp

end Distinct
end LayeredDiagram
