import LayeredDiagram.Proofs.Markup.Escape
import LayeredDiagram.Proofs.Markup.Fragment
import Mathlib.Data.List.Infix
import Mathlib.Logic.Function.Iterate
import Mathlib.Logic.Relation

namespace LayeredDiagram.Markup

open Text

section Pass

variable {Kind : List Char → Prop} {find : List Char → Nat} {c : Char} {as bs cs ds gap : List Char}
variable {piece : List Char} {parts pieces others : List (List Char)}

-- Nothing of this kind stands anywhere.
def Lacks (Kind : List Char → Prop) (cs : List Char) : Prop :=
  ∀ stretch, Kind stretch → ¬stretch <:+: cs

def Deletes (Kind : List Char → Prop) (cs ds : List Char) : Prop :=
  ∃ before stretch after, Kind stretch ∧ cs = before ++ stretch ++ after ∧ ds = before ++ after

-- What a pass makes of a text: a character is kept if and only if nothing of the kind begins there.
inductive Pass (Kind : List Char → Prop) : List Char → List Char → Prop where
  | nil : Pass Kind [] []
  | keep {c : Char} {cs ds : List Char} (hk : ∀ front, Kind front → ¬front <+: c :: cs)
    (h : Pass Kind cs ds) : Pass Kind (c :: cs) (c :: ds)
  | drop {stretch cs ds : List Char} (hk : Kind stretch) (hne : stretch ≠ [])
    (h : Pass Kind cs ds) : Pass Kind (stretch ++ cs) ds

-- What is left of a text around the gaps in it.
inductive Parted : List Char → List (List Char) → Prop where
  | whole (piece : List Char) : Parted piece [piece]
  | gap {rest : List Char} {pieces : List (List Char)} (piece : List Char) {gap : List Char}
    (hg : gap ≠ []) (h : Parted rest pieces) : Parted (piece ++ gap ++ rest) (piece :: pieces)

theorem Finds.not_nil (h : Finds find Kind) : ¬Kind [] := by
  intro hk
  obtain ⟨n, hn⟩ := Nat.exists_eq_succ_of_ne_zero (h.ne_zero [] [] hk)
  obtain ⟨front, rest, he, hl, _⟩ := h.exists_of_eq _ n hn
  obtain ⟨rfl, _⟩ := List.append_eq_nil_iff.mp he.symm
  nomatch hl

theorem Finds.pass (h : Finds find Kind) (cs : List Char) : Pass Kind cs (removeAll find cs) := by
  match cs with
  | []      => exact .nil
  | c :: cs =>
    cases hf : find (c :: cs) with
    | zero =>
      rw [removeAll_cons_of_zero hf]
      refine .keep (fun front hk hp => ?_) (h.pass cs)
      obtain ⟨rest, hr⟩ := hp
      exact h.ne_zero front rest hk (hr ▸ hf)
    | succ n =>
      obtain ⟨front, rest, he, hl, hk⟩ := h.exists_of_eq _ n hf
      cases front with
      | nil          => nomatch hl
      | cons d front =>
        obtain ⟨rfl, rfl⟩ := List.cons.inj he
        obtain rfl := Nat.succ.inj hl
        rw [removeAll_cons_of_succ hf, List.append_eq, List.drop_left]
        exact .drop hk nofun (h.pass rest)
termination_by cs.length

theorem Pass.sublist (h : Pass Kind cs ds) : ds.Sublist cs := by
  induction h with
  | nil           => exact List.Sublist.refl _
  | keep hk h hi  => exact hi.cons_cons _
  | drop hk hn h hi => exact hi.trans (List.sublist_append_right _ _)

theorem Deletes.cons (h : Deletes Kind cs ds) : Deletes Kind (c :: cs) (c :: ds) := by
  obtain ⟨before, stretch, after, hk, rfl, rfl⟩ := h
  exact ⟨c :: before, stretch, after, hk, rfl, rfl⟩

theorem Pass.deletes {Kind' : List Char → Prop} (h : Pass Kind cs ds)
    (hk : ∀ stretch, Kind stretch → Kind' stretch) :
    Relation.ReflTransGen (Deletes Kind') cs ds := by
  induction h with
  | nil          => exact .refl
  | keep _ _ hi  => exact hi.lift (_ :: ·) fun _ _ => Deletes.cons
  | @drop stretch cs _ hs _ _ hi => exact .head ⟨[], stretch, cs, hk _ hs, rfl, rfl⟩ hi

theorem lacks_cons_iff : Lacks Kind (c :: cs) ↔
    (∀ front, Kind front → ¬front <+: c :: cs) ∧ Lacks Kind cs := by
  simp only [Lacks, List.infix_cons_iff, not_or, ← forall_and]

-- A pass leaves just those texts alone in which it finds nothing.
theorem Pass.eq_self_iff (h : Pass Kind cs ds) (hn : ¬Kind []) : ds = cs ↔ Lacks Kind cs := by
  induction h with
  | nil =>
    refine iff_of_true rfl fun stretch hk hs => hn ?_
    rwa [List.infix_nil.mp hs] at hk
  | keep hk h hi =>
    rw [List.cons.injEq, lacks_cons_iff, hi]
    exact and_congr_left' (iff_of_true rfl hk)
  | @drop stretch cs ds hk hne h hi =>
    refine iff_of_false (fun he => ?_) fun hl => hl stretch hk (List.prefix_append _ _).isInfix
    have hlen := h.sublist.length_le
    have hpos := List.length_pos_of_ne_nil hne
    rw [he, List.length_append] at hlen
    omega

-- Each part stands in one of the pieces.
def Finer (parts pieces : List (List Char)) : Prop :=
  ∀ part ∈ parts, ∃ piece ∈ pieces, part <:+: piece

namespace Finer

theorem refl (pieces : List (List Char)) : Finer pieces pieces :=
  fun piece hp => ⟨piece, hp, List.infix_refl piece⟩

theorem trans (h : Finer parts pieces) (h' : Finer pieces others) : Finer parts others := by
  intro part hp
  obtain ⟨piece, hm, hi⟩ := h part hp
  obtain ⟨other, ho, hi'⟩ := h' piece hm
  exact ⟨other, ho, hi.trans hi'⟩

theorem append (h : Finer parts pieces) (h' : Finer others pieces) :
    Finer (parts ++ others) pieces :=
  fun part hp => (List.mem_append.mp hp).elim (h part) (h' part)

theorem of_cons (h : Finer parts pieces) (piece : List Char) : Finer parts (piece :: pieces) :=
  h.trans fun p hp => ⟨p, List.mem_cons_of_mem _ hp, List.infix_refl p⟩

theorem of_head (h : ∀ part ∈ parts, part <:+: piece) : Finer parts (piece :: pieces) :=
  fun part hp => ⟨piece, List.mem_cons_self, h part hp⟩

theorem cons (h : Finer parts pieces) (hi : as <:+: piece) :
    Finer (as :: parts) (piece :: pieces) := by
  have hs : Finer [as] (piece :: pieces) := of_head (by simpa using hi)
  exact hs.append (h.of_cons piece)

theorem forall_lacks (h : Finer parts pieces) (hl : ∀ piece ∈ pieces, Lacks Kind piece) :
    ∀ part ∈ parts, Lacks Kind part := by
  intro part hp stretch hk hs
  obtain ⟨piece, hm, hi⟩ := h part hp
  exact hl piece hm stretch hk (hs.trans hi)

end Finer

namespace Parted

theorem exists_cons (h : Parted cs pieces) :
    ∃ piece rest, pieces = piece :: rest ∧ piece <+: cs := by
  cases h with
  | whole          => exact ⟨_, _, rfl, List.prefix_refl _⟩
  | gap piece hg h => exact ⟨_, _, rfl, (List.prefix_append _ _).trans (List.prefix_append _ _)⟩

theorem cons (h : Parted cs (piece :: pieces)) (c : Char) :
    Parted (c :: cs) ((c :: piece) :: pieces) := by
  cases h with
  | whole          => exact .whole _
  | gap piece hg h => exact .gap (c :: piece) hg h

theorem append (h : Parted as pieces) (hg : gap ≠ []) (h' : Parted bs others) :
    Parted (as ++ gap ++ bs) (pieces ++ others) := by
  induction h with
  | whole piece       => exact .gap piece hg h'
  | gap piece hp h hi => simpa using hi.gap piece hp

theorem isInfix (h : Parted cs pieces) : ∀ piece ∈ pieces, piece <:+: cs := by
  induction h with
  | whole piece => simp
  | @gap rest pieces piece gap hg h hi =>
    have hp := (List.prefix_append piece gap).trans (List.prefix_append (piece ++ gap) rest)
    refine List.forall_mem_cons.mpr ⟨hp.isInfix, fun p hm => ?_⟩
    exact (hi p hm).trans (List.suffix_append _ _).isInfix

-- A gap at either end leaves an empty piece there.
theorem exists_gap_left (h : Parted cs pieces) (gap : List Char) : ∃ parts,
    Parted (gap ++ cs) parts ∧ parts.flatten = pieces.flatten ∧ Finer parts pieces := by
  by_cases hg : gap = []
  case pos => exact ⟨pieces, by rwa [hg], rfl, .refl pieces⟩
  case neg =>
    obtain ⟨piece, rest, rfl, _⟩ := h.exists_cons
    have hs : Finer [[]] (piece :: rest) := .of_head (by simp)
    exact ⟨[] :: piece :: rest, .gap [] hg h, rfl, hs.append (.refl _)⟩

theorem exists_gap_right (piece gap : List Char) : ∃ parts, Parted (piece ++ gap) parts ∧
    parts.flatten = piece ∧ ∀ part ∈ parts, part <:+: piece := by
  by_cases hg : gap = []
  case pos => exact ⟨[piece], by simpa [hg] using whole piece, by simp, by simp⟩
  case neg => exact ⟨[piece, []], by simpa using (whole []).gap piece hg, by simp, by simp⟩

-- What is left on either side of a place, which is in a piece, behind a gap or in a gap.
theorem exists_split (h : Parted (as ++ bs) pieces) : ∃ left right, Parted as left ∧
    Parted bs right ∧ left.flatten ++ right.flatten = pieces.flatten ∧
      Finer left pieces ∧ Finer right pieces := by
  generalize he : as ++ bs = cs at h
  induction h generalizing as with
  | whole piece =>
    subst he
    exact ⟨[as], [bs], .whole as, .whole bs, by simp,
      .of_head (by simpa using (List.prefix_append as bs).isInfix),
      .of_head (by simpa using (List.suffix_append as bs).isInfix)⟩
  | @gap rest pieces piece gap hg h hi =>
    rw [List.append_assoc] at he
    obtain ⟨back, rfl, rfl⟩ | ⟨front, rfl, hf⟩ := List.append_eq_append_iff.mp he
    case inl =>
      exact ⟨[as], back :: pieces, .whole as, by simpa using h.gap back hg, by simp,
        .of_head (by simpa using (List.prefix_append as back).isInfix),
        (Finer.refl pieces).cons (List.suffix_append as back).isInfix⟩
    case inr =>
      obtain ⟨back, rfl, rfl⟩ | ⟨back, rfl, rfl⟩ := List.append_eq_append_iff.mp hf
      case inl =>
        obtain ⟨left, right, hl, hr, hf, hfl, hfr⟩ := hi rfl
        exact ⟨piece :: left, right, by simpa using hl.gap piece hg, hr, by simp [← hf],
          hfl.cons (List.infix_refl piece), hfr.of_cons piece⟩
      case inr =>
        obtain ⟨left, hl, hf, hfl⟩ := exists_gap_right piece front
        obtain ⟨right, hr, hf', hfr⟩ := h.exists_gap_left back
        exact ⟨left, right, hl, hr, by simp [hf, hf'], .of_head hfl, hfr.of_cons piece⟩

-- What is left of that which had been left.
theorem exists_refine (h : Parted cs pieces) (h' : Parted pieces.flatten others) : ∃ parts,
    Parted cs parts ∧ parts.flatten = others.flatten ∧ Finer parts pieces ∧ Finer parts others := by
  induction h generalizing others with
  | whole piece =>
    rw [List.flatten_singleton] at h'
    exact ⟨others, h', rfl, .of_head h'.isInfix, .refl others⟩
  | @gap rest pieces piece gap hg h hi =>
    rw [List.flatten_cons] at h'
    obtain ⟨left, right, hl, hr, hf, hfl, hfr⟩ := h'.exists_split
    obtain ⟨parts, hp, hf', hfp, hfp'⟩ := hi hr
    exact ⟨left ++ parts, hl.append hg hp, by simp [hf', hf],
      .append (.of_head hl.isInfix) (hfp.of_cons piece), hfl.append (hfp'.trans hfr)⟩

end Parted

-- No piece that a pass leaves has anything of the kind in it.
theorem Pass.exists_parted (h : Pass Kind cs ds) (hn : ¬Kind []) : ∃ pieces,
    Parted cs pieces ∧ pieces.flatten = ds ∧ ∀ piece ∈ pieces, Lacks Kind piece := by
  have hnil : Lacks Kind [] := fun stretch hk hs => hn (List.infix_nil.mp hs ▸ hk)
  induction h with
  | nil => exact ⟨[[]], .whole [], rfl, by simpa using hnil⟩
  | keep hk h hi =>
    obtain ⟨pieces, hp, rfl, hl⟩ := hi
    obtain ⟨piece, rest, rfl, hpre⟩ := hp.exists_cons
    have ⟨hl, hr⟩ := List.forall_mem_cons.mp hl
    refine ⟨_, hp.cons _, rfl, List.forall_mem_cons.mpr ⟨lacks_cons_iff.mpr ⟨?_, hl⟩, hr⟩⟩
    exact fun front hf hpf => hk front hf (hpf.trans (List.cons_prefix_cons.mpr ⟨rfl, hpre⟩))
  | @drop stretch cs ds hk hne h hi =>
    obtain ⟨pieces, hp, rfl, hl⟩ := hi
    exact ⟨[] :: pieces, .gap [] hne hp, rfl, List.forall_mem_cons.mpr ⟨hnil, hl⟩⟩

end Pass

section Strip

variable {cs : List Char}

-- The three passes.
def strip (cs : List Char) : List Char :=
  removeAll (leadLength visualScriptAddress)
    (removeAll (leadLength scriptAddress) (removeAll handlerLength cs))

def Harmless (cs : List Char) : Prop :=
  Lacks IsFragment cs

theorem finds_scriptAddress : Finds (leadLength scriptAddress) (SameLetters scriptAddress) :=
  finds_leadLength (by decide)

theorem finds_visualScriptAddress :
    Finds (leadLength visualScriptAddress) (SameLetters visualScriptAddress) :=
  finds_leadLength (by decide)

theorem exists_passes (cs : List Char) : ∃ as bs, Pass IsHandler cs as ∧
    Pass (SameLetters scriptAddress) as bs ∧ Pass (SameLetters visualScriptAddress) bs (strip cs) :=
  ⟨_, _, finds_handlerLength.pass cs, finds_scriptAddress.pass _, finds_visualScriptAddress.pass _⟩

theorem harmless_iff : Harmless cs ↔ Lacks IsHandler cs ∧ Lacks (SameLetters scriptAddress) cs ∧
    Lacks (SameLetters visualScriptAddress) cs := by
  simp only [Harmless, Lacks, IsFragment, or_imp, forall_and]

theorem harmless_of_not_mem (he : '=' ∉ cs) (hc : ':' ∉ cs) : Harmless cs := fun _ hf hi =>
  hf.mem_or_mem.elim (fun hin => he (hi.subset hin)) fun hin => hc (hi.subset hin)

theorem strip_sublist : (strip cs).Sublist cs := by
  obtain ⟨as, bs, h₁, h₂, h₃⟩ := exists_passes cs
  exact h₃.sublist.trans (h₂.sublist.trans h₁.sublist)

theorem strip_deletes : Relation.ReflTransGen (Deletes IsFragment) cs (strip cs) := by
  obtain ⟨as, bs, h₁, h₂, h₃⟩ := exists_passes cs
  exact (h₁.deletes fun _ => .inl).trans ((h₂.deletes fun _ h => .inr (.inl h)).trans
    (h₃.deletes fun _ h => .inr (.inr h)))

theorem strip_eq_self_iff : strip cs = cs ↔ Harmless cs := by
  obtain ⟨as, bs, h₁, h₂, h₃⟩ := exists_passes cs
  have hn₁ := finds_handlerLength.not_nil
  have hn₂ := finds_scriptAddress.not_nil
  have hn₃ := finds_visualScriptAddress.not_nil
  rw [harmless_iff]
  constructor
  case mp =>
    intro he
    -- No pass can have taken anything away.
    have hl₁ := h₁.sublist.length_le
    have hl₂ := h₂.sublist.length_le
    have hl₃ := he ▸ h₃.sublist.length_le
    obtain rfl := h₁.sublist.eq_of_length_le (hl₃.trans hl₂)
    obtain rfl := h₂.sublist.eq_of_length_le hl₃
    exact ⟨(h₁.eq_self_iff hn₁).mp rfl, (h₂.eq_self_iff hn₂).mp rfl, (h₃.eq_self_iff hn₃).mp he⟩
  case mpr =>
    intro ⟨hk₁, hk₂, hk₃⟩
    obtain rfl := (h₁.eq_self_iff hn₁).mpr hk₁
    obtain rfl := (h₂.eq_self_iff hn₂).mpr hk₂
    exact (h₃.eq_self_iff hn₃).mpr hk₃

theorem exists_parted_strip (cs : List Char) : ∃ pieces, Parted cs pieces ∧
    pieces.flatten = strip cs ∧ ∀ piece ∈ pieces, Harmless piece := by
  obtain ⟨as, bs, h₁, h₂, h₃⟩ := exists_passes cs
  obtain ⟨ps₁, hp₁, rfl, hl₁⟩ := h₁.exists_parted finds_handlerLength.not_nil
  obtain ⟨ps₂, hp₂, rfl, hl₂⟩ := h₂.exists_parted finds_scriptAddress.not_nil
  obtain ⟨ps₃, hp₃, he₃, hl₃⟩ := h₃.exists_parted finds_visualScriptAddress.not_nil
  obtain ⟨qs, hq, he, hqp₁, hqp₂⟩ := hp₁.exists_refine hp₂
  obtain ⟨rs, hr, hre, hrq, hrp₃⟩ := hq.exists_refine (he ▸ hp₃)
  exact ⟨rs, hr, hre.trans he₃, fun r hm => harmless_iff.mpr
    ⟨(hrq.trans hqp₁).forall_lacks hl₁ r hm, (hrq.trans hqp₂).forall_lacks hl₂ r hm,
      hrp₃.forall_lacks hl₃ r hm⟩⟩

-- Each time something is found, something is taken away.
theorem exists_iterate_strip (cs : List Char) : ∃ n ≤ cs.length, Harmless (strip^[n] cs) := by
  by_cases h : Harmless cs
  case pos => exact ⟨0, cs.length.zero_le, h⟩
  case neg =>
    have hlt : (strip cs).length < cs.length := by
      refine strip_sublist.length_le.lt_of_ne fun he => h (strip_eq_self_iff.mp ?_)
      exact strip_sublist.eq_of_length he
    obtain ⟨n, hn, hh⟩ := exists_iterate_strip (strip cs)
    exact ⟨n + 1, by omega, hh⟩
termination_by cs.length

end Strip

-- Only fragments are taken away, and all that stand in the text as a whole; what is left is
-- harmless if and only if there is nothing left for another three passes, as there is not after
-- some of them. What has been put together by a pass may be a fragment.
theorem escapeAttribute_leaves (cs : List Char) :
    Relation.ReflTransGen (Deletes IsFragment) (escape cs) (escapeAttribute cs) ∧
    (∃ pieces, Parted (escape cs) pieces ∧ pieces.flatten = escapeAttribute cs ∧
      ∀ piece ∈ pieces, Harmless piece) ∧
    (Harmless (escapeAttribute cs) ↔ strip (escapeAttribute cs) = escapeAttribute cs) ∧
    ∃ n ≤ (escape cs).length, Harmless (strip^[n] (escape cs)) :=
  ⟨strip_deletes, exists_parted_strip (escape cs), strip_eq_self_iff.symm,
    exists_iterate_strip (escape cs)⟩

theorem escapeAttribute_harmless_fails : ¬∀ cs, Harmless (escapeAttribute cs) := by
  intro h
  have he : escapeAttribute "javascrijavascript:pt:alert(1)".toList =
      "javascript:alert(1)".toList := by decide
  refine h "javascrijavascript:pt:alert(1)".toList scriptAddress (.inr (.inl rfl)) ?_
  rw [he]
  exact ⟨[], "alert(1)".toList, by decide⟩

end LayeredDiagram.Markup
