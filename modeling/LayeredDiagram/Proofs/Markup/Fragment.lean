import LayeredDiagram.Markup.Escape
import LayeredDiagram.Proofs.Text.Letters

namespace LayeredDiagram.Markup

open Text

variable {c d : Char} {cs front lead blanks word rest : List Char} {n : Nat}

def IsHandler (cs : List Char) : Prop :=
  ∃ start word blanks, cs = start ++ word ++ blanks ++ ['='] ∧ SameLetters ['o', 'n'] start ∧
    word ≠ [] ∧ (∀ c ∈ word, isWord c) ∧ ∀ c ∈ blanks, isBlank c

-- An event handler is `on`, a word, blanks and an equals sign, and a script address is one of two
-- words with a colon, in letters of any case.
def IsFragment (cs : List Char) : Prop :=
  IsHandler cs ∨ SameLetters scriptAddress cs ∨ SameLetters visualScriptAddress cs

theorem IsFragment.mem_or_mem (h : IsFragment cs) : '=' ∈ cs ∨ ':' ∈ cs := by
  have hcolon {lead : List Char} (hs : SameLetters lead cs) (hl : ':' ∈ lead) : ':' ∈ cs :=
    hs.mem_of_mem (by decide) (by decide) hl
  obtain ⟨start, word, blanks, rfl, _⟩ | hs | hs := h
  case inl     => exact .inl (by simp)
  case inr.inl => exact .inr (hcolon hs (by decide))
  case inr.inr => exact .inr (hcolon hs (by decide))

theorem IsFragment.not_mem (h : IsFragment cs) (hd : d.toNat < 'a'.toNat) (hl : d.toLower = d)
    (hw : isWord d = false) (hb : isBlank d = false) (he : d ≠ '=') (hc : d ≠ ':') : d ∉ cs := by
  have hlead {lead stretch : List Char} (hs : SameLetters lead stretch)
      (hall : lead.all fun c => isWord c || c == ':') : d ∉ stretch := by
    intro hin
    have hd := List.all_eq_true.mp hall d (hs.symm.mem_of_mem hd hl hin)
    simp [hw, hc] at hd
  obtain ⟨start, word, blanks, rfl, hs, _, hword, hblank⟩ | hs | hs := h
  case inl =>
    have hstart : d ∉ start := hlead hs (by decide)
    have hinword : d ∉ word := fun hin => by simp [hword d hin] at hw
    have hinblank : d ∉ blanks := fun hin => by simp [hblank d hin] at hb
    simp [hstart, hinword, hinblank, he]
  case inr.inl => exact hlead hs (by decide)
  case inr.inr => exact hlead hs (by decide)

-- `find` measures what is of this kind, and finds it wherever it begins.
structure Finds (find : List Char → Nat) (Kind : List Char → Prop) : Prop where
  exists_of_eq : ∀ cs n, find cs = n + 1 →
    ∃ front rest, cs = front ++ rest ∧ front.length = n + 1 ∧ Kind front
  ne_zero : ∀ front rest, Kind front → find (front ++ rest) ≠ 0

theorem exists_of_afterWord (h : afterWord n cs ≠ 0) : ∃ blanks rest, cs = blanks ++ '=' :: rest ∧
    afterWord n cs = n + blanks.length + 1 ∧ ∀ c ∈ blanks, isBlank c := by
  induction cs generalizing n with
  | nil          => exact absurd rfl h
  | cons c cs hi =>
    rw [afterWord] at h ⊢
    by_cases he : c = '='
    case pos => exact ⟨[], cs, by rw [he]; rfl, by simp [he], nofun⟩
    case neg =>
      by_cases hb : isBlank c
      case neg => simp [he, hb] at h
      case pos =>
        simp only [he, hb, beq_iff_eq, if_false, if_true] at h ⊢
        obtain ⟨blanks, rest, rfl, hl, hs⟩ := hi h
        refine ⟨c :: blanks, rest, rfl, ?_, List.forall_mem_cons.mpr ⟨hb, hs⟩⟩
        rw [hl, List.length_cons]
        omega

theorem afterWord_ne_zero (hb : ∀ c ∈ blanks, isBlank c) :
    afterWord n (blanks ++ '=' :: rest) ≠ 0 := by
  induction blanks generalizing n with
  | nil              => simp [afterWord]
  | cons c blanks hi =>
    have ⟨hc, hb⟩ := List.forall_mem_cons.mp hb
    have he : c ≠ '=' := by
      rintro rfl
      nomatch hc
    simpa [afterWord, he, hc] using hi hb

theorem exists_of_afterWordStart (h : afterWordStart n cs ≠ 0) :
    ∃ word blanks rest, cs = word ++ blanks ++ '=' :: rest ∧
      afterWordStart n cs = n + word.length + blanks.length + 1 ∧ (∀ c ∈ word, isWord c) ∧
      ∀ c ∈ blanks, isBlank c := by
  induction cs generalizing n with
  | nil          => exact absurd rfl h
  | cons c cs hi =>
    rw [afterWordStart] at h ⊢
    by_cases hw : isWord c
    case neg =>
      simp only [hw, Bool.false_eq_true, if_false] at h ⊢
      obtain ⟨blanks, rest, he, hl, hs⟩ := exists_of_afterWord h
      exact ⟨[], blanks, rest, he, hl, nofun, hs⟩
    case pos =>
      simp only [hw, if_true] at h ⊢
      obtain ⟨word, blanks, rest, rfl, hl, hs, hb⟩ := hi h
      refine ⟨c :: word, blanks, rest, rfl, ?_, List.forall_mem_cons.mpr ⟨hw, hs⟩, hb⟩
      rw [hl, List.length_cons]
      omega

theorem afterWordStart_ne_zero (hw : ∀ c ∈ word, isWord c) (hb : ∀ c ∈ blanks, isBlank c) :
    afterWordStart n (word ++ (blanks ++ '=' :: rest)) ≠ 0 := by
  induction word generalizing n with
  | cons c word hi =>
    have ⟨hc, hw⟩ := List.forall_mem_cons.mp hw
    simpa [afterWordStart, hc] using hi hw
  | nil =>
    have ha : afterWord n (blanks ++ '=' :: rest) ≠ 0 := afterWord_ne_zero hb
    cases blanks with
    | nil           => simpa [afterWordStart, isWord] using ha
    | cons c blanks =>
      have hc : isWord c = false := isWord_of_isBlank (hb c List.mem_cons_self)
      simpa [afterWordStart, hc] using ha

theorem finds_handlerLength : Finds handlerLength IsHandler where
  exists_of_eq := by
    intro cs n h
    rw [handlerLength] at h
    split at h
    case h_2 => nomatch h
    case h_1 c cs hl =>
      obtain ⟨start, hs, rfl⟩ := afterLetters_eq_some_iff.mp hl
      split at h
      case isFalse => nomatch h
      case isTrue hc =>
        have hne : afterWordStart 3 cs ≠ 0 := by rw [h]; exact n.succ_ne_zero
        obtain ⟨word, blanks, rest, rfl, hlen, hw, hb⟩ := exists_of_afterWordStart hne
        have hstart : start.length = 2 := hs.length_eq.symm
        refine ⟨start ++ (c :: word) ++ blanks ++ ['='], rest, by simp, ?_, start, c :: word,
          blanks, rfl, hs, nofun, List.forall_mem_cons.mpr ⟨hc, hw⟩, hb⟩
        rw [← h, hlen]
        simp [hstart]
        omega
  ne_zero := by
    rintro _ rest ⟨start, word, blanks, rfl, hs, hne, hw, hb⟩
    cases word with
    | nil         => exact absurd rfl hne
    | cons c word =>
      have ⟨hc, hw⟩ := List.forall_mem_cons.mp hw
      have hl : afterLetters ['o', 'n'] (start ++ c :: (word ++ (blanks ++ '=' :: rest))) =
          some (c :: (word ++ (blanks ++ '=' :: rest))) :=
        afterLetters_eq_some_iff.mpr ⟨start, hs, rfl⟩
      simpa [handlerLength, hl, hc] using afterWordStart_ne_zero hw hb

theorem finds_leadLength (hne : lead ≠ []) : Finds (leadLength lead) (SameLetters lead) where
  exists_of_eq := by
    intro cs n h
    rw [leadLength] at h
    split at h
    case isFalse => nomatch h
    case isTrue hl =>
      obtain ⟨rest, hr⟩ := Option.isSome_iff_exists.mp hl
      obtain ⟨front, hf, rfl⟩ := afterLetters_eq_some_iff.mp hr
      exact ⟨front, rest, rfl, hf.length_eq.symm.trans h, hf⟩
  ne_zero := by
    intro front rest hf
    have hl : afterLetters lead (front ++ rest) = some rest :=
      afterLetters_eq_some_iff.mpr ⟨front, hf, rfl⟩
    simpa [leadLength, hl] using hne

end LayeredDiagram.Markup
