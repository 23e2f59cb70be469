import LayeredDiagram.Proofs.Text.Letters
import LayeredDiagram.Schema.Request

namespace LayeredDiagram

namespace Text

variable {c : Char} {cs before done : List Char}

theorem toNat_of_isAlpha (h : c.isAlpha) : c.toNat < 128 := by
  have hn : isName c := by simp [isName, isWord, Char.isAlphanum, h]
  exact Nat.lt_of_le_of_lt (toNat_of_isName hn).right (by decide)

theorem lowerChar_of_isAlpha (h : c.isAlpha) : lowerChar c = c.toLower := by
  have hall : ∀ n < 128, (Char.ofNat n).isAlpha →
      lowerChar (Char.ofNat n) = (Char.ofNat n).toLower := by decide +kernel
  simpa [h] using hall c.toNat (toNat_of_isAlpha h)

theorem lower_go_of_isAlpha (h : ∀ c ∈ cs, c.isAlpha) :
    lower.go before cs done = done.reverse ++ cs.map Char.toLower := by
  induction cs generalizing before done with
  | nil          => simp [lower.go]
  | cons c cs hi =>
    have ⟨hc, hcs⟩ := List.forall_mem_cons.mp h
    have hs : c ≠ 'Σ' := by
      rintro rfl
      nomatch hc
    have ht : c ≠ 'İ' := by
      rintro rfl
      nomatch hc
    simp [lower.go, hs, ht, hi hcs, lowerChar_of_isAlpha hc]

theorem lower_of_isAlpha (h : ∀ c ∈ cs, c.isAlpha) : lower cs = cs.map Char.toLower :=
  lower_go_of_isAlpha h

theorem toLower_eq_self (h : 128 ≤ c.toNat) : c.toLower = c := by
  delta Char.toLower
  refine dif_neg fun hc => ?_
  have hu : c.toNat ≤ 90 := UInt32.le_iff_toNat_le.mp hc.right
  omega

theorem isHexDigit_toLower : isHexDigit c.toLower = isHexDigit c := by
  have hall : ∀ n < 128, isHexDigit (Char.ofNat n).toLower = isHexDigit (Char.ofNat n) := by
    decide +kernel
  by_cases h : c.toNat < 128
  case pos => simpa using hall c.toNat h
  case neg => rw [toLower_eq_self (by omega)]

end Text

namespace Color

open Text Schema

variable {color base : String} {name cs : List Char}

-- Hexadecimal, or on the list of names.
def Known (color : String) : Prop :=
  isHex color.toList ∨ ∃ name ∈ names, SameLetters name.toList color.toList

-- `drawn` is the colour itself, up to case, or else the one that it was to replace.
def Draws (drawn color base : String) : Prop :=
  (SameLetters drawn.toList color.toList ↔ Known color) ∧ (¬Known color → drawn = base)

theorem arguments?_eq_none (h : '(' ∉ cs) : arguments? name cs = none := by
  rw [arguments?, Option.bind_eq_none_iff]
  intro rest hr
  have hs {lead cs rest : List Char} (h : afterLetters lead cs = some rest) : rest <:+ cs := by
    obtain ⟨front, _, rfl⟩ := afterLetters_eq_some_iff.mp h
    exact List.suffix_append _ _
  have hs' : (afterLetters ['a'] rest).getD rest <:+ cs := by
    cases ha : afterLetters ['a'] rest with
    | none       => exact hs hr
    | some after => exact (hs ha).trans (hs hr)
  dsimp only
  split
  case h_1 inner hi => exact absurd (hs'.subset (hi ▸ List.mem_cons_self)) h
  case h_2          => rfl

theorem isForm_eq_false {isFirst isOther : List Char → Bool} (h : '(' ∉ cs) :
    isForm name isFirst isOther cs = false := by
  rw [isForm, arguments?_eq_none h]

theorem isHex_of_sameLetters {ds : List Char} (h : SameLetters cs ds) (hx : isHex cs) :
    isHex ds := by
  unfold isHex at hx
  split at hx
  case h_2        => nomatch hx
  case h_1 digits =>
    cases ds with
    | nil       => nomatch h
    | cons d ds =>
      have ⟨hd, hs⟩ := List.cons.inj h
      obtain rfl : d = '#' := eq_of_toLower_eq (by decide) hd.symm
      have hall (cs : List Char) : cs.all isHexDigit = (cs.map Char.toLower).all isHexDigit := by
        simp [List.all_map, Function.comp_def, isHexDigit_toLower]
      rw [hall, hs, ← hall, SameLetters.length_eq hs] at hx
      exact hx

-- A colour that is not hexadecimal is looked up among the names.
theorem safe?_of_isAlpha (h : ∀ c ∈ color.toList, c.isAlpha) (hx : isHex color.toList = false) :
    safe? color =
      if String.ofList (color.toList.map Char.toLower) ∈ names then
        some (String.ofList (color.toList.map Char.toLower))
      else none := by
  have hp : '(' ∉ color.toList := fun hm => nomatch h _ hm
  simp [safe?, hx, isRgb, isHsl, isForm_eq_false hp, lower_of_isAlpha h]

theorem map_toLower_of_mem_names :
    ∀ name ∈ names, name.toList.map Char.toLower = name.toList := by
  decide

theorem mem_names_iff {cs : List Char} : String.ofList (cs.map Char.toLower) ∈ names ↔
    ∃ name ∈ names, SameLetters name.toList cs := by
  constructor
  case mp =>
    intro hm
    refine ⟨_, hm, ?_⟩
    rw [SameLetters, map_toLower_of_mem_names _ hm, String.toList_ofList]
  case mpr =>
    rintro ⟨name, hm, hs⟩
    rwa [← hs, map_toLower_of_mem_names name hm, String.ofList_toList]

theorem draws_sanitize (h : looksLikeColor color.toList) (hb : isHex base.toList) :
    Draws (sanitize (some color) base) color base := by
  cases hx : isHex color.toList with
  | true =>
    have hk : Known color := .inl hx
    have hs : sanitize (some color) base = color := by simp [sanitize, safe?, hx]
    rw [hs]
    exact ⟨iff_of_true rfl hk, fun hn => absurd hk hn⟩
  | false =>
    have ha : ∀ c ∈ color.toList, c.isAlpha := by
      simp only [looksLikeColor, hx, Bool.false_or, Bool.and_eq_true, List.all_eq_true] at h
      exact h.right
    have hs := safe?_of_isAlpha ha hx
    by_cases hm : String.ofList (color.toList.map Char.toLower) ∈ names
    case pos =>
      have hk : Known color := .inr (mem_names_iff.mp hm)
      have hl := map_toLower_of_mem_names _ hm
      rw [if_pos hm] at hs
      rw [String.toList_ofList] at hl
      have hd : sanitize (some color) base = String.ofList (color.toList.map Char.toLower) := by
        simp [sanitize, hs]
      rw [hd]
      exact ⟨iff_of_true (by rwa [SameLetters, String.toList_ofList]) hk, fun hn => absurd hk hn⟩
    case neg =>
      have hk : ¬Known color := by
        rintro (hk | hk)
        case inl => exact Bool.false_ne_true (hx.symm.trans hk)
        case inr => exact hm (mem_names_iff.mpr hk)
      rw [if_neg hm] at hs
      have hd : sanitize (some color) base = base := by simp [sanitize, hs]
      rw [hd]
      refine ⟨iff_of_false (fun hl => ?_) hk, fun _ => rfl⟩
      exact Bool.false_ne_true (hx.symm.trans (isHex_of_sameLetters hl hb))

end Color

end LayeredDiagram
