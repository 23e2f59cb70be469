import LayeredDiagram.Number.Reader
import LayeredDiagram.Proofs.Number.Natural

namespace LayeredDiagram.Number

-- The number that decimal digits spell.
def decimal (digits : List Char) : Nat :=
  Nat.ofDigits 10 (digits.reverse.map fun c => c.toNat - '0'.toNat)

-- A text begins with the number `n`.
def Spells (text : List Char) (n : Int) : Prop :=
  ∃ blanks sign digits rest, text = blanks ++ (sign ++ (digits ++ rest)) ∧
    (∀ c ∈ blanks, Text.isBlank c) ∧ digits ≠ [] ∧ (∀ c ∈ digits, c.isDigit) ∧
    (∀ c ∈ rest.head?, ¬c.isDigit) ∧
    ((sign = [] ∨ sign = ['+']) ∧ n = decimal digits ∨ sign = ['-'] ∧ n = -decimal digits)

variable {base : Nat} {places done : List Nat} {cs digits rest : List Char} {n : Int} {c : Char}

section Places

-- Digits are read in pairs and pairs of pairs, which makes no difference to the number that they
-- spell.
theorem ofDigits_joinPlaces : Nat.ofDigits (base * base) (joinPlaces base places done) =
    Nat.ofDigits (base * base) done.reverse +
      (base * base) ^ done.length * Nat.ofDigits base places := by
  fun_induction joinPlaces base places done with
  | case1 low high places done hi =>
    rw [hi]
    simp only [List.reverse_cons, Nat.ofDigits_append, List.length_reverse, Nat.ofDigits_cons,
      Nat.ofDigits_nil, List.length_cons]
    ring
  | case2 places done hp =>
    rw [Nat.ofDigits_append, List.length_reverse]
    match places with
    | []                   => rfl
    | [_]                  => simp
    | low :: high :: rest => exact absurd rfl (hp low high rest)

theorem length_joinPlaces_le (base : Nat) (places done : List Nat) :
    (joinPlaces base places done).length ≤ done.length + (places.length + 1) / 2 := by
  fun_induction joinPlaces base places done with
  | case1 low high places done hi =>
    simp only [List.length_cons] at hi ⊢
    omega
  | case2 places done hp =>
    match places with
    | []                   => simp
    | [_]                  => simp
    | low :: high :: rest => exact absurd rfl (hp low high rest)

-- Enough rounds leave one place.
theorem ofPlaces_eq {rounds : Nat} (h : places.length ≤ 2 ^ rounds) :
    ofPlaces rounds base places = Nat.ofDigits base places := by
  fun_induction ofPlaces rounds base places with
  | case1 => rfl
  | case2 => simp
  | case3 base n rest hne =>
    obtain rfl : rest = [] := List.eq_nil_of_length_eq_zero (by simpa using h)
    simp
  | case4 rounds base places hnil hone hi =>
    have hle := length_joinPlaces_le base places []
    rw [Nat.pow_succ] at h
    rw [hi (by simp only [List.length_nil] at hle; omega), ofDigits_joinPlaces]
    simp

theorem ofDigits_eq : ofDigits base cs = Nat.ofDigits base (cs.map digitValue).reverse :=
  ofPlaces_eq (by simpa using Nat.lt_two_pow_self.le)

end Places

section Decimal

theorem decimal_cons : decimal (c :: digits) =
    decimal digits + 10 ^ digits.length * (c.toNat - '0'.toNat) := by
  simp [decimal, Nat.ofDigits_append]

-- Zeros in front do not count.
theorem decimal_withoutZeros : decimal (withoutZeros digits) = decimal digits := by
  induction digits with
  | nil             => rfl
  | cons c digits hi =>
    by_cases hc : c = '0'
    case pos =>
      subst hc
      rw [decimal_cons, Nat.sub_self, Nat.mul_zero, Nat.add_zero, ← hi]
      rfl
    case neg => rw [withoutZeros, List.dropWhile_cons_of_neg (by simpa using hc)]

theorem ofDigits_eq_decimal (hd : ∀ c ∈ digits, c.isDigit) :
    ofDigits 10 digits = decimal digits := by
  rw [ofDigits_eq, decimal, List.map_reverse]
  congr 2
  exact List.map_congr_left fun c hc => if_pos (hd c hc)

theorem one_le_of_isDigit (hd : c.isDigit) (hc : c ≠ '0') : 1 ≤ c.toNat - '0'.toNat := by
  have ⟨hle, _⟩ := Char.isDigit_iff_toNat.mp hd
  have hne : c.toNat ≠ '0'.toNat := fun h => hc (Char.ext (UInt32.toNat_inj.mp h))
  omega

-- A number has as many digits as are left without zeros in front.
theorem pow_le_decimal {k : Nat} (hd : ∀ c ∈ digits, c.isDigit)
    (hk : k < (withoutZeros digits).length) : 10 ^ k ≤ decimal digits := by
  induction digits with
  | nil              => nomatch hk
  | cons c digits hi =>
    have ⟨hc, hrest⟩ := List.forall_mem_cons.mp hd
    rw [decimal_cons]
    by_cases hz : c = '0'
    case pos =>
      subst hz
      exact (hi hrest hk).trans (Nat.le_add_right _ _)
    case neg =>
      rw [withoutZeros, List.dropWhile_cons_of_neg (by simpa using hz), List.length_cons] at hk
      calc 10 ^ k
        _ ≤ 10 ^ digits.length := Nat.pow_le_pow_right (by decide) (Nat.le_of_lt_succ hk)
        _ ≤ 10 ^ digits.length * (c.toNat - '0'.toNat) :=
          Nat.le_mul_of_pos_right _ (one_le_of_isDigit hc hz)
        _ ≤ _ := Nat.le_add_left _ _

theorem le_log2_of_pow_le {k n : Nat} (h : 10 ^ k ≤ n) : k ≤ n.log2 := by
  have hpow : 2 ^ k ≤ n := (Nat.pow_le_pow_left (by decide) k).trans h
  exact (Nat.le_log2 (Nat.lt_of_lt_of_le (Nat.two_pow_pos k) hpow).ne').mpr hpow

-- Beyond 1100 digits all numbers are out of range.
theorem ofWhole_eq (hd : ∀ c ∈ digits, c.isDigit) :
    ofWhole 10 digits = Float.ofNat (decimal digits) := by
  rw [ofWhole]
  split_ifs with hl
  case pos =>
    have hlog : 1100 ≤ (decimal digits).log2 := le_log2_of_pow_le (pow_le_decimal hd hl)
    exact (ofNat_eq_infinity (by omega)).symm
  case neg =>
    have hd' : ∀ c ∈ withoutZeros digits, c.isDigit := fun c hc =>
      hd c ((List.dropWhile_suffix _).subset hc)
    rw [ofDigits_eq_decimal hd', decimal_withoutZeros]
    rfl

end Decimal

section Reading

theorem isBlank_of_isDigit (hd : c.isDigit) : Text.isBlank c = false := by
  have ⟨hl, hu⟩ := Char.isDigit_iff_toNat.mp hd
  change 48 ≤ c.toNat at hl
  change c.toNat ≤ 57 at hu
  simp only [Text.isBlank, Bool.or_eq_false_iff, Bool.and_eq_false_iff, decide_eq_false_iff_not,
    beq_eq_false_iff_ne]
  omega

theorem takeSign_of_isDigit (hd : c.isDigit) : takeSign (c :: cs) = (false, c :: cs) := by
  unfold takeSign
  split
  case h_1 h => cases h; nomatch hd
  case h_2 h => cases h; nomatch hd
  case h_3   => rfl

theorem trimStart_append {blanks : List Char} (hb : ∀ c ∈ blanks, Text.isBlank c)
    (hc : Text.isBlank c = false) : Text.trimStart (blanks ++ c :: cs) = c :: cs := by
  rw [Text.trimStart, List.dropWhile_append_of_pos hb, List.dropWhile_cons_of_neg (by simp [hc])]

theorem takeWhile_digits (hd : ∀ c ∈ digits, c.isDigit) (hr : ∀ c ∈ rest.head?, ¬c.isDigit) :
    (digits ++ rest).takeWhile Char.isDigit = digits := by
  rw [List.takeWhile_append_of_pos hd]
  cases rest with
  | nil    => simp
  | cons c => rw [List.takeWhile_cons_of_neg (hr c rfl), List.append_nil]

-- The sign of the number in front, and its digits.
def leadingDigits (cs : List Char) : Bool × List Char :=
  let (negative, rest) := takeSign (Text.trimStart cs)
  (negative, rest.takeWhile Char.isDigit)

theorem exists_sign (cs : List Char) : ∃ sign, cs = sign ++ (takeSign cs).2 ∧
    ((takeSign cs).1 = false ∧ (sign = [] ∨ sign = ['+']) ∨
      (takeSign cs).1 = true ∧ sign = ['-']) := by
  unfold takeSign
  split
  case h_1 => exact ⟨['-'], rfl, .inr ⟨rfl, rfl⟩⟩
  case h_2 => exact ⟨['+'], rfl, .inl ⟨rfl, .inr rfl⟩⟩
  case h_3 => exact ⟨[], rfl, .inl ⟨rfl, .inl rfl⟩⟩

section Written

variable {blanks : List Char}

theorem leadingDigits_unsigned (hb : ∀ c ∈ blanks, Text.isBlank c) (hne : digits ≠ [])
    (hd : ∀ c ∈ digits, c.isDigit) (hr : ∀ c ∈ rest.head?, ¬c.isDigit) :
    leadingDigits (blanks ++ (digits ++ rest)) = (false, digits) := by
  have hdigits := takeWhile_digits hd hr
  obtain ⟨c, digits, rfl⟩ := List.exists_cons_of_ne_nil hne
  have hc := hd c List.mem_cons_self
  rw [leadingDigits, List.cons_append, trimStart_append hb (isBlank_of_isDigit hc),
    takeSign_of_isDigit hc]
  exact congrArg _ hdigits

theorem leadingDigits_signed (hb : ∀ c ∈ blanks, Text.isBlank c)
    (hd : ∀ c ∈ digits, c.isDigit) (hr : ∀ c ∈ rest.head?, ¬c.isDigit) :
    leadingDigits (blanks ++ '+' :: (digits ++ rest)) = (false, digits) ∧
      leadingDigits (blanks ++ '-' :: (digits ++ rest)) = (true, digits) := by
  rw [leadingDigits, trimStart_append hb (by decide), leadingDigits,
    trimStart_append hb (by decide)]
  exact ⟨congrArg _ (takeWhile_digits hd hr), congrArg _ (takeWhile_digits hd hr)⟩

end Written

-- There is one way to read a text.
theorem spells_iff : Spells cs n ↔ (leadingDigits cs).2 ≠ [] ∧
    n = if (leadingDigits cs).1 then -(decimal (leadingDigits cs).2 : Int)
      else decimal (leadingDigits cs).2 := by
  constructor
  case mp =>
    rintro ⟨blanks, sign, digits, rest, rfl, hb, hne, hd, hr, ⟨rfl | rfl, rfl⟩ | ⟨rfl, rfl⟩⟩
    case inl.inl =>
      rw [List.nil_append, leadingDigits_unsigned hb hne hd hr]
      exact ⟨hne, rfl⟩
    case inl.inr =>
      rw [List.singleton_append, (leadingDigits_signed hb hd hr).left]
      exact ⟨hne, rfl⟩
    case inr =>
      rw [List.singleton_append, (leadingDigits_signed hb hd hr).right]
      exact ⟨hne, rfl⟩
  case mpr =>
    rintro ⟨hne, rfl⟩
    obtain ⟨sign, hcs, hsign⟩ := exists_sign (Text.trimStart cs)
    refine ⟨cs.takeWhile Text.isBlank, sign, (leadingDigits cs).2,
      (takeSign (Text.trimStart cs)).2.dropWhile Char.isDigit, ?_, fun c => List.mem_takeWhile_imp,
      hne, fun c => List.mem_takeWhile_imp, ?_, ?_⟩
    case refine_1 =>
      have hrest : (leadingDigits cs).2 ++ (takeSign (Text.trimStart cs)).2.dropWhile Char.isDigit =
          (takeSign (Text.trimStart cs)).2 :=
        List.takeWhile_append_dropWhile
      rw [hrest, ← hcs]
      exact List.takeWhile_append_dropWhile.symm
    case refine_2 =>
      intro c hc
      have := List.head?_dropWhile_not Char.isDigit (takeSign (Text.trimStart cs)).2
      rw [Option.mem_def.mp hc] at this
      simp [this]
    case refine_3 =>
      obtain ⟨hneg, hsign⟩ | ⟨hneg, hsign⟩ := hsign
      case inl => exact .inl ⟨hsign, if_neg (by simp [leadingDigits, hneg])⟩
      case inr => exact .inr ⟨hsign, if_pos hneg⟩

example : Spells " +080px".toList 80 :=
  spells_iff.mpr (by decide)

theorem leadingInteger_eq (cs : List Char) : leadingInteger cs =
    if (leadingDigits cs).2 = [] then nan
    else signed (leadingDigits cs).1 (Float.ofNat (decimal (leadingDigits cs).2)) := by
  have hd : ∀ c ∈ (leadingDigits cs).2, c.isDigit := fun c => List.mem_takeWhile_imp
  rw [← ofWhole_eq hd]
  change (if (leadingDigits cs).2.isEmpty then nan else _) = _
  simp only [List.isEmpty_iff]
  rfl

-- What does not begin with a positive number is no number or too small.
theorem leadingInteger_cases (cs : List Char) :
    (∃ n : Nat, Spells cs n ∧ 1 ≤ n ∧ leadingInteger cs = Float.ofNat n) ∨
      (¬∃ n : Nat, Spells cs n ∧ 1 ≤ n) ∧
        ((leadingInteger cs).isNaN ∨ leadingInteger cs < Float.ofNat 1) := by
  simp only [spells_iff]
  rw [leadingInteger_eq]
  by_cases hne : (leadingDigits cs).2 = []
  case pos =>
    rw [if_pos hne]
    exact .inr ⟨fun ⟨n, h, _⟩ => h.left hne, .inl (by decide +kernel)⟩
  case neg =>
    rw [if_neg hne]
    cases hneg : (leadingDigits cs).1 with
    | true  =>
      refine .inr ⟨?_, .inr (neg_ofNat_lt_one _)⟩
      rintro ⟨n, ⟨-, hn⟩, hle⟩
      simp at hn
      omega
    | false =>
      by_cases hle : 1 ≤ decimal (leadingDigits cs).2
      case pos => exact .inl ⟨_, ⟨hne, rfl⟩, hle, rfl⟩
      case neg =>
        refine .inr ⟨?_, .inr ((ofNat_lt_ofNat_iff (by decide)).mpr (Nat.lt_of_not_le hle))⟩
        rintro ⟨n, ⟨-, hn⟩, hle'⟩
        simp at hn
        omega

theorem Spells.eq {n' : Int} (h : Spells cs n) (h' : Spells cs n') : n = n' := by
  rw [(spells_iff.mp h).right, (spells_iff.mp h').right]

theorem Spells.leadingInteger_eq {n : Nat} (h : Spells cs n) (hle : 1 ≤ n) :
    leadingInteger cs = Float.ofNat n := by
  obtain ⟨n', h', -, hx⟩ | ⟨hnone, -⟩ := leadingInteger_cases cs
  case inl =>
    obtain rfl : n' = n := Int.ofNat_inj.mp (h'.eq h)
    exact hx
  case inr => exact absurd ⟨n, h, hle⟩ hnone

end Reading

end LayeredDiagram.Number
