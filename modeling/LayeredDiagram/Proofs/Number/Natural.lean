import LayeredDiagram.Proofs.Number.Rounding

namespace LayeredDiagram.Number

open Float.Model Float.Model.UnpackedFloat

variable {n k : Nat}

theorem scaled_bounds (h : 0 < n) (hn : n < 2 ^ 53) :
    2 ^ 52 ≤ n * 2 ^ (52 - n.log2) ∧ n * 2 ^ (52 - n.log2) < 2 ^ 53 := by
  have hlog : n.log2 < 53 := (Nat.log2_lt h.ne').mpr hn
  have hne : n * 2 ^ (52 - n.log2) ≠ 0 := Nat.mul_ne_zero h.ne' (Nat.two_pow_pos _).ne'
  refine (Nat.log2_eq_iff hne).mp ?_
  rw [log2_mul_two_pow h.ne']
  omega

-- A count that is not rounded.
theorem round_of_lt (h : 0 < n) (hn : n < 2 ^ 53) (hm : 0 < n * 2 ^ (52 - n.log2)) :
    UnpackedFloat.round Format.binary64 .positive n 0 =
      .finite .positive (n * 2 ^ (52 - n.log2)) (n.log2 - 52) hm := by
  obtain ⟨hl, hu⟩ := scaled_bounds h hn
  have hlog : n.log2 < 53 := (Nat.log2_lt h.ne').mpr hn
  have ht : Format.binary64.targetExponent (totalExponent n 0) = n.log2 - 52 := by
    change max ((n.log2 : Int) + 1 + 0 - 53) (-1074) = _
    omega
  have hk : (0 - ((n.log2 : Int) - 52)).toNat = 52 - n.log2 := by omega
  have he : (0 : Int) - (52 - n.log2 : Nat) = n.log2 - 52 := by omega
  have hexact := roundWithAccuracy_exact (s := .positive) (k := 0) (e := (n.log2 : Int) - 52) hm hl
    hu (by omega)
  rw [Nat.pow_zero, Nat.mul_one, Int.natCast_zero, Int.add_zero] at hexact
  simp only [UnpackedFloat.round, ht, decreaseExponent, hk, he, Nat.shiftLeft_eq, hexact]

theorem unpack_toFloat {w : UInt64} (hw : w.toNat = n) (h : 0 < n) (hn : n < 2 ^ 53)
    (hm : 0 < n * 2 ^ (52 - n.log2)) : w.toFloat.toModel.unpack =
      .finite .positive (n * 2 ^ (52 - n.log2)) (n.log2 - 52) hm := by
  have := scaled_bounds h hn
  have hlog : n.log2 < 53 := (Nat.log2_lt h.ne').mpr hn
  have hcompare : compare (n : Int) 0 = .gt := Int.compare_eq_gt.mpr (by omega)
  have hof : UnpackedFloat.ofUInt64 Format.binary64 w =
      UnpackedFloat.round Format.binary64 .positive n 0 := by
    rw [UnpackedFloat.ofUInt64, UnpackedFloat.ofNat, UnpackedFloat.ofInt, UnpackedFloat.normalize,
      hw, hcompare]
    rfl
  change (Float.Model.pack (UnpackedFloat.ofUInt64 Format.binary64 w)).unpack = _
  rw [hof, round_of_lt h hn hm]
  exact unpack_pack (isCanonical_finite.mpr (by omega))

theorem unpack_ofNat_of_lt (h : 0 < n) (hn : n < 2 ^ 53) (hm : 0 < n * 2 ^ (52 - n.log2)) :
    (Float.ofNat n).toModel.unpack =
      .finite .positive (n * 2 ^ (52 - n.log2)) (n.log2 - 52) hm := by
  obtain ⟨hl, hu⟩ := scaled_bounds h hn
  have hlog : n.log2 < 53 := (Nat.log2_lt h.ne').mpr hn
  have hw : n.toUInt64.toNat = n := by
    rw [UInt64.toNat_ofNat']
    omega
  have hone : (Float.ofBits 0x3FF0000000000000).toModel.unpack =
      .finite .positive (2 ^ 52) (-52) (by decide) := rfl
  have hfast : Float.ofNat n = n.toUInt64.toFloat * Float.ofBits 0x3FF0000000000000 :=
    dif_pos ⟨hn, Nat.zero_le _⟩
  have hexact := roundWithAccuracy_exact (s := .positive) (k := 52)
    (e := (n.log2 : Int) - 52 + -52) hm hl hu (by omega)
  have he : (n.log2 : Int) - 52 + -52 + (52 : Nat) = n.log2 - 52 := by omega
  rw [he] at hexact
  have hfinite : UnpackedFloat.mul Format.binary64
      (.finite .positive (n * 2 ^ (52 - n.log2)) (n.log2 - 52) hm)
      (.finite .positive (2 ^ 52) (-52) (by decide)) =
        .finite .positive (n * 2 ^ (52 - n.log2)) (n.log2 - 52) hm := by
    exact hexact
  rw [hfast]
  change (Float.Model.pack (UnpackedFloat.mul Format.binary64 n.toUInt64.toFloat.toModel.unpack
    (Float.ofBits 0x3FF0000000000000).toModel.unpack)).unpack = _
  rw [unpack_toFloat hw h hn hm, hone, hfinite]
  exact unpack_pack (isCanonical_finite.mpr (by omega))

-- A greater count keeps its leading digits.
theorem exists_ofNat_eq (hn : 2 ^ 53 ≤ n) :
    ∃ m e, ∃ hm : 0 < m, 2 ^ 52 ≤ m ∧ m < 2 ^ 53 ∧ (n.log2 : Int) - 52 ≤ e ∧
      Float.ofNat n = Float.ofModel (Float.Model.pack (.finite .positive m e hm)) := by
  have hpos : n ≠ 0 := by omega
  have hlog : n.log2 < 53 ↔ n < 2 ^ 53 := Nat.log2_lt hpos
  have hlog' : (n <<< 53 * 10 ^ 0).log2 = n.log2 + 53 := by
    rw [Nat.pow_zero, Nat.mul_one, Nat.shiftLeft_eq, log2_mul_two_pow hpos]
  have hle : 2 ^ 52 ≤ n <<< 53 * 10 ^ 0 := by
    rw [Nat.pow_zero, Nat.mul_one, Nat.shiftLeft_eq]
    omega
  obtain ⟨m, e, hm, hl, hu, he, hround⟩ :=
    exists_roundWithAccuracy (s := .positive) (e := -53 + 0) hle (by omega)
  refine ⟨m, e, hm, hl, hu, by omega, ?_⟩
  have hslow : Float.ofNat n = Float.ofModel (Float.Model.ofScientific n 0) :=
    dif_neg fun h => absurd h.left (by omega)
  have hsmall : ¬(0 : Int) < -(2 ^ Format.binary64.exponentBits + n.log2) := by
    change ¬(0 : Int) < -(2048 + n.log2)
    omega
  have hscientific : UnpackedFloat.ofScientific Format.binary64 n 0 = .finite .positive m e hm := by
    rw [UnpackedFloat.ofScientific, dif_neg hpos, if_neg (by decide), if_neg hsmall,
      if_pos (Int.le_refl 0)]
    exact hround
  rw [hslow, Float.Model.ofScientific, hscientific]

theorem unpack_ofNat_of_le (hn : 2 ^ 53 ≤ n) :
    (∃ m e, ∃ hm : 0 < m, 2 ^ 52 ≤ m ∧ 1 ≤ e ∧
      (Float.ofNat n).toModel.unpack = .finite .positive m e hm) ∨
    (Float.ofNat n).toModel.unpack = .infinity .positive := by
  have hlog : n.log2 < 53 ↔ n < 2 ^ 53 := Nat.log2_lt (by omega)
  obtain ⟨m, e, hm, hl, hu, he, hof⟩ := exists_ofNat_eq hn
  rw [hof]
  by_cases hmax : e ≤ 971
  case pos =>
    exact .inl ⟨m, e, hm, hl, by omega, unpack_pack (isCanonical_finite.mpr (by omega))⟩
  case neg =>
    rw [pack_of_lt hm (by omega)]
    exact .inr (unpack_pack trivial)

theorem infinity_eq : infinity = Float.ofModel (Float.Model.pack (.infinity .positive)) := by
  decide +kernel

-- Counts out of range are infinite.
theorem ofNat_eq_infinity (hn : 1024 ≤ n.log2) : Float.ofNat n = infinity := by
  have hle : 2 ^ 53 ≤ n := by
    by_contra h
    obtain rfl | hpos := Nat.eq_zero_or_pos n
    case inl => nomatch hn
    case inr =>
      have := (Nat.log2_lt hpos.ne').mpr (Nat.lt_of_not_le h)
      omega
  obtain ⟨m, e, hm, -, -, he, hof⟩ := exists_ofNat_eq hle
  rw [hof, pack_of_lt hm (by omega), infinity_eq]

section Order

-- The rank of a count that is not rounded.
def countRank (n : Nat) : Int :=
  if n = 0 then 0 else (n.log2 + 1022) * 2 ^ 52 + (n * 2 ^ (52 - n.log2) : Nat)

theorem rank?_ofNat_of_lt (hn : n < 2 ^ 53) : rank? (Float.ofNat n) = some (countRank n) := by
  rw [rank?_eq, countRank]
  split_ifs with h
  case pos =>
    rw [h]
    decide +kernel
  case neg =>
    have := scaled_bounds (Nat.pos_of_ne_zero h) hn
    rw [unpack_ofNat_of_lt (Nat.pos_of_ne_zero h) hn (by omega), partsRank?, Sign.apply]
    have he : (n.log2 : Int) - 52 + 1074 = n.log2 + 1022 := by omega
    rw [he]

theorem exists_rank?_ofNat_of_le (hn : 2 ^ 53 ≤ n) :
    ∃ r, rank? (Float.ofNat n) = some r ∧ 1076 * 2 ^ 52 ≤ r := by
  rw [rank?_eq]
  obtain ⟨m, e, hm, hl, he, h⟩ | h := unpack_ofNat_of_le hn <;> rw [h]
  case inl => exact ⟨_, rfl, by simp only [Sign.apply]; omega⟩
  case inr => exact ⟨_, rfl, by decide⟩

theorem countRank_nonneg : 0 ≤ countRank n := by
  rw [countRank]
  split_ifs <;> omega

theorem countRank_lt (hn : n < 2 ^ 53) : countRank n < 1076 * 2 ^ 52 := by
  rw [countRank]
  split_ifs with h
  case pos => decide
  case neg =>
    have := scaled_bounds (Nat.pos_of_ne_zero h) hn
    have hlog : n.log2 < 53 := (Nat.log2_lt h).mpr hn
    omega

theorem countRank_lt_countRank (hn : n < k) (hk : k < 2 ^ 53) : countRank n < countRank k := by
  have hk0 : k ≠ 0 := by omega
  have hbk := scaled_bounds (Nat.pos_of_ne_zero hk0) hk
  rw [countRank, countRank, if_neg hk0]
  split_ifs with h
  case pos => omega
  case neg =>
    have hbn := scaled_bounds (Nat.pos_of_ne_zero h) (hn.trans hk)
    have hlog : n.log2 ≤ k.log2 := (Nat.le_log2 hk0).mpr ((Nat.log2_self_le h).trans hn.le)
    obtain hlt | heq := hlog.lt_or_eq
    case inl => omega
    case inr =>
      have := Nat.mul_lt_mul_of_pos_right hn (Nat.two_pow_pos (52 - k.log2))
      rw [heq]
      omega

-- Rounding does not take a count past one that needs none.
theorem exists_rank?_ofNat (n : Nat) : ∃ r, rank? (Float.ofNat n) = some r ∧ 0 ≤ r ∧
    ∀ k < 2 ^ 53, (r < countRank k ↔ n < k) ∧ (countRank k < r ↔ k < n) := by
  by_cases hn : n < 2 ^ 53
  case pos =>
    refine ⟨_, rank?_ofNat_of_lt hn, countRank_nonneg, fun k hk => ?_⟩
    obtain h | rfl | h := Nat.lt_trichotomy n k
    case inl =>
      have := countRank_lt_countRank h hk
      omega
    case inr.inl => omega
    case inr.inr =>
      have := countRank_lt_countRank h hn
      omega
  case neg =>
    obtain ⟨r, hr, hle⟩ := exists_rank?_ofNat_of_le (Nat.le_of_not_lt hn)
    refine ⟨r, hr, by omega, fun k hk => ?_⟩
    have := countRank_lt hk
    omega

-- A count is compared with one that is not rounded as if there were no rounding.
theorem ofNat_lt_ofNat_iff (hk : k < 2 ^ 53) : Float.ofNat n < Float.ofNat k ↔ n < k := by
  obtain ⟨r, hr, -, hlt⟩ := exists_rank?_ofNat n
  rw [lt_iff_rank?_lt hr (rank?_ofNat_of_lt hk)]
  exact (hlt k hk).left

theorem ofNat_lt_ofNat_iff' (hk : k < 2 ^ 53) : Float.ofNat k < Float.ofNat n ↔ k < n := by
  obtain ⟨r, hr, -, hlt⟩ := exists_rank?_ofNat n
  rw [lt_iff_rank?_lt (rank?_ofNat_of_lt hk) hr]
  exact (hlt k hk).right

theorem isFinite_ofNat_of_lt (hn : n < 2 ^ 53) : (Float.ofNat n).isFinite := by
  have hlow := countRank_nonneg (n := n)
  have hhigh := countRank_lt hn
  exact isFinite_iff.mpr ⟨_, rank?_ofNat_of_lt hn, by omega, by omega⟩

-- What is counted down from zero is less than one.
theorem neg_ofNat_lt_one (n : Nat) : -Float.ofNat n < Float.ofNat 1 := by
  obtain ⟨r, hr, hle, -⟩ := exists_rank?_ofNat n
  have hneg : rank? (-Float.ofNat n) = some (-r) := by rw [rank?_neg, hr]; rfl
  have hone : countRank 0 < countRank 1 := countRank_lt_countRank Nat.zero_lt_one (by decide)
  rw [lt_iff_rank?_lt hneg (rank?_ofNat_of_lt (by decide))]
  have := countRank_nonneg (n := 0)
  omega

theorem isNaN_ofNat (n : Nat) : (Float.ofNat n).isNaN = false := by
  obtain ⟨r, hr, -⟩ := exists_rank?_ofNat n
  rw [rank?] at hr
  split_ifs at hr <;> simp_all

-- A count is rounded to a whole number, unless it is out of range.
theorem isWhole_ofNat (n : Nat) : isWhole (Float.ofNat n) = (Float.ofNat n).isFinite := by
  change _ = (Float.ofNat n).toModel.unpack.isFinite
  rw [isWhole]
  obtain rfl | hpos := Nat.eq_zero_or_pos n
  case inl => decide +kernel
  case inr =>
    by_cases hn : n < 2 ^ 53
    case pos =>
      have hm : 0 < n * 2 ^ (52 - n.log2) := Nat.mul_pos hpos (Nat.two_pow_pos _)
      rw [unpack_ofNat_of_lt hpos hn hm]
      simp [Nat.shiftLeft_eq, UnpackedFloat.isFinite]
    case neg =>
      obtain ⟨m, e, hm, -, he, h⟩ | h := unpack_ofNat_of_le (Nat.le_of_not_lt hn) <;> rw [h]
      case inl => simp [show 0 ≤ e by omega, UnpackedFloat.isFinite]
      case inr => rfl

end Order

end LayeredDiagram.Number
