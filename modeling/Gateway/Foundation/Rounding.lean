import Gateway.Foundation.Decimal

/-! When a decimal, rounded to the context, still lies under a bound of full precision. -/
namespace Gateway.Decimal

/-- Rounding half to even stays under an even bound up to and including the tie above it. -/
theorem roundHalfEven_le_iff {c k M : ℕ} (hM : M % 2 = 0) :
    roundHalfEven c k ≤ M ↔ 2 * c ≤ (2 * M + 1) * 10 ^ k := by
  unfold roundHalfEven
  split_ifs with hsmall
  · have hc := coefficient_lt_pow c
    have hpow : 10 ^ numDigits c * 10 ≤ 10 ^ k := by
      rw [← pow_succ]
      exact Nat.pow_le_pow_right (by norm_num) hsmall
    have hmul : 10 ^ k ≤ (2 * M + 1) * 10 ^ k := Nat.le_mul_of_pos_left _ (by omega)
    simp only [zero_le, true_iff]
    omega
  · have hdiv := Nat.div_add_mod c (10 ^ k)
    have hmod := Nat.mod_lt c (show 0 < 10 ^ k by positivity)
    simp only
    generalize c / 10 ^ k = q at hdiv ⊢
    generalize c % 10 ^ k = r at hdiv hmod ⊢
    generalize 10 ^ k = P at hdiv hmod ⊢
    subst hdiv
    have hcase : q < M ∨ q = M ∨ M + 1 ≤ q := by omega
    rcases hcase with hlt | rfl | hgt
    · have hmul : P * (q + 1) ≤ P * M := Nat.mul_le_mul_left P hlt
      have hle : 2 * (P * q + r) ≤ (2 * M + 1) * P := by nlinarith
      simp only [hle, iff_true]
      split_ifs <;> omega
    · have hiff : 2 * (P * q + r) ≤ (2 * q + 1) * P ↔ 2 * r ≤ P := by
        constructor <;> intro h <;> nlinarith
      rw [hiff]
      split_ifs <;> omega
    · have hmul : P * (M + 1) ≤ P * q := Nat.mul_le_mul_left P hgt
      have hnot : ¬ 2 * (P * q + r) ≤ (2 * M + 1) * P := by nlinarith
      simp only [hnot, iff_false]
      split_ifs <;> omega

theorem roundHalfEven_le {c k N : ℕ} (h : c ≤ N * 10 ^ k) : roundHalfEven c k ≤ N := by
  unfold roundHalfEven
  split_ifs with hsmall
  · omega
  · have hdiv := Nat.div_add_mod c (10 ^ k)
    have hpos : 0 < 10 ^ k := by positivity
    have hmod := Nat.mod_lt c hpos
    simp only
    generalize c / 10 ^ k = q at hdiv ⊢
    generalize c % 10 ^ k = r at hdiv hmod ⊢
    generalize 10 ^ k = P at h hdiv hmod hpos ⊢
    have hq : q ≤ N := by
      by_contra hn
      have : P * (N + 1) ≤ P * q := Nat.mul_le_mul_left P (by omega)
      nlinarith
    split_ifs with hr
    · exact hq
    · have hr' : 0 < r := by omega
      by_contra hn
      obtain rfl : q = N := by omega
      nlinarith

theorem le_roundHalfEven {c k N : ℕ} (hk : k ≤ numDigits c) (h : N * 10 ^ k ≤ c) :
    N ≤ roundHalfEven c k := by
  have hq : N ≤ c / 10 ^ k := (Nat.le_div_iff_mul_le (by positivity)).mpr h
  unfold roundHalfEven
  split_ifs with hsmall
  · omega
  · simp only
    split_ifs <;> omega

/-- Where the last digit goes when the coefficient is longer than the precision. -/
def lastExponent (d : Decimal) : ℤ := max (d.adjusted - (prec - 1)) etiny

theorem fix_eq {d : Decimal} (h : d.coefficient ≠ 0) :
    d.fix =
      if etop < d.adjusted - (prec - 1) then none
      else if d.exponent < d.lastExponent then
        if roundHalfEven d.coefficient (d.lastExponent - d.exponent).toNat = 10 ^ prec then
          if etop < d.lastExponent + 1 then none
          else some ⟨d.negative, 10 ^ (prec - 1), d.lastExponent + 1⟩
        else some ⟨d.negative, roundHalfEven d.coefficient (d.lastExponent - d.exponent).toNat,
          d.lastExponent⟩
      else some d := by
  have hmin : d.exponent + numDigits d.coefficient - prec = d.adjusted - (prec - 1) := by
    rw [adjusted]
    ring
  rw [fix, if_neg h, hmin]
  rfl

/-- What `fix` does, in terms of magnitudes. -/
theorem fix_cases {d : Decimal} (h : d.coefficient ≠ 0) :
    (d.fix = none ∧ (etop < d.adjusted - (prec - 1) ∨ (etop ≤ d.lastExponent ∧
      d.exponent < d.lastExponent ∧
      10 ^ prec ≤ roundHalfEven d.coefficient (d.lastExponent - d.exponent).toNat))) ∨
    (d.adjusted - (prec - 1) ≤ etop ∧ d.lastExponent ≤ d.exponent ∧ d.fix = some d) ∨
    (d.adjusted - (prec - 1) ≤ etop ∧ d.exponent < d.lastExponent ∧ ∃ a, d.fix = some a ∧
      a.magnitude = roundHalfEven d.coefficient (d.lastExponent - d.exponent).toNat *
        (10 : ℚ) ^ d.lastExponent) := by
  rw [fix_eq h]
  generalize d.lastExponent = e
  generalize hr : roundHalfEven d.coefficient (e - d.exponent).toNat = r
  split_ifs with htop hlast hcarry hover
  · exact .inl ⟨rfl, .inl htop⟩
  · exact .inl ⟨rfl, .inr ⟨by omega, hlast, hcarry.ge⟩⟩
  · refine .inr (.inr ⟨not_lt.mp htop, hlast, _, rfl, ?_⟩)
    rw [hcarry, magnitude, zpow_add₀ (by norm_num), prec]
    norm_num
    ring
  · exact .inr (.inr ⟨not_lt.mp htop, hlast, _, rfl, rfl⟩)
  · exact .inr (.inl ⟨not_lt.mp htop, not_lt.mp hlast, rfl⟩)

/-- The magnitude in units of a lower exponent. -/
theorem magnitude_units (d : Decimal) {e : ℤ} (h : e ≤ d.exponent) :
    d.magnitude = ((d.coefficient * 10 ^ (d.exponent - e).toNat : ℕ) : ℚ) * (10 : ℚ) ^ e := by
  have he : d.exponent = ((d.exponent - e).toNat : ℤ) + e := by omega
  rw [magnitude]
  conv_lhs => rw [he, zpow_add₀ (by norm_num), zpow_natCast]
  push_cast
  ring

/-- A coefficient bound and a magnitude bound, at an exponent above the coefficient's own. -/
theorem coefficient_le_iff (d : Decimal) {e : ℤ} (h : d.exponent ≤ e) (N : ℕ) :
    d.coefficient ≤ N * 10 ^ (e - d.exponent).toNat ↔ d.magnitude ≤ N * (10 : ℚ) ^ e := by
  have he : e = ((e - d.exponent).toNat : ℤ) + d.exponent := by omega
  rw [magnitude]
  conv_rhs => rw [he, zpow_add₀ (by norm_num), zpow_natCast, ← mul_assoc]
  rw [mul_le_mul_iff_left₀ (by positivity)]
  exact_mod_cast Iff.rfl

theorem le_coefficient_iff (d : Decimal) {e : ℤ} (h : d.exponent ≤ e) (N : ℕ) :
    N * 10 ^ (e - d.exponent).toNat ≤ d.coefficient ↔ N * (10 : ℚ) ^ e ≤ d.magnitude := by
  have he : e = ((e - d.exponent).toNat : ℤ) + d.exponent := by omega
  rw [magnitude]
  conv_rhs => rw [he, zpow_add₀ (by norm_num), zpow_natCast, ← mul_assoc]
  rw [mul_le_mul_iff_left₀ (by positivity)]
  exact_mod_cast Iff.rfl

section Bound

variable {d b : Decimal}

/-- A bound written with the full precision and an even last digit, well inside the context. -/
structure Bound (b : Decimal) : Prop where
  digits : numDigits b.coefficient = prec
  even : b.coefficient % 2 = 0
  above : etiny < b.exponent
  below : b.exponent < etop

theorem Bound.adjusted_eq (hb : Bound b) : b.adjusted = b.exponent + (prec - 1) := by
  rw [adjusted, hb.digits]
  ring

theorem Bound.coefficient_lt (hb : Bound b) : b.coefficient + 1 < 10 ^ prec := by
  have hlt := coefficient_lt_pow b.coefficient
  have heven := hb.even
  rw [hb.digits] at hlt
  rw [prec] at hlt ⊢
  omega

theorem Bound.half_lt (hb : Bound b) :
    b.magnitude + (10 : ℚ) ^ b.exponent / 2 < (10 : ℚ) ^ (b.adjusted + 1) := by
  have hc : ((b.coefficient + 1 : ℕ) : ℚ) < ((10 ^ prec : ℕ) : ℚ) := Nat.cast_lt.mpr hb.coefficient_lt
  have hpos : (0 : ℚ) < (10 : ℚ) ^ b.exponent := by positivity
  have he : b.adjusted + 1 = (prec : ℤ) + b.exponent := by
    rw [hb.adjusted_eq]
    ring
  rw [he, zpow_add₀ (by norm_num), zpow_natCast, magnitude]
  push_cast at hc
  nlinarith

theorem Bound.pow_le (hb : Bound b) : (10 : ℚ) ^ b.adjusted ≤ b.magnitude := by
  apply pow_adjusted_le
  intro h0
  have := hb.digits
  simp [h0, numDigits, prec] at this

/-- Digits above the bound's leading digit: refused, or `Overflow`. -/
theorem Bound.fix_above (hb : Bound b) (h : d.coefficient ≠ 0) (hadj : b.adjusted < d.adjusted) :
    ∀ a, d.fix = some a → b.magnitude < a.magnitude := by
  intro a ha
  have hpow : (10 : ℚ) ^ (b.adjusted + 1) ≤ 10 ^ d.adjusted :=
    zpow_le_zpow_right₀ (by norm_num) (by omega)
  have hlast : d.lastExponent = d.adjusted - (prec - 1) := by
    have := hb.above
    have := hb.adjusted_eq
    unfold lastExponent
    omega
  rcases fix_cases h with ⟨hn, -⟩ | ⟨-, -, hs⟩ | ⟨-, hlt, a', hs, hmag⟩
  · simp [hn] at ha
  · obtain rfl : d = a := by simpa [hs] using ha
    exact (magnitude_lt_pow b).trans_le (hpow.trans (pow_adjusted_le h))
  · obtain rfl : a' = a := by simpa [hs] using ha
    have hN : (10 ^ (prec - 1) : ℕ) * (10 : ℚ) ^ d.lastExponent = 10 ^ d.adjusted := by
      rw [hlast, Nat.cast_pow, ← zpow_natCast, Nat.cast_ofNat, ← zpow_add₀ (by norm_num)]
      congr 1
      simp [prec]
    have hle := (le_coefficient_iff d hlt.le (10 ^ (prec - 1))).mpr (by
      rw [hN]
      exact pow_adjusted_le h)
    have hk : (d.lastExponent - d.exponent).toNat ≤ numDigits d.coefficient := by
      rw [hlast, adjusted, prec]
      omega
    have hround := le_roundHalfEven hk hle
    have hcast : ((10 ^ (prec - 1) : ℕ) : ℚ) ≤
        roundHalfEven d.coefficient (d.lastExponent - d.exponent).toNat := Nat.cast_le.mpr hround
    rw [hmag]
    calc b.magnitude < (10 : ℚ) ^ (b.adjusted + 1) := magnitude_lt_pow b
      _ ≤ (10 : ℚ) ^ d.adjusted := hpow
      _ = (10 ^ (prec - 1) : ℕ) * (10 : ℚ) ^ d.lastExponent := hN.symm
      _ ≤ _ := mul_le_mul_of_nonneg_right hcast (by positivity)

/-- Digits below the bound's leading digit: always under it. -/
theorem Bound.fix_below (hb : Bound b) (h : d.coefficient ≠ 0) (hadj : d.adjusted < b.adjusted) :
    ∃ a, d.fix = some a ∧ a.magnitude ≤ b.magnitude := by
  have hpow : (10 : ℚ) ^ (d.adjusted + 1) ≤ 10 ^ b.adjusted :=
    zpow_le_zpow_right₀ (by norm_num) (by omega)
  have hdlt : d.magnitude < 10 ^ b.adjusted := (magnitude_lt_pow d).trans_le hpow
  have hbelow := hb.below
  have hbadj := hb.adjusted_eq
  have hlast : d.lastExponent < etop := by
    have := hb.above
    unfold lastExponent
    omega
  -- the rounded coefficient stays within the power of ten below the bound
  have hround : d.exponent < d.lastExponent →
      roundHalfEven d.coefficient (d.lastExponent - d.exponent).toNat ≤
        10 ^ (b.adjusted - d.lastExponent).toNat ∧ d.lastExponent ≤ b.adjusted := by
    intro hlt
    have hle : d.lastExponent ≤ b.adjusted := by
      have := hb.above
      have hp : (prec : ℤ) = 28 := rfl
      unfold lastExponent
      omega
    refine ⟨roundHalfEven_le ((coefficient_le_iff d hlt.le _).mpr ?_), hle⟩
    have he : b.adjusted = ((b.adjusted - d.lastExponent).toNat : ℤ) + d.lastExponent := by omega
    rw [Nat.cast_pow, Nat.cast_ofNat, ← zpow_natCast, ← zpow_add₀ (by norm_num), ← he]
    exact hdlt.le
  rcases fix_cases h with ⟨-, hn⟩ | ⟨-, -, hs⟩ | ⟨-, hlt, a, hs, hmag⟩
  · rcases hn with hn | ⟨hn, -⟩ <;> omega
  · exact ⟨d, hs, hdlt.le.trans hb.pow_le⟩
  · obtain ⟨hle, hlastle⟩ := hround hlt
    have hcast : (roundHalfEven d.coefficient (d.lastExponent - d.exponent).toNat : ℚ) ≤
        ((10 ^ (b.adjusted - d.lastExponent).toNat : ℕ) : ℚ) := Nat.cast_le.mpr hle
    have he : b.adjusted = ((b.adjusted - d.lastExponent).toNat : ℤ) + d.lastExponent := by omega
    refine ⟨a, hs, ?_⟩
    calc a.magnitude = _ := hmag
      _ ≤ ((10 ^ (b.adjusted - d.lastExponent).toNat : ℕ) : ℚ) * (10 : ℚ) ^ d.lastExponent :=
        mul_le_mul_of_nonneg_right hcast (by positivity)
      _ = (10 : ℚ) ^ b.adjusted := by
        rw [Nat.cast_pow, Nat.cast_ofNat, ← zpow_natCast, ← zpow_add₀ (by norm_num), ← he]
      _ ≤ b.magnitude := hb.pow_le

/-- The leading digit in the bound's own place: the tie above the bound is still under it. -/
theorem Bound.fix_same (hb : Bound b) (h : d.coefficient ≠ 0) (hadj : d.adjusted = b.adjusted) :
    (∃ a, d.fix = some a ∧ a.magnitude ≤ b.magnitude) ↔
      d.magnitude ≤ b.magnitude + (10 : ℚ) ^ b.exponent / 2 := by
  have hbadj := hb.adjusted_eq
  have hbelow := hb.below
  have hlast : d.lastExponent = b.exponent := by
    have := hb.above
    unfold lastExponent
    omega
  have hpos : (0 : ℚ) < (10 : ℚ) ^ b.exponent := by positivity
  rcases fix_cases h with ⟨-, hn⟩ | ⟨-, hle, hs⟩ | ⟨-, hlt, a, hs, hmag⟩
  · rcases hn with hn | ⟨hn, -⟩ <;> omega
  · rw [hlast] at hle
    rw [hs, magnitude_units d hle, magnitude]
    simp only [Option.some.injEq, exists_eq_left']
    rw [← magnitude, magnitude_units d hle]
    generalize d.coefficient * 10 ^ (d.exponent - b.exponent).toNat = N
    rw [magnitude, mul_le_mul_iff_left₀ hpos, Nat.cast_le]
    constructor
    · intro hN
      have : (N : ℚ) ≤ b.coefficient := Nat.cast_le.mpr hN
      nlinarith
    · intro hN
      by_contra hlt
      have : ((b.coefficient + 1 : ℕ) : ℚ) ≤ N := Nat.cast_le.mpr (by omega)
      push_cast at this
      nlinarith
  · rw [hlast] at hlt hmag
    have hround := roundHalfEven_le_iff (c := d.coefficient)
      (k := (b.exponent - d.exponent).toNat) hb.even
    have he : (10 : ℚ) ^ b.exponent =
        (10 : ℚ) ^ (b.exponent - d.exponent).toNat * (10 : ℚ) ^ d.exponent := by
      rw [← zpow_natCast, ← zpow_add₀ (by norm_num)]
      congr 1
      omega
    have hposd : (0 : ℚ) < (10 : ℚ) ^ d.exponent := by positivity
    have hsome : (∃ a, d.fix = some a ∧ a.magnitude ≤ b.magnitude) ↔ a.magnitude ≤ b.magnitude := by
      simp [hs]
    rw [hsome, hmag, magnitude, mul_le_mul_iff_left₀ hpos, Nat.cast_le, hround, magnitude, he]
    rw [show (b.coefficient : ℚ) * ((10 : ℚ) ^ (b.exponent - d.exponent).toNat * 10 ^ d.exponent) +
        (10 : ℚ) ^ (b.exponent - d.exponent).toNat * 10 ^ d.exponent / 2 =
        ((b.coefficient + 1 / 2) * (10 : ℚ) ^ (b.exponent - d.exponent).toNat) * 10 ^ d.exponent by
      ring, mul_le_mul_iff_left₀ hposd]
    rw [← Nat.cast_le (α := ℚ)]
    push_cast
    constructor <;> intro hh <;> linarith

/-- Under a bound of full precision, rounding first accepts exactly half a unit more. -/
theorem Bound.fix_le_iff (hb : Bound b) (d : Decimal) :
    (∃ a, d.fix = some a ∧ a.magnitude ≤ b.magnitude) ↔
      d.magnitude ≤ b.magnitude + (10 : ℚ) ^ b.exponent / 2 := by
  have hpos : (0 : ℚ) < (10 : ℚ) ^ b.exponent := by positivity
  by_cases h : d.coefficient = 0
  · have hb0 := magnitude_nonneg b
    have hd0 : d.magnitude = 0 := magnitude_eq_zero.mpr h
    have hz : ∃ a, d.fix = some a ∧ a.magnitude ≤ b.magnitude := by
      rw [fix, if_pos h]
      have hzero : ∀ e, (⟨d.negative, d.coefficient, e⟩ : Decimal).magnitude = 0 :=
        fun e => magnitude_eq_zero.mpr h
      exact ⟨_, rfl, (hzero _).trans_le hb0⟩
    simp only [hz, true_iff, hd0]
    positivity
  · rcases lt_trichotomy d.adjusted b.adjusted with hlt | heq | hgt
    · have hpow : (10 : ℚ) ^ (d.adjusted + 1) ≤ 10 ^ b.adjusted :=
        zpow_le_zpow_right₀ (by norm_num) (by omega)
      have hle := ((magnitude_lt_pow d).le.trans hpow).trans hb.pow_le
      simp only [hb.fix_below h hlt, true_iff]
      linarith
    · exact hb.fix_same h heq
    · have hpow : (10 : ℚ) ^ (b.adjusted + 1) ≤ 10 ^ d.adjusted :=
        zpow_le_zpow_right₀ (by norm_num) (by omega)
      have hge := hb.half_lt.trans_le (hpow.trans (pow_adjusted_le h))
      constructor
      · rintro ⟨a, ha, hle⟩
        exact absurd hle (not_le.mpr (hb.fix_above h hgt a ha))
      · intro hle
        exact absurd hle (not_le.mpr hge)

end Bound

end Gateway.Decimal
