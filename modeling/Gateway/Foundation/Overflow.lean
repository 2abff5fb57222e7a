import Gateway.Foundation.Rounding

/-! Exactly which decimals overflow the default context. -/
namespace Gateway.Decimal

/-- Rounding half to even leaves an odd bound at the tie above it. -/
theorem roundHalfEven_le_iff_odd {c k M : ℕ} (hM : M % 2 = 1) :
    roundHalfEven c k ≤ M ↔ 2 * c < (2 * M + 1) * 10 ^ k := by
  unfold roundHalfEven
  split_ifs with hsmall
  · have hc := coefficient_lt_pow c
    have hpow : 10 ^ numDigits c * 10 ≤ 10 ^ k := by
      rw [← pow_succ]
      exact Nat.pow_le_pow_right (by norm_num) hsmall
    have hmul : 10 ^ k ≤ (2 * M + 1) * 10 ^ k := Nat.le_mul_of_pos_left _ (by omega)
    have hpos : 0 < 10 ^ numDigits c := by positivity
    simp only [zero_le, true_iff]
    omega
  · have hdiv := Nat.div_add_mod c (10 ^ k)
    have hmod := Nat.mod_lt c (show 0 < 10 ^ k by positivity)
    simp only
    generalize c / 10 ^ k = q at hdiv ⊢
    generalize c % 10 ^ k = r at hdiv hmod ⊢
    generalize 10 ^ k = P at hdiv hmod ⊢
    subst hdiv
    have hcase : q < M ∨ q = M ∨ M + 1 ≤ q := by omega
    rcases hcase with hlt | rfl | hgt
    · have hmul : P * (q + 1) ≤ P * M := Nat.mul_le_mul_left P hlt
      have hle : 2 * (P * q + r) < (2 * M + 1) * P := by nlinarith
      simp only [hle, iff_true]
      split_ifs <;> omega
    · have hiff : 2 * (P * q + r) < (2 * q + 1) * P ↔ 2 * r < P := by
        constructor <;> intro h <;> nlinarith
      rw [hiff]
      split_ifs <;> omega
    · have hmul : P * (M + 1) ≤ P * q := Nat.mul_le_mul_left P hgt
      have hnot : ¬ 2 * (P * q + r) < (2 * M + 1) * P := by nlinarith
      simp only [hnot, iff_false]
      split_ifs <;> omega

/-- Half a unit under the power of ten above the largest exponent. -/
def overflowBound : ℚ := (10 ^ prec - 1 / 2) * (10 : ℚ) ^ etop

theorem pow_lt_overflowBound : (10 : ℚ) ^ (etop + (prec - 1)) < overflowBound := by
  have hpos : (0 : ℚ) < (10 : ℚ) ^ etop := by positivity
  rw [overflowBound, zpow_add₀ (by norm_num), mul_comm]
  refine mul_lt_mul_of_pos_right ?_ hpos
  norm_num [prec]

theorem overflowBound_lt_pow : overflowBound < (10 : ℚ) ^ (etop + prec) := by
  have hpos : (0 : ℚ) < (10 : ℚ) ^ etop := by positivity
  rw [overflowBound, zpow_add₀ (by norm_num), mul_comm _ ((10 : ℚ) ^ (prec : ℤ))]
  refine mul_lt_mul_of_pos_right ?_ hpos
  norm_num [prec]

variable {d : Decimal}

/-- In units of the last exponent, with the leading digit in the highest place. -/
theorem fix_none_top (h : d.coefficient ≠ 0) (hadj : d.adjusted - (prec - 1) = etop) :
    d.fix = none ↔ overflowBound ≤ d.magnitude := by
  have hlast : d.lastExponent = etop := by
    have : etiny < etop := by decide
    unfold lastExponent
    omega
  have hpos : (0 : ℚ) < (10 : ℚ) ^ etop := by positivity
  rw [fix_eq h, hlast, if_neg (by omega)]
  split_ifs with hlt hcarry hover
  · -- the carry is the tie, and the tie is the bound
    simp only [true_iff]
    have hround : ¬ roundHalfEven d.coefficient (etop - d.exponent).toNat ≤ 10 ^ prec - 1 := by
      rw [hcarry]
      norm_num [prec]
    rw [roundHalfEven_le_iff_odd (by norm_num [prec]), not_lt] at hround
    have hhalf := (le_coefficient_iff { d with coefficient := 2 * d.coefficient } hlt.le _).mp hround
    rw [overflowBound, magnitude]
    rw [magnitude] at hhalf
    norm_num [prec] at hhalf ⊢
    nlinarith
  · omega
  · simp only [false_iff, not_le]
    have hbelow : roundHalfEven d.coefficient (etop - d.exponent).toNat ≤ 10 ^ prec - 1 := by
      have hdigits := coefficient_lt_pow d.coefficient
      have hle : d.coefficient ≤ 10 ^ prec * 10 ^ (etop - d.exponent).toNat := by
        rw [← pow_add]
        refine hdigits.le.trans (Nat.pow_le_pow_right (by norm_num) ?_)
        rw [adjusted] at hadj
        omega
      have := roundHalfEven_le hle
      omega
    rw [roundHalfEven_le_iff_odd (by norm_num [prec])] at hbelow
    have hhalf := (le_coefficient_iff { d with coefficient := 2 * d.coefficient } hlt.le _).not.mp
      (not_le.mpr hbelow)
    rw [overflowBound, magnitude]
    rw [magnitude] at hhalf
    norm_num [prec] at hhalf ⊢
    nlinarith
  · simp only [false_iff, not_le]
    have hle : etop ≤ d.exponent := not_lt.mp hlt
    have hN : d.coefficient * 10 ^ (d.exponent - etop).toNat + 1 ≤ 10 ^ prec := by
      have hmul := (Nat.mul_lt_mul_right (show 0 < 10 ^ (d.exponent - etop).toNat by positivity)).mpr
        (coefficient_lt_pow d.coefficient)
      rw [← pow_add] at hmul
      have he : numDigits d.coefficient + (d.exponent - etop).toNat = prec := by
        rw [adjusted] at hadj
        omega
      rw [he] at hmul
      exact hmul
    have hcast : ((d.coefficient * 10 ^ (d.exponent - etop).toNat + 1 : ℕ) : ℚ) ≤
        ((10 ^ prec : ℕ) : ℚ) := Nat.cast_le.mpr hN
    rw [magnitude_units d hle, overflowBound]
    push_cast at hcast ⊢
    refine mul_lt_mul_of_pos_right ?_ hpos
    linarith

/-- Rounding raises `Overflow` exactly from the bound on. -/
theorem fix_eq_none_iff (d : Decimal) : d.fix = none ↔ overflowBound ≤ d.magnitude := by
  by_cases h : d.coefficient = 0
  · have hpos : (0 : ℚ) < (10 : ℚ) ^ (etop + (prec - 1)) := by positivity
    rw [fix, if_pos h, magnitude_eq_zero.mpr h]
    simpa using hpos.trans pow_lt_overflowBound
  · rcases lt_trichotomy (d.adjusted - (prec - 1)) etop with hlt | heq | hgt
    · have hpow : (10 : ℚ) ^ (d.adjusted + 1) ≤ 10 ^ (etop + (prec - 1)) :=
        zpow_le_zpow_right₀ (by norm_num) (by omega)
      have hmag := ((magnitude_lt_pow d).trans_le hpow).trans pow_lt_overflowBound
      have htiny : etiny < etop := by decide
      have hlast : d.lastExponent < etop := by
        unfold lastExponent
        omega
      simp only [not_le.mpr hmag, iff_false]
      rcases fix_cases h with ⟨-, hn⟩ | ⟨-, -, hs⟩ | ⟨-, -, a, hs, -⟩
      · rcases hn with hn | ⟨hn, -⟩ <;> omega
      · simp [hs]
      · simp [hs]
    · exact fix_none_top h heq
    · have hpow : (10 : ℚ) ^ (etop + prec) ≤ 10 ^ d.adjusted :=
        zpow_le_zpow_right₀ (by norm_num) (by omega)
      have hmag := overflowBound_lt_pow.le.trans (hpow.trans (pow_adjusted_le h))
      rw [fix_eq h, if_pos hgt]
      simp [hmag]

theorem abs_eq_none_iff (d : Decimal) : d.abs = none ↔ overflowBound ≤ d.magnitude :=
  fix_eq_none_iff { d with negative := false }

end Gateway.Decimal
