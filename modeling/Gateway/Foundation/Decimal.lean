import Mathlib

/-! Decimal numbers as `decimal.Decimal` has them: exact construction, context rounding, order. -/
namespace Gateway

/-- A finite `Decimal`: `coefficient * 10 ^ exponent` with a sign. -/
structure Decimal where
  negative : Bool
  coefficient : ℕ
  exponent : ℤ
deriving DecidableEq

namespace Decimal

def magnitude (d : Decimal) : ℚ := d.coefficient * (10 : ℚ) ^ d.exponent

def toRat (d : Decimal) : ℚ := if d.negative then -d.magnitude else d.magnitude

def ofInt (n : ℤ) : Decimal := ⟨decide (n < 0), n.natAbs, 0⟩

/-- How many digits `as_tuple` lists; zero has one. -/
def numDigits (n : ℕ) : ℕ := Nat.log 10 n + 1

/-- The exponent of the leading digit. -/
def adjusted (d : Decimal) : ℤ := d.exponent + numDigits d.coefficient - 1

/-- Largest exponent and smallest exponent of the last digit the C library can hold. -/
def maxEmax : ℤ := 999999999999999999

def minEtiny : ℤ := -1999999999999999997

/-- Construction from text is exact inside these limits and `InvalidOperation` outside them. -/
def Constructible (d : Decimal) : Prop :=
  minEtiny ≤ d.exponent ∧
    (if d.coefficient = 0 then d.exponent ≤ maxEmax else d.adjusted ≤ maxEmax)

instance (d : Decimal) : Decidable d.Constructible := by unfold Constructible; infer_instance

/-! The default context: precision 28, exponents up to 999999 either way, rounding half to even. -/

def prec : ℕ := 28

def emax : ℤ := 999999

def etiny : ℤ := -999999 - (prec - 1)

def etop : ℤ := emax - prec + 1

/-- `c / 10 ^ k` rounded half to even. -/
def roundHalfEven (c k : ℕ) : ℕ :=
  if numDigits c < k then 0
  else
    let q := c / 10 ^ k
    let r := c % 10 ^ k
    if 2 * r < 10 ^ k ∨ (2 * r = 10 ^ k ∧ q % 2 = 0) then q else q + 1

/-- Rounding to the context; `none` is the trapped `Overflow`. -/
def fix (d : Decimal) : Option Decimal :=
  if d.coefficient = 0 then some { d with exponent := max etiny (min d.exponent etop) }
  else
    let expMin := d.exponent + numDigits d.coefficient - prec
    if etop < expMin then none
    else
      let expMin := max expMin etiny
      if d.exponent < expMin then
        let c := roundHalfEven d.coefficient (expMin - d.exponent).toNat
        if c = 10 ^ prec then
          if etop < expMin + 1 then none else some ⟨d.negative, 10 ^ (prec - 1), expMin + 1⟩
        else some ⟨d.negative, c, expMin⟩
      else some d

/-- `abs(d)`, rounded to the default context. -/
def abs (d : Decimal) : Option Decimal := fix { d with negative := false }

/-- `a < b` for magnitudes, by leading digits before any power is formed. -/
def magnitudeLt (a b : Decimal) : Bool :=
  if b.coefficient = 0 then false
  else if a.coefficient = 0 then true
  else if a.adjusted ≠ b.adjusted then a.adjusted < b.adjusted
  else a.coefficient * 10 ^ numDigits b.coefficient < b.coefficient * 10 ^ numDigits a.coefficient

/-! Leading digits bound the magnitude. -/

theorem pow_le_coefficient {n : ℕ} (h : n ≠ 0) : 10 ^ (numDigits n - 1) ≤ n := by
  simpa [numDigits] using Nat.pow_log_le_self 10 h

theorem coefficient_lt_pow (n : ℕ) : n < 10 ^ numDigits n :=
  Nat.lt_pow_succ_log_self (by norm_num) n

theorem numDigits_eq {n k : ℕ} (hl : 10 ^ k ≤ n) (hu : n < 10 ^ (k + 1)) : numDigits n = k + 1 := by
  rw [numDigits, (Nat.log_eq_iff (.inr ⟨by norm_num, ?_⟩)).mpr ⟨hl, hu⟩]
  have := Nat.one_le_pow k 10 (by norm_num)
  omega

theorem numDigits_mul_pow {n : ℕ} (h : n ≠ 0) (k : ℕ) :
    numDigits (n * 10 ^ k) = numDigits n + k := by
  have hpos : 1 ≤ numDigits n := by simp [numDigits]
  have h1 : 10 ^ (numDigits n - 1 + k) ≤ n * 10 ^ k := by
    rw [pow_add]
    exact Nat.mul_le_mul_right _ (pow_le_coefficient h)
  have h2 : n * 10 ^ k < 10 ^ (numDigits n - 1 + k + 1) := by
    have he : numDigits n - 1 + k + 1 = numDigits n + k := by omega
    rw [he, pow_add]
    exact Nat.mul_lt_mul_of_pos_right (coefficient_lt_pow n) (by positivity)
  rw [numDigits_eq h1 h2]
  omega

theorem magnitude_nonneg (d : Decimal) : 0 ≤ d.magnitude := by unfold magnitude; positivity

theorem magnitude_eq_zero {d : Decimal} : d.magnitude = 0 ↔ d.coefficient = 0 := by
  simp [magnitude, zpow_ne_zero]

theorem pow_adjusted_le {d : Decimal} (h : d.coefficient ≠ 0) :
    (10 : ℚ) ^ d.adjusted ≤ d.magnitude := by
  have hpos : 1 ≤ numDigits d.coefficient := by simp [numDigits]
  have hle : ((10 ^ (numDigits d.coefficient - 1) : ℕ) : ℚ) ≤ d.coefficient :=
    Nat.cast_le.mpr (pow_le_coefficient h)
  have he : d.adjusted = ((numDigits d.coefficient - 1 : ℕ) : ℤ) + d.exponent := by
    rw [adjusted, Nat.cast_sub hpos]
    ring
  rw [he, zpow_add₀ (by norm_num), zpow_natCast, magnitude]
  push_cast at hle
  exact mul_le_mul_of_nonneg_right hle (by positivity)

theorem magnitude_lt_pow (d : Decimal) : d.magnitude < (10 : ℚ) ^ (d.adjusted + 1) := by
  have hlt : (d.coefficient : ℚ) < ((10 ^ numDigits d.coefficient : ℕ) : ℚ) :=
    Nat.cast_lt.mpr (coefficient_lt_pow _)
  have he : d.adjusted + 1 = (numDigits d.coefficient : ℤ) + d.exponent := by
    rw [adjusted]
    ring
  rw [he, zpow_add₀ (by norm_num), zpow_natCast, magnitude]
  push_cast at hlt
  exact mul_lt_mul_of_pos_right hlt (by positivity)

/-- The adjusted exponent is determined by the magnitude, not by its spelling. -/
theorem adjusted_le_of_magnitude_le {a b : Decimal} (ha : a.coefficient ≠ 0)
    (h : a.magnitude ≤ b.magnitude) : a.adjusted ≤ b.adjusted := by
  have hlt := ((pow_adjusted_le ha).trans h).trans_lt (magnitude_lt_pow b)
  have := (zpow_lt_zpow_iff_right₀ (by norm_num : (1 : ℚ) < 10)).mp hlt
  omega

theorem magnitude_scaled (d : Decimal) :
    d.magnitude = (d.coefficient : ℚ) / 10 ^ numDigits d.coefficient * (10 : ℚ) ^ (d.adjusted + 1) := by
  have he : d.adjusted + 1 = (numDigits d.coefficient : ℤ) + d.exponent := by
    rw [adjusted]
    ring
  rw [he, zpow_add₀ (by norm_num), zpow_natCast, magnitude]
  field_simp

theorem magnitudeLt_iff {a b : Decimal} : magnitudeLt a b = true ↔ a.magnitude < b.magnitude := by
  unfold magnitudeLt
  split_ifs with hb ha hadj
  · have := magnitude_nonneg a
    simp [magnitude_eq_zero.mpr hb, this]
  · have := (magnitude_nonneg b).lt_of_ne' (fun h => hb (magnitude_eq_zero.mp h))
    simp [magnitude_eq_zero.mpr ha, this]
  · rw [decide_eq_true_eq]
    constructor
    · intro hlt
      have hpow : (10 : ℚ) ^ (a.adjusted + 1) ≤ 10 ^ b.adjusted :=
        zpow_le_zpow_right₀ (by norm_num) (by omega)
      exact (magnitude_lt_pow a).trans_le (hpow.trans (pow_adjusted_le hb))
    · intro hlt
      have := adjusted_le_of_magnitude_le ha hlt.le
      omega
  · rw [decide_eq_true_eq, magnitude_scaled a, magnitude_scaled b, not_not.mp hadj,
      mul_lt_mul_iff_left₀ (by positivity), div_lt_div_iff₀ (by positivity) (by positivity)]
    exact_mod_cast Iff.rfl

end Decimal

end Gateway
