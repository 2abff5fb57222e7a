import Gateway.Foundation.Rounding
import Gateway.Foundation.JsonBytes

/-! The numbers of a request: read exactly, bounded by binary64, written in one spelling. -/
namespace Gateway

/-- What reading or checking a document can raise. -/
inductive JsonError where
  /-- `ValueError` of this program, with its text. -/
  | valueError (message : String)
  /-- `ValueError` naming the first keyword that is not supported. -/
  | unsupportedKeyword (keyword : Str)
  /-- `ValueError` naming `NaN`, `Infinity` or `-Infinity`. -/
  | nonFiniteConstant (value : Str)
  /-- `ValueError` of the standard library: `JSONDecodeError`, a codec, or `int`. -/
  | libraryValueError
  | recursionError
  /-- `decimal.Overflow`, which is no `ValueError`. -/
  | overflow
deriving DecidableEq

/-- Digits as `int` reads them, at most this many. -/
def intMaxStrDigits : ℕ := 4300

def maxFiniteBinary64 : Decimal := ⟨false, 17976931348623157, 292⟩

/-- The exact decimal a token denotes. -/
def NumberToken.toDecimal (t : NumberToken) : Decimal :=
  ⟨t.negative, digitsValue (t.integer ++ t.fraction),
    (match t.exponent with
      | none => 0
      | some (true, ds) => -(digitsValue ds : ℤ)
      | some (false, ds) => digitsValue ds) - t.fraction.length⟩

def NumberToken.toInt (t : NumberToken) : ℤ :=
  if t.negative then -(digitsValue t.integer : ℤ) else digitsValue t.integer

def parseExactJsonDecimal (d : Decimal) : Except JsonError Decimal :=
  if ¬ d.Constructible then .error (.valueError "JSON number is invalid")
  else
    match d.abs with
    | none => .error .overflow
    | some a =>
      if Decimal.magnitudeLt maxFiniteBinary64 a then
        .error (.valueError "JSON number exceeds the supported finite range")
      else .ok d

def parseJsonInteger (t : NumberToken) : Except JsonError ℤ :=
  if intMaxStrDigits < t.integer.length then .error .libraryValueError
  else
    match t.toDecimal.abs with
    | none => .error .overflow
    | some a =>
      if Decimal.magnitudeLt maxFiniteBinary64 a then
        .error (.valueError "JSON number exceeds the supported finite range")
      else .ok t.toInt

/-- The loop that pops trailing zeros; digits least significant first. -/
def dropTrailingZeros : List ℕ → ℤ → List ℕ × ℤ
  | 0 :: d :: ds, exponent => dropTrailingZeros (d :: ds) (exponent + 1)
  | ds, exponent => (ds, exponent)

/-- `str` of an integer. -/
def intText (n : ℤ) : Str :=
  (if n < 0 then str "-" else []) ++
    JsonText.digitChars (if n = 0 then [0] else (Nat.digits 10 n.natAbs).reverse)

def encodeJsonNumber (value : Decimal) : Except JsonError Str := do
  let parsed ← parseExactJsonDecimal value
  if parsed.coefficient = 0 then return str "0"
  let (digits, exponent) := dropTrailingZeros (Nat.digits 10 parsed.coefficient) parsed.exponent
  let coefficient := JsonText.digitChars digits.reverse
  let sign := if parsed.negative then str "-" else []
  if 0 ≤ exponent then return sign ++ coefficient ++ List.replicate exponent.toNat 48
  let point : ℤ := coefficient.length + exponent
  if 0 < point then
    return sign ++ coefficient.take point.toNat ++ str "." ++ coefficient.drop point.toNat
  let mantissa := coefficient.take 1 ++
    (if 1 < coefficient.length then str "." ++ coefficient.drop 1 else [])
  return sign ++ mantissa ++ str "e" ++ intText (coefficient.length + exponent - 1)

/-! Which numbers are accepted. -/

/-- The largest finite binary64, at the precision of the context. -/
def maxFiniteFull : Decimal := ⟨false, 1797693134862315700000000000, 281⟩

theorem maxFiniteFull_bound : maxFiniteFull.Bound := by
  refine ⟨?_, by decide, by decide, by decide⟩
  exact Decimal.numDigits_eq (k := 27) (by decide) (by decide)

theorem maxFiniteFull_magnitude : maxFiniteFull.magnitude = maxFiniteBinary64.magnitude := by
  have he : maxFiniteBinary64.exponent = (11 : ℕ) + maxFiniteFull.exponent := rfl
  rw [Decimal.magnitude, Decimal.magnitude, he, zpow_add₀ (by norm_num), zpow_natCast, ← mul_assoc]
  norm_num [maxFiniteFull, maxFiniteBinary64]

/-- Values up to the tie above the largest finite binary64 pass, since `abs` rounds first. -/
def acceptBound : ℚ := maxFiniteBinary64.magnitude + (10 : ℚ) ^ maxFiniteFull.exponent / 2

theorem abs_le_iff (d : Decimal) :
    (∃ a, d.abs = some a ∧ Decimal.magnitudeLt maxFiniteBinary64 a = false) ↔
      d.magnitude ≤ acceptBound := by
  have hb := maxFiniteFull_bound.fix_le_iff { d with negative := false }
  rw [maxFiniteFull_magnitude] at hb
  have hunsigned : d.magnitude = ({ d with negative := false } : Decimal).magnitude := rfl
  rw [acceptBound, hunsigned, ← hb]
  simp only [Decimal.abs, Bool.eq_false_iff, ne_eq, Decimal.magnitudeLt_iff, not_lt]

theorem parseExactJsonDecimal_eq_ok {d e : Decimal} :
    parseExactJsonDecimal d = .ok e ↔ e = d ∧ d.Constructible ∧ d.magnitude ≤ acceptBound := by
  rw [← abs_le_iff, parseExactJsonDecimal]
  by_cases hc : d.Constructible
  · rw [if_neg (not_not.mpr hc)]
    cases d.abs with
    | none => simp
    | some a =>
      cases hm : Decimal.magnitudeLt maxFiniteBinary64 a with
      | true => simp [hm]
      | false => simp [hm, hc, @eq_comm _ e d]
  · rw [if_pos hc]
    simp [hc]

theorem parseJsonInteger_eq_ok {t : NumberToken} {n : ℤ} :
    parseJsonInteger t = .ok n ↔
      n = t.toInt ∧ t.integer.length ≤ intMaxStrDigits ∧ t.toDecimal.magnitude ≤ acceptBound := by
  rw [← abs_le_iff, parseJsonInteger]
  by_cases hc : intMaxStrDigits < t.integer.length
  · rw [if_pos hc]
    simp [not_le.mpr hc]
  · rw [if_neg hc]
    cases t.toDecimal.abs with
    | none => simp
    | some a =>
      cases hm : Decimal.magnitudeLt maxFiniteBinary64 a with
      | true => simp [hm]
      | false => simp [hm, not_lt.mp hc, @eq_comm _ n t.toInt]

end Gateway
