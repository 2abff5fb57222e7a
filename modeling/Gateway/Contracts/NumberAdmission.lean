import Gateway.Foundation.JsonBlame
import Gateway.Foundation.Overflow
import Gateway.Contracts.NumberText
import Gateway.Contracts.Json

/-! Which number tokens the two parsers admit, and which bodies an overflow escapes from. -/
namespace Gateway

/-- The exceptions that are a `ValueError`. -/
def JsonError.isValueError : JsonError → Bool
  | .recursionError => false
  | .overflow => false
  | _ => true

namespace NumberToken

def value (t : NumberToken) : ℚ := t.toDecimal.toRat

/-- `parse_float` or `parse_int`, as the scanner picks it. -/
def parse (t : NumberToken) : Except JsonError Json :=
  if t.isFloat then jsonHooks.float t else jsonHooks.integer t

/-- The exact value within the largest finite binary64, a `ValueError` beyond it. -/
def AdmittedExactly (t : NumberToken) : Prop :=
  if |t.value| ≤ maxFiniteBinary64.magnitude then ∃ v, t.parse = .ok v ∧ v.number? = some t.value
  else ∃ e, t.parse = .error e ∧ e.isValueError

/-- Integers always are; other tokens where `decimal` can hold their exponents. -/
def Representable (t : NumberToken) : Prop := t.isFloat = true → t.toDecimal.Constructible

/-- Held by `decimal` if within the limit; beyond it not so near that `abs` rounds it back, nor so
far that `abs` overflows. -/
def Ordinary (t : NumberToken) : Prop :=
  if |t.value| ≤ maxFiniteBinary64.magnitude then t.Representable
  else t.Representable →
    acceptBound < |t.value| ∧ (t.isFloat = true → |t.value| < Decimal.overflowBound)

/-- `abs` of the token overflows. -/
def Overflows (t : NumberToken) : Prop :=
  t.toDecimal.Constructible ∧ Decimal.overflowBound ≤ |t.value|

end NumberToken

theorem maxFinite_lt_acceptBound : maxFiniteBinary64.magnitude < acceptBound := by
  have : (0 : ℚ) < (10 : ℚ) ^ maxFiniteFull.exponent := by positivity
  rw [acceptBound]
  linarith

section Float

variable {d : Decimal}

theorem parseExactJsonDecimal_overflow :
    parseExactJsonDecimal d = .error .overflow ↔
      d.Constructible ∧ Decimal.overflowBound ≤ d.magnitude := by
  rw [← Decimal.abs_eq_none_iff, parseExactJsonDecimal]
  by_cases hc : d.Constructible
  · rw [if_neg (not_not.mpr hc)]
    cases d.abs with
    | none => simp [hc]
    | some a => cases hm : Decimal.magnitudeLt maxFiniteBinary64 a <;> simp [hm]
  · rw [if_pos hc]
    simp [hc]

/-- Every other refusal is a `ValueError`. -/
theorem parseExactJsonDecimal_error {e : JsonError} (h : parseExactJsonDecimal d = .error e) :
    e = .overflow ∨ e.isValueError := by
  unfold parseExactJsonDecimal at h
  split at h
  · exact .inr (Except.error.inj h ▸ rfl)
  · split at h
    · exact .inl (Except.error.inj h).symm
    · split_ifs at h
      exact .inr (Except.error.inj h ▸ rfl)

end Float

section Integer

variable {t : NumberToken}

theorem NumberToken.toDecimal_integer (hf : t.isFloat = false) :
    t.toDecimal = ⟨t.negative, digitsValue t.integer, 0⟩ := by
  simp only [isFloat, Bool.or_eq_false_iff, Bool.not_eq_false', List.isEmpty_iff,
    Option.isSome_eq_false_iff, Option.isNone_iff_eq_none] at hf
  simp [toDecimal, hf.1, hf.2]

/-- Without a leading zero, more digits than `int` takes are more than the limit. -/
theorem NumberToken.Valid.length_le (ht : t.Valid) (hf : t.isFloat = false)
    (hm : t.toDecimal.magnitude ≤ acceptBound) : t.integer.length ≤ intMaxStrDigits := by
  rw [toDecimal_integer hf, Decimal.magnitude, zpow_zero, mul_one] at hm
  have hlt := hm.trans_lt acceptBound_lt
  have hvalue : digitsValue t.integer < 10 ^ 4300 := by exact_mod_cast hlt
  cases hds : t.integer with
  | nil => simp
  | cons d ds =>
    by_cases hzero : d = 0
    · have := ht.no_leading_zero (by rw [hds, hzero]; rfl)
      rw [hds] at this
      rw [this]
      decide
    · rw [hds, digitsValue_cons] at hvalue
      have hle : 10 ^ ds.length ≤ d * 10 ^ ds.length := Nat.le_mul_of_pos_left _ (by omega)
      have hpow := (Nat.pow_lt_pow_iff_right (by norm_num : 1 < 10)).mp
        ((hle.trans (Nat.le_add_right _ _)).trans_lt hvalue)
      rw [List.length_cons, intMaxStrDigits]
      omega

/-- What `int` takes is far from the largest exponent. -/
theorem NumberToken.Valid.parseJsonInteger_error (ht : t.Valid) (hf : t.isFloat = false)
    {e : JsonError} (h : parseJsonInteger t = .error e) : e.isValueError := by
  unfold parseJsonInteger at h
  split_ifs at h with hlong
  · exact Except.error.inj h ▸ rfl
  · split at h
    · rename_i habs
      rw [Decimal.abs_eq_none_iff, toDecimal_integer hf, Decimal.magnitude, zpow_zero,
        mul_one] at habs
      have hcast : ((digitsValue t.integer : ℕ) : ℚ) < ((10 ^ t.integer.length : ℕ) : ℚ) :=
        Nat.cast_lt.mpr (digitsValue_lt ht.integer_lt)
      have hpow : (10 : ℚ) ^ ((t.integer.length : ℕ) : ℤ) ≤
          10 ^ (Decimal.etop + (Decimal.prec - 1)) := by
        refine zpow_le_zpow_right₀ (by norm_num) ?_
        have hshort := not_lt.mp hlong
        rw [intMaxStrDigits] at hshort
        have : (4300 : ℤ) ≤ Decimal.etop + (Decimal.prec - 1) := by decide
        omega
      rw [zpow_natCast] at hpow
      push_cast at hcast
      exact absurd habs (not_le.mpr ((hcast.trans_le hpow).trans Decimal.pow_lt_overflowBound))
    · split_ifs at h
      exact Except.error.inj h ▸ rfl

end Integer

section Token

variable {t : NumberToken}

theorem NumberToken.abs_value (t : NumberToken) : |t.value| = t.toDecimal.magnitude :=
  (Decimal.magnitude_eq_abs _).symm

theorem NumberToken.parse_float (hf : t.isFloat = true) :
    t.parse = (parseExactJsonDecimal t.toDecimal).map .decimal := if_pos hf

theorem NumberToken.parse_integer (hf : t.isFloat = false) :
    t.parse = (parseJsonInteger t).map .int := if_neg (by simp [hf])

theorem NumberToken.toInt_value (hf : t.isFloat = false) : (t.toInt : ℚ) = t.value := by
  rw [value, toDecimal_integer hf, Decimal.toRat, Decimal.magnitude, zpow_zero, mul_one, toInt]
  split_ifs <;> push_cast <;> rfl

theorem NumberToken.parse_value {v : Json} (h : t.parse = .ok v) : v.number? = some t.value := by
  cases hf : t.isFloat with
  | true =>
    rw [parse_float hf] at h
    obtain ⟨d, hd, rfl⟩ := map_eq_ok.mp h
    obtain ⟨rfl, -⟩ := parseExactJsonDecimal_eq_ok.mp hd
    rfl
  | false =>
    rw [parse_integer hf] at h
    obtain ⟨n, hn, rfl⟩ := map_eq_ok.mp h
    rw [(parseJsonInteger_eq_ok.mp hn).1]
    exact congrArg some (toInt_value hf)

/-- Accepted exactly when held and not rounded above the limit. -/
theorem NumberToken.Valid.parse_ok_iff (ht : t.Valid) :
    (∃ v, t.parse = .ok v) ↔ t.Representable ∧ |t.value| ≤ acceptBound := by
  rw [t.abs_value]
  cases hf : t.isFloat with
  | true =>
    rw [parse_float hf]
    constructor
    · rintro ⟨v, hv⟩
      obtain ⟨d, hd, -⟩ := map_eq_ok.mp hv
      obtain ⟨-, hc, hm⟩ := parseExactJsonDecimal_eq_ok.mp hd
      exact ⟨fun _ => hc, hm⟩
    · rintro ⟨hc, hm⟩
      rw [parseExactJsonDecimal_eq_ok.mpr ⟨rfl, hc hf, hm⟩]
      exact ⟨_, rfl⟩
  | false =>
    rw [parse_integer hf]
    constructor
    · rintro ⟨v, hv⟩
      obtain ⟨n, hn, -⟩ := map_eq_ok.mp hv
      exact ⟨fun hfloat => by simp [hf] at hfloat, (parseJsonInteger_eq_ok.mp hn).2.2⟩
    · rintro ⟨-, hm⟩
      rw [parseJsonInteger_eq_ok.mpr ⟨rfl, ht.length_le hf hm, hm⟩]
      exact ⟨_, rfl⟩

/-- A refusal is a `ValueError` unless `abs` overflowed. -/
theorem NumberToken.Valid.parse_error (ht : t.Valid) {e : JsonError} (h : t.parse = .error e) :
    e.isValueError = true ↔ ¬ (t.isFloat = true ∧ t.Overflows) := by
  cases hf : t.isFloat with
  | true =>
    rw [parse_float hf] at h
    have hd := map_eq_error.mp h
    rw [Overflows, t.abs_value, ← parseExactJsonDecimal_overflow, hd, Except.error.injEq]
    simp only [true_and]
    constructor
    · rintro hvalue rfl
      simp [JsonError.isValueError] at hvalue
    · exact (parseExactJsonDecimal_error hd).resolve_left
  | false =>
    rw [parse_integer hf] at h
    simpa using ht.parseJsonInteger_error hf (map_eq_error.mp h)

theorem NumberToken.Valid.admitted_iff (ht : t.Valid) : t.AdmittedExactly ↔ t.Ordinary := by
  rw [AdmittedExactly, Ordinary]
  split_ifs with hlimit
  · have hvalue : (∃ v, t.parse = .ok v ∧ v.number? = some t.value) ↔ ∃ v, t.parse = .ok v :=
      exists_congr fun v => and_iff_left_of_imp parse_value
    rw [hvalue, ht.parse_ok_iff]
    exact and_iff_left (hlimit.trans maxFinite_lt_acceptBound.le)
  constructor
  · rintro ⟨e, he, hvalue⟩ hrep
    have hrefused : ¬ |t.value| ≤ acceptBound := fun hle => by
      obtain ⟨v, hv⟩ := ht.parse_ok_iff.mpr ⟨hrep, hle⟩
      simp [hv] at he
    exact ⟨not_le.mp hrefused, fun hf => not_le.mp fun hover =>
      (ht.parse_error he).mp hvalue ⟨hf, hrep hf, hover⟩⟩
  · intro h
    cases hp : t.parse with
    | ok v =>
      obtain ⟨hrep, hle⟩ := ht.parse_ok_iff.mp ⟨v, hp⟩
      exact absurd hle (not_le.mpr (h hrep).1)
    | error e =>
      refine ⟨e, rfl, (ht.parse_error hp).mpr ?_⟩
      rintro ⟨hf, hc, hover⟩
      exact absurd hover (not_le.mpr ((h fun _ => hc).2 hf))

end Token

/-! Bodies. -/

/-- A result, or an exception that is a `ValueError`. -/
def ReturnsOrValueError {α : Type*} : Except JsonError α → Prop
  | .ok _ => True
  | .error e => e.isValueError = true

instance {α : Type*} : (r : Except JsonError α) → Decidable (ReturnsOrValueError r)
  | .ok _ => isTrue trivial
  | .error e => inferInstanceAs (Decidable (e.isValueError = true))

/-- The scan of the body comes to the token before anything else has gone wrong: it raises
whatever the token raises. -/
def StopsAt (recursionLimit : ℕ) (raw : Bytes) (t : NumberToken) : Prop :=
  ∀ e, jsonLoads (jsonHooks.failing t e) .libraryValueError recursionLimit raw = .error e

theorem jsonHooks_onlyFloat : jsonHooks.OnlyFloat .overflow where
  integer := by
    intro t ht hf he
    have := ht.parseJsonInteger_error hf (map_eq_error.mp he)
    simp [JsonError.isValueError] at this
  constant := by simp [jsonHooks, rejectJsonConstant]
  objectPairs := by
    intro kvs
    simp only [jsonHooks, parseJsonObjectPairs]
    split_ifs <;> simp
  decodeError := by simp [jsonHooks]
  recursionError := by simp [jsonHooks]

theorem jsonHooks_float_overflow {t : NumberToken} :
    jsonHooks.float t = .error .overflow ↔ t.Overflows := by
  rw [NumberToken.Overflows, t.abs_value, ← parseExactJsonDecimal_overflow]
  cases hp : parseExactJsonDecimal t.toDecimal <;> simp [jsonHooks, hp, Except.map]

theorem loads_overflow {recursionLimit : ℕ} {raw : Bytes} :
    loads recursionLimit raw = .error .overflow ↔ ∃ t, t.Overflows ∧ StopsAt recursionLimit raw t := by
  have hblames := @blames_jsonLoads _ _ _ _ jsonHooks_onlyFloat JsonError.libraryValueError
    (by simp) recursionLimit raw
  constructor
  · intro h
    obtain ⟨t, ht, hstops⟩ := hblames.stops h
    exact ⟨t, jsonHooks_float_overflow.mp ht, hstops⟩
  · rintro ⟨t, ht, hstops⟩
    have hsame : jsonHooks.failing t .overflow = jsonHooks := by
      have hfloat : (fun u => if u = t then .error .overflow else jsonHooks.float u) =
          jsonHooks.float := by
        funext u
        split_ifs with hu
        · exact (hu ▸ jsonHooks_float_overflow.mpr ht).symm
        · rfl
      rw [JsonHooks.failing, hfloat]
    rw [loads]
    rw [← hsame]
    exact hstops .overflow

theorem validateShape_error {n : ℕ} {stack : List (Json × ℕ)} {e : JsonError}
    (h : validateShape n stack = .error e) : e.isValueError = true := by
  fun_induction validateShape n stack with
  | case1 => cases h
  | case2 => exact Except.error.inj h ▸ rfl
  | case3 => exact Except.error.inj h ▸ rfl
  | case4 _ _ _ _ _ ih => exact ih h
  | case5 _ _ _ _ _ ih => exact ih h
  | case6 _ _ _ _ _ _ _ ih => exact ih h

/-- A body is read or refused with a `ValueError` unless its scan stops at an overflow. -/
theorem parseJsonObject_returnsOrValueError {recursionLimit : ℕ} {raw : Bytes} :
    ReturnsOrValueError (parseJsonObject recursionLimit raw) ↔
      ∀ t, StopsAt recursionLimit raw t → ¬ t.Overflows := by
  have hloads := @loads_overflow recursionLimit raw
  have hnone : (∀ t, StopsAt recursionLimit raw t → ¬ t.Overflows) ↔
      ¬ loads recursionLimit raw = .error .overflow := by
    rw [hloads]
    exact ⟨fun h ⟨t, hover, hstops⟩ => h t hstops hover, fun h t hstops hover => h ⟨t, hover, hstops⟩⟩
  rw [hnone]
  unfold parseJsonObject
  split
  · rename_i e he
    rw [he, Except.error.injEq]
    cases e <;> simp [ReturnsOrValueError, JsonError.caught, JsonError.isValueError]
  · rename_i v hv
    rw [hv]
    simp only [reduceCtorEq, not_false_eq_true, iff_true]
    split
    · rename_i fields
      cases hshape : validateJsonShape (.dict fields) with
      | ok u => simp [ReturnsOrValueError, bind, Except.bind, pure, Except.pure]
      | error e => exact validateShape_error hshape
    · rfl

/-- A number token is admitted exactly where it is ordinary, and a body is read or refused with a
`ValueError` exactly where its scan does not stop at a token that overflows. -/
theorem number_admission (token : NumberToken) (recursionLimit : ℕ) (raw : Bytes) :
    (token.Valid → (token.AdmittedExactly ↔ token.Ordinary)) ∧
    (ReturnsOrValueError (parseJsonObject recursionLimit raw) ↔
      ∀ t, StopsAt recursionLimit raw t → ¬ t.Overflows) :=
  ⟨NumberToken.Valid.admitted_iff, parseJsonObject_returnsOrValueError⟩

/-- `1e4300`. -/
def largeToken : NumberToken := ⟨false, [1], [], some (false, [4, 3, 0, 0])⟩

theorem largeToken_ordinary : largeToken.Ordinary := by
  have hvalue : |largeToken.value| = (10 : ℚ) ^ (4300 : ℤ) := by
    have hdecimal : largeToken.toDecimal = ⟨false, 1, 4300⟩ := by decide
    rw [NumberToken.value, hdecimal, Decimal.toRat, if_neg (by simp), Decimal.magnitude, Nat.cast_one,
      one_mul, abs_of_pos (by positivity)]
  have hlarge : acceptBound < |largeToken.value| := by
    rw [hvalue]
    exact acceptBound_lt
  have hbounded : |largeToken.value| < Decimal.overflowBound := by
    rw [hvalue]
    exact (zpow_le_zpow_right₀ (by norm_num) (by decide)).trans_lt Decimal.pow_lt_overflowBound
  rw [NumberToken.Ordinary, if_neg (not_le.mpr (maxFinite_lt_acceptBound.trans hlarge))]
  exact fun _ => ⟨hlarge, fun _ => hbounded⟩

/-- It is far beyond the limit, and refused as such. -/
theorem number_admission_ordinary : largeToken.AdmittedExactly :=
  ((number_admission largeToken 1000 []).1 (by constructor <;> simp [largeToken])).mpr
    largeToken_ordinary

/-- `1e1000000`. -/
def hugeToken : NumberToken := ⟨false, [1], [], some (false, [1, 0, 0, 0, 0, 0, 0])⟩

theorem hugeToken_overflows : hugeToken.Overflows := by
  have habs : hugeToken.toDecimal.abs = none := by decide
  refine ⟨by decide, ?_⟩
  rw [hugeToken.abs_value]
  exact (Decimal.abs_eq_none_iff _).mp habs

/-- An object whose one member is that number. -/
def hugeDocument : JsonText := .object [(str "n", .number hugeToken)]

/-- `decimal.Overflow` is no `ValueError`: it leaves the parser of the token and that of the body. -/
theorem number_overflow_escapes :
    ¬ hugeToken.AdmittedExactly ∧
      ¬ ReturnsOrValueError (parseJsonObject 1000 (utf8 hugeDocument.render)) := by
  have hparse : hugeToken.parse = .error .overflow := by
    rw [NumberToken.parse, if_pos (by decide)]
    exact jsonHooks_float_overflow.mpr hugeToken_overflows
  constructor
  · rw [NumberToken.AdmittedExactly, hparse]
    rintro h
    split_ifs at h
    · obtain ⟨v, hv, -⟩ := h
      cases hv
    · obtain ⟨e, he, hvalue⟩ := h
      cases he
      cases hvalue
  · have hvalid : hugeToken.Valid := by constructor <;> simp [hugeToken]
    have hwf : hugeDocument.WellFormed := ⟨hvalid, trivial⟩
    have heval : hugeDocument.eval jsonHooks = .error .overflow := by
      have hmember : (JsonText.number hugeToken).eval jsonHooks = .error .overflow := by
        rw [JsonText.eval]
        exact hparse
      rw [hugeDocument, JsonText.eval, JsonText.evalMembers, hmember]
      rfl
    have hload : loads 1000 (utf8 hugeDocument.render) = .error .overflow := by
      rw [loads, jsonLoads_render (c := 123) (s := hugeDocument.render.tail) hwf, heval]
      · decide
      · decide
      · decide
      · decide
    rw [parseJsonObject, hload]
    simp [ReturnsOrValueError, JsonError.caught, JsonError.isValueError]

end Gateway
