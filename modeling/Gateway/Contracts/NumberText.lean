import Gateway.Contracts.Number

/-! The spelling `_encode_json_number` picks: a valid token, of the same value, one for each value. -/
namespace Gateway

open JsonText

/-! Trailing zeros. -/

/-- A coefficient without trailing zeros is what the loop leaves. -/
theorem dropTrailingZeros_digits {c : ℕ} (hc : c ≠ 0) (e : ℤ) :
    ∃ n k : ℕ, c = n * 10 ^ k ∧ n % 10 ≠ 0 ∧
      dropTrailingZeros (Nat.digits 10 c) e = (Nat.digits 10 n, e + k) := by
  induction c using Nat.strong_induction_on generalizing e with
  | _ c ih =>
    by_cases hmod : c % 10 = 0
    · obtain ⟨n, k, hn, hlast, hdrop⟩ := ih (c / 10) (by omega) (by omega) (e + 1)
      refine ⟨n, k + 1, ?_, hlast, ?_⟩
      · rw [pow_succ, ← mul_assoc, ← hn]
        omega
      · obtain ⟨d, ds, hds⟩ := List.exists_cons_of_ne_nil
          (Nat.digits_ne_nil_iff_ne_zero.mpr (show c / 10 ≠ 0 by omega) : Nat.digits 10 (c / 10) ≠ [])
        rw [Nat.digits_def' (by norm_num) (Nat.pos_of_ne_zero hc), hmod, hds, dropTrailingZeros,
          ← hds, hdrop]
        push_cast
        ring_nf
    · refine ⟨c, 0, by simp, hmod, ?_⟩
      rw [Nat.digits_def' (by norm_num) (Nat.pos_of_ne_zero hc)]
      unfold dropTrailingZeros
      split
      · rename_i heq
        exact absurd (List.cons.inj heq).1 hmod
      · simp

/-- A rational has one coefficient without trailing zeros and one exponent. -/
theorem reduced_unique {n m : ℕ} {e f : ℤ} (hn : n % 10 ≠ 0) (hm : m % 10 ≠ 0)
    (h : (n : ℚ) * 10 ^ e = m * 10 ^ f) : n = m ∧ e = f := by
  have key : ∀ {n m : ℕ} {e f : ℤ}, n % 10 ≠ 0 → (n : ℚ) * 10 ^ e = m * 10 ^ f → f ≤ e := by
    intro n m e f hn h
    by_contra hlt
    have he : f = ((f - e).toNat : ℤ) + e := by omega
    rw [he, zpow_add₀ (by norm_num), zpow_natCast, ← mul_assoc,
      mul_left_inj' (by positivity)] at h
    have hnat : n = m * 10 ^ (f - e).toNat := by exact_mod_cast h
    obtain ⟨k, hk⟩ : ∃ k, (f - e).toNat = k + 1 := ⟨(f - e).toNat - 1, by omega⟩
    rw [hk, pow_succ, ← mul_assoc] at hnat
    omega
  have hef : e = f := le_antisymm (key hm h.symm) (key hn h)
  subst hef
  refine ⟨?_, rfl⟩
  rw [mul_left_inj' (by positivity)] at h
  exact_mod_cast h

theorem digitsValue_reverse (ds : List ℕ) : digitsValue ds.reverse = Nat.ofDigits 10 ds := by
  induction ds with
  | nil => rfl
  | cons d ds ih =>
    rw [List.reverse_cons, digitsValue_append, ih, Nat.ofDigits_cons]
    simp [digitsValue]
    ring

/-- The digits of a number, most significant first. -/
def digitsOf (n : ℕ) : List ℕ := (Nat.digits 10 n).reverse

theorem digitsValue_digitsOf (n : ℕ) : digitsValue (digitsOf n) = n := by
  rw [digitsOf, digitsValue_reverse, Nat.ofDigits_digits]

theorem digitsOf_lt (n : ℕ) : ∀ d ∈ digitsOf n, d < 10 := by
  intro d hd
  exact Nat.digits_lt_base (by norm_num) (List.mem_reverse.mp hd)

theorem digitsOf_ne_nil {n : ℕ} (hn : n ≠ 0) : digitsOf n ≠ [] := by
  rw [digitsOf, ne_eq, List.reverse_eq_nil_iff]
  exact Nat.digits_ne_nil_iff_ne_zero.mpr hn

theorem digitsOf_head {n : ℕ} (hn : n ≠ 0) : (digitsOf n).head? ≠ some 0 := by
  intro h
  rw [digitsOf, List.head?_reverse] at h
  have hlast := Nat.getLast_digit_ne_zero 10 hn
  rw [List.getLast?_eq_some_getLast (Nat.digits_ne_nil_iff_ne_zero.mpr hn)] at h
  exact hlast (by simpa using h)

theorem digitsOf_length {n : ℕ} (hn : n ≠ 0) : (digitsOf n).length = Decimal.numDigits n := by
  rw [digitsOf, List.length_reverse, Nat.length_digits 10 n (by norm_num) hn, Decimal.numDigits]

/-! The token. -/

/-- The three layouts, for digits without trailing zeros and their exponent. -/
def layout (negative : Bool) (digits : List ℕ) (exponent : ℤ) : NumberToken :=
  if 0 ≤ exponent then ⟨negative, digits ++ List.replicate exponent.toNat 0, [], none⟩
  else
    let point : ℤ := digits.length + exponent
    if 0 < point then ⟨negative, digits.take point.toNat, digits.drop point.toNat, none⟩
    else ⟨negative, digits.take 1, digits.drop 1, some (true, digitsOf (1 - point).toNat)⟩

section Layout

variable {negative : Bool} {ds : List ℕ} {e : ℤ}

theorem layout_integer (h1 : 0 ≤ e) :
    layout negative ds e = ⟨negative, ds ++ List.replicate e.toNat 0, [], none⟩ := if_pos h1

theorem layout_positional (h1 : ¬ 0 ≤ e) (h2 : 0 < (ds.length : ℤ) + e) :
    layout negative ds e =
      ⟨negative, ds.take (ds.length + e).toNat, ds.drop (ds.length + e).toNat, none⟩ := by
  simp only [layout, h1, h2, if_false, if_true]

theorem layout_scientific (h1 : ¬ 0 ≤ e) (h2 : ¬ 0 < (ds.length : ℤ) + e) :
    layout negative ds e = ⟨negative, ds.take 1, ds.drop 1,
      some (true, digitsOf (1 - (ds.length + e)).toNat)⟩ := by
  simp only [layout, h1, h2, if_false]

end Layout

/-- The token the encoder writes for a number. -/
def numberToken (d : Decimal) : NumberToken :=
  if d.coefficient = 0 then ⟨false, [0], [], none⟩
  else
    let (digits, exponent) := dropTrailingZeros (Nat.digits 10 d.coefficient) d.exponent
    layout d.negative digits.reverse exponent

theorem numberToken_zero {d : Decimal} (h : d.coefficient = 0) :
    numberToken d = ⟨false, [0], [], none⟩ := if_pos h

/-- A number as reduced coefficient and exponent. -/
theorem numberToken_reduced {d : Decimal} (h : d.coefficient ≠ 0) :
    ∃ n k : ℕ, d.coefficient = n * 10 ^ k ∧ n % 10 ≠ 0 ∧
      dropTrailingZeros (Nat.digits 10 d.coefficient) d.exponent =
        (Nat.digits 10 n, d.exponent + k) ∧
      numberToken d = layout d.negative (digitsOf n) (d.exponent + k) := by
  obtain ⟨n, k, hn, hlast, hdrop⟩ := dropTrailingZeros_digits h d.exponent
  exact ⟨n, k, hn, hlast, hdrop, by rw [numberToken, if_neg h, hdrop]; rfl⟩

theorem digitChars_append (xs ys : List ℕ) : digitChars (xs ++ ys) = digitChars xs ++ digitChars ys :=
  List.map_append

theorem digitChars_replicate (n : ℕ) : digitChars (List.replicate n 0) = List.replicate n 48 := by
  simp [digitChars]

theorem digitChars_take (n : ℕ) (xs : List ℕ) : (digitChars xs).take n = digitChars (xs.take n) :=
  List.map_take.symm

theorem digitChars_drop (n : ℕ) (xs : List ℕ) : (digitChars xs).drop n = digitChars (xs.drop n) :=
  List.map_drop.symm

theorem length_digitChars (xs : List ℕ) : (digitChars xs).length = xs.length := List.length_map _

theorem intText_negative {n : ℤ} (h : n < 0) : intText n = 45 :: digitChars (digitsOf n.natAbs) := by
  have h0 : n ≠ 0 := by omega
  simp [intText, h, h0, digitsOf, str]

theorem renderFraction_of_ne {ds : List ℕ} (h : ds ≠ []) :
    renderFraction ds = 46 :: digitChars ds := by
  simp [renderFraction, h]

/-- The text of each layout is the text of its token. -/
theorem encodeJsonNumber_eq {d : Decimal} (hc : d.Constructible) (hm : d.magnitude ≤ acceptBound) :
    encodeJsonNumber d = .ok (renderToken (numberToken d)) := by
  have hparse : parseExactJsonDecimal d = .ok d := parseExactJsonDecimal_eq_ok.mpr ⟨rfl, hc, hm⟩
  simp only [encodeJsonNumber, hparse, bind, Except.bind, pure, Except.pure]
  by_cases h0 : d.coefficient = 0
  · rw [if_pos h0, numberToken_zero h0]
    rfl
  · obtain ⟨n, k, hn, hlast, hdrop, htoken⟩ := numberToken_reduced h0
    have hsign : (if d.negative = true then str "-" else []) =
        (if d.negative = true then [45] else []) := rfl
    have hpoint : str "." = [46] := rfl
    have he : str "e" = [101] := rfl
    rw [if_neg h0, hdrop, htoken]
    simp only [hsign, hpoint, he, length_digitChars]
    rw [← digitsOf]
    generalize d.exponent + (k : ℤ) = e
    generalize hds : digitsOf n = ds
    unfold layout
    by_cases h1 : 0 ≤ e
    · simp [h1, renderToken, renderFraction, renderExponent, digitChars_append,
        digitChars_replicate]
    by_cases h2 : 0 < (ds.length : ℤ) + e
    · have hne : ds.drop (ds.length + e).toNat ≠ [] := by
        rw [ne_eq, List.drop_eq_nil_iff]
        omega
      simp [h1, h2, renderToken, renderFraction_of_ne hne, renderExponent, digitChars_take,
        digitChars_drop]
    have habs : (ds.length + e - 1).natAbs = (1 - (ds.length + e)).toNat := by omega
    have hexp := intText_negative (show (ds.length : ℤ) + e - 1 < 0 by omega)
    by_cases h3 : 1 < ds.length
    · have hne : ds.drop 1 ≠ [] := by
        rw [ne_eq, List.drop_eq_nil_iff]
        omega
      simp only [h1, h2, h3, if_true, if_false, renderToken, renderFraction_of_ne hne,
        renderExponent, digitChars_take, digitChars_drop, hexp, habs]
      simp
    · have hnil : ds.drop 1 = [] := by
        rw [List.drop_eq_nil_iff]
        omega
      simp [h1, h2, h3, renderToken, hnil, renderFraction, renderExponent, digitChars_take, hexp,
        habs]

/-! What the token denotes. -/

theorem layout_valid {n : ℕ} (hn : n ≠ 0) (negative : Bool) (e : ℤ) :
    (layout negative (digitsOf n) e).Valid := by
  have hne := digitsOf_ne_nil hn
  have hlt := digitsOf_lt n
  have hhead := digitsOf_head hn
  generalize digitsOf n = ds at hne hlt hhead
  obtain ⟨d, ds, rfl⟩ := List.exists_cons_of_ne_nil hne
  have hd : d ≠ 0 := by simpa using hhead
  by_cases h1 : 0 ≤ e
  · rw [layout_integer h1]
    refine ⟨by simp, ?_, ?_, by simp, by simp, by simp⟩
    · intro x hx
      rcases List.mem_append.mp hx with hx | hx
      · exact hlt x hx
      · rw [List.eq_of_mem_replicate hx]
        norm_num
    · simp [hd]
  by_cases h2 : 0 < ((d :: ds).length : ℤ) + e
  · obtain ⟨p, hp⟩ : ∃ p, (((d :: ds).length : ℤ) + e).toNat = p + 1 :=
      ⟨(((d :: ds).length : ℤ) + e).toNat - 1, by omega⟩
    rw [layout_positional h1 h2, hp, List.take_succ_cons, List.drop_succ_cons]
    refine ⟨by simp, ?_, by simp [hd], ?_, by simp, by simp⟩
    · intro x hx
      rcases List.mem_cons.mp hx with rfl | hx
      · exact hlt x (by simp)
      · exact hlt x (List.mem_cons_of_mem _ (List.mem_of_mem_take hx))
    · exact fun x hx => hlt x (List.mem_cons_of_mem _ (List.mem_of_mem_drop hx))
  · rw [layout_scientific h1 h2]
    refine ⟨by simp, ?_, by simp [hd], ?_, ?_, ?_⟩
    · intro x hx
      exact hlt x (List.mem_of_mem_take hx)
    · exact fun x hx => hlt x (List.mem_of_mem_drop hx)
    · rintro p ⟨⟩
      exact digitsOf_ne_nil (by omega)
    · rintro p ⟨⟩
      exact digitsOf_lt _

theorem numberToken_valid (d : Decimal) : (numberToken d).Valid := by
  by_cases h0 : d.coefficient = 0
  · rw [numberToken_zero h0]
    constructor <;> simp
  · obtain ⟨n, k, hn, hlast, -, htoken⟩ := numberToken_reduced h0
    rw [htoken]
    exact layout_valid (by rintro rfl; simp at hlast) _ _

theorem digitsValue_replicate (ds : List ℕ) (k : ℕ) :
    digitsValue (ds ++ List.replicate k 0) = digitsValue ds * 10 ^ k := by
  have hz : ∀ k, digitsValue (List.replicate k 0) = 0 := by
    intro k
    induction k with
    | zero => rfl
    | succ k ih => rw [List.replicate_succ, digitsValue_cons, ih]; simp
  rw [digitsValue_append, hz, List.length_replicate, Nat.add_zero]

/-- Read back exactly: coefficient and exponent where a point is written, the integer elsewhere. -/
theorem layout_toDecimal {n : ℕ} (hn : n ≠ 0) (negative : Bool) (e : ℤ) :
    (layout negative (digitsOf n) e).toDecimal =
      if 0 ≤ e then ⟨negative, n * 10 ^ e.toNat, 0⟩ else ⟨negative, n, e⟩ := by
  have hlen : 1 ≤ (digitsOf n).length := List.length_pos_iff.mpr (digitsOf_ne_nil hn)
  by_cases h1 : 0 ≤ e
  · rw [layout_integer h1, if_pos h1]
    simp [NumberToken.toDecimal, digitsValue_replicate, digitsValue_digitsOf]
  rw [if_neg h1]
  by_cases h2 : 0 < ((digitsOf n).length : ℤ) + e
  · rw [layout_positional h1 h2]
    simp only [NumberToken.toDecimal, List.take_append_drop, digitsValue_digitsOf,
      List.length_drop]
    congr 1
    omega
  · rw [layout_scientific h1 h2]
    simp only [NumberToken.toDecimal, List.take_append_drop, digitsValue_digitsOf,
      List.length_drop]
    congr 1
    omega

theorem reduced_magnitude {d : Decimal} {n k : ℕ} (h : d.coefficient = n * 10 ^ k) :
    d.magnitude = n * (10 : ℚ) ^ (d.exponent + k) := by
  rw [Decimal.magnitude, h, zpow_add₀ (by norm_num), zpow_natCast]
  push_cast
  ring

theorem Decimal.toRat_eq_zero {d : Decimal} : d.toRat = 0 ↔ d.coefficient = 0 := by
  rw [← Decimal.magnitude_eq_zero, Decimal.toRat]
  split_ifs <;> simp

theorem Decimal.magnitude_eq_abs (d : Decimal) : d.magnitude = |d.toRat| := by
  have h := Decimal.magnitude_nonneg d
  rw [Decimal.toRat]
  split_ifs <;> simp [abs_of_nonneg h]

/-- The token has the number's value. -/
theorem numberToken_toRat (d : Decimal) : (numberToken d).toDecimal.toRat = d.toRat := by
  by_cases h0 : d.coefficient = 0
  · rw [numberToken_zero h0]
    rw [Decimal.toRat_eq_zero.mpr h0]
    exact Decimal.toRat_eq_zero.mpr rfl
  · obtain ⟨n, k, hn, hlast, -, htoken⟩ := numberToken_reduced h0
    have hn0 : n ≠ 0 := by rintro rfl; simp at hlast
    have hmag : ∀ x : Decimal, x.negative = d.negative →
        x.magnitude = n * (10 : ℚ) ^ (d.exponent + k) → x.toRat = d.toRat := by
      intro x hs hx
      rw [Decimal.toRat, Decimal.toRat, hs, hx, reduced_magnitude hn]
    rw [htoken, layout_toDecimal hn0]
    generalize d.exponent + (k : ℤ) = e at hmag
    split_ifs with h1
    · refine hmag _ rfl ?_
      rw [Decimal.magnitude]
      conv_rhs => rw [← Int.toNat_of_nonneg h1, zpow_natCast]
      push_cast
      simp
    · exact hmag _ rfl rfl

theorem Decimal.negative_eq {a b : Decimal} (ha : a.coefficient ≠ 0) (h : a.toRat = b.toRat) :
    a.negative = b.negative ∧ a.magnitude = b.magnitude := by
  have ha' := (Decimal.magnitude_nonneg a).lt_of_ne' (fun h => ha (Decimal.magnitude_eq_zero.mp h))
  have hb' := Decimal.magnitude_nonneg b
  unfold Decimal.toRat at h
  cases hsa : a.negative <;> cases hsb : b.negative <;> simp only [hsa, hsb, if_true, if_false,
    Bool.false_eq_true] at h
  · exact ⟨rfl, h⟩
  · linarith
  · linarith
  · exact ⟨rfl, neg_inj.mp h⟩

/-- One token for each value, whatever the spelling. -/
theorem numberToken_congr {a b : Decimal} (h : a.toRat = b.toRat) :
    numberToken a = numberToken b := by
  by_cases ha : a.coefficient = 0
  · have hb : b.coefficient = 0 := Decimal.toRat_eq_zero.mp (h ▸ Decimal.toRat_eq_zero.mpr ha)
    rw [numberToken_zero ha, numberToken_zero hb]
  · have hb : b.coefficient ≠ 0 := fun hb =>
      ha (Decimal.toRat_eq_zero.mp (h.trans (Decimal.toRat_eq_zero.mpr hb)))
    obtain ⟨hs, hm⟩ := Decimal.negative_eq ha h
    obtain ⟨n, k, hn, hlast, -, htoken⟩ := numberToken_reduced ha
    obtain ⟨n', k', hn', hlast', -, htoken'⟩ := numberToken_reduced hb
    rw [reduced_magnitude hn, reduced_magnitude hn'] at hm
    obtain ⟨rfl, he⟩ := reduced_unique hlast hlast' hm
    rw [htoken, htoken', hs, he]

/-- Whether the spelling is read by `parse_float`: exactly when digits follow the point. -/
theorem layout_isFloat (n : ℕ) (negative : Bool) (e : ℤ) :
    (layout negative (digitsOf n) e).isFloat = decide (e < 0) := by
  by_cases h1 : 0 ≤ e
  · rw [layout_integer h1]
    simp [NumberToken.isFloat, not_lt.mpr h1]
  by_cases h2 : 0 < ((digitsOf n).length : ℤ) + e
  · have hne : (digitsOf n).drop ((digitsOf n).length + e).toNat ≠ [] := by
      rw [ne_eq, List.drop_eq_nil_iff]
      omega
    rw [layout_positional h1 h2]
    simp [NumberToken.isFloat, hne, not_le.mp h1]
  · rw [layout_scientific h1 h2]
    simp [NumberToken.isFloat, not_le.mp h1]

theorem acceptBound_lt : acceptBound < (10 : ℚ) ^ 4300 := by
  have h1 := maxFiniteFull_bound.half_lt
  rw [maxFiniteFull_magnitude] at h1
  refine h1.trans_le ?_
  rw [← zpow_natCast (10 : ℚ) 4300]
  exact zpow_le_zpow_right₀ (by norm_num) (by decide)

/-- What reading a number token gives, and that it gives it. -/
def NumberToken.Reads (t : NumberToken) (q : ℚ) : Prop :=
  if t.isFloat then parseExactJsonDecimal t.toDecimal = .ok t.toDecimal ∧ t.toDecimal.toRat = q
  else ∃ n, parseJsonInteger t = .ok n ∧ (n : ℚ) = q

/-- An accepted number is read back with its value. -/
theorem numberToken_reads {d : Decimal} (hc : d.Constructible) (hm : d.magnitude ≤ acceptBound) :
    (numberToken d).Reads d.toRat := by
  have hval := numberToken_toRat d
  have hmag : (numberToken d).toDecimal.magnitude = d.magnitude := by
    rw [Decimal.magnitude_eq_abs, hval, ← Decimal.magnitude_eq_abs]
  by_cases h0 : d.coefficient = 0
  · rw [numberToken_zero h0] at hval hmag ⊢
    refine ⟨0, parseJsonInteger_eq_ok.mpr ⟨by decide, by decide, hmag.trans_le hm⟩, ?_⟩
    rw [← hval, Decimal.toRat_eq_zero.mpr rfl, Int.cast_zero]
  · obtain ⟨n, k, hn, hlast, -, htoken⟩ := numberToken_reduced h0
    have hn0 : n ≠ 0 := by rintro rfl; simp at hlast
    have hdigits : Decimal.numDigits d.coefficient = Decimal.numDigits n + k := by
      rw [hn, Decimal.numDigits_mul_pow hn0]
    rw [htoken] at hval hmag ⊢
    have hdec := layout_toDecimal hn0 d.negative (d.exponent + k)
    rw [NumberToken.Reads, layout_isFloat n]
    by_cases he : d.exponent + (k : ℤ) < 0
    · rw [if_neg (by omega)] at hdec
      rw [hdec] at hval hmag ⊢
      rw [if_pos (by simpa using he)]
      refine ⟨parseExactJsonDecimal_eq_ok.mpr ⟨rfl, ?_, hmag.trans_le hm⟩, hval⟩
      obtain ⟨hlow, hhigh⟩ := hc
      rw [if_neg h0, Decimal.adjusted, hdigits] at hhigh
      refine ⟨by simp only; omega, ?_⟩
      rw [if_neg hn0, Decimal.adjusted]
      push_cast at hhigh
      simp only
      omega
    · have he' : 0 ≤ d.exponent + (k : ℤ) := not_lt.mp he
      rw [if_pos he'] at hdec
      rw [if_neg (by simpa using he')]
      have hint : (layout d.negative (digitsOf n) (d.exponent + k)).integer =
          digitsOf n ++ List.replicate (d.exponent + k).toNat 0 := by rw [layout_integer he']
      have hsign : (layout d.negative (digitsOf n) (d.exponent + k)).negative = d.negative := by
        rw [layout_integer he']
      refine ⟨_, parseJsonInteger_eq_ok.mpr ⟨rfl, ?_, hmag.trans_le hm⟩, ?_⟩
      · by_contra hlen
        have hlong : intMaxStrDigits < Decimal.numDigits (n * 10 ^ (d.exponent + k).toNat) := by
          rw [Decimal.numDigits_mul_pow hn0, ← digitsOf_length hn0]
          simpa [hint] using hlen
        have hbig := Decimal.pow_le_coefficient
          (show n * 10 ^ (d.exponent + k).toNat ≠ 0 by positivity)
        have hpow : 10 ^ 4300 ≤ n * 10 ^ (d.exponent + (k : ℤ)).toNat :=
          (Nat.pow_le_pow_right (by norm_num) (by rw [intMaxStrDigits] at hlong; omega)).trans hbig
        have hle := (hmag.trans_le hm).trans_lt acceptBound_lt
        rw [hdec, Decimal.magnitude, zpow_zero, mul_one] at hle
        have hcast : ((10 ^ 4300 : ℕ) : ℚ) ≤ (n * 10 ^ (d.exponent + (k : ℤ)).toNat : ℕ) :=
          Nat.cast_le.mpr hpow
        rw [Nat.cast_pow] at hcast
        exact absurd hle (not_lt.mpr hcast)
      · rw [← hval, hdec, NumberToken.toInt, hint, hsign, digitsValue_replicate,
          digitsValue_digitsOf, Decimal.toRat, Decimal.magnitude, zpow_zero, mul_one]
        split_ifs <;> push_cast <;> rfl

theorem numberToken_eq_iff {a b : Decimal} : numberToken a = numberToken b ↔ a.toRat = b.toRat := by
  constructor
  · intro h
    rw [← numberToken_toRat a, h, numberToken_toRat]
  · exact numberToken_congr

end Gateway
