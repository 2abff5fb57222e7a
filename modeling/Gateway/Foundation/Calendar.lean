import Gateway.Foundation.Datetime

/-! The calendar is a numbering: order, seconds and addition of `datetime` on the number line. -/
namespace Gateway.Datetime

def yearLength (year : ℕ) : ℕ := if isLeap year then 366 else 365

theorem daysBeforeYear_succ {year : ℕ} (h : 1 ≤ year) :
    daysBeforeYear (year + 1) = daysBeforeYear year + yearLength year := by
  obtain ⟨m, rfl⟩ : ∃ m, year = m + 1 := ⟨year - 1, by omega⟩
  have hle : m / 100 ≤ m / 4 := Nat.div_le_div_left (by norm_num) (by norm_num)
  simp only [daysBeforeYear, yearLength, Nat.add_sub_cancel]
  by_cases d4 : (m + 1) % 4 = 0
  · have h4 : (m + 1) / 4 = m / 4 + 1 := by omega
    by_cases d100 : (m + 1) % 100 = 0
    · have h100 : (m + 1) / 100 = m / 100 + 1 := by omega
      by_cases d400 : (m + 1) % 400 = 0
      · have hleap : isLeap (m + 1) = true := by simp [isLeap, d4, d400]
        have h400 : (m + 1) / 400 = m / 400 + 1 := by omega
        rw [hleap, h4, h100, h400, if_pos rfl]
        omega
      · have hleap : isLeap (m + 1) = false := by simp [isLeap, d100, d400]
        have h400 : (m + 1) / 400 = m / 400 := by omega
        rw [hleap, h4, h100, h400, if_neg Bool.false_ne_true]
        omega
    · have hleap : isLeap (m + 1) = true := by simp [isLeap, d4, d100]
      have h100 : (m + 1) / 100 = m / 100 := by omega
      have h400 : (m + 1) / 400 = m / 400 := by omega
      rw [hleap, h4, h100, h400, if_pos rfl]
      omega
  · have hleap : isLeap (m + 1) = false := by simp [isLeap, d4]
    have h4 : (m + 1) / 4 = m / 4 := by omega
    have h100 : (m + 1) / 100 = m / 100 := by omega
    have h400 : (m + 1) / 400 = m / 400 := by omega
    rw [hleap, h4, h100, h400, if_neg Bool.false_ne_true]
    omega

theorem daysBeforeYear_add_le {y y' : ℕ} (h : 1 ≤ y) (hlt : y < y') :
    daysBeforeYear y + yearLength y ≤ daysBeforeYear y' := by
  induction y', hlt using Nat.le_induction with
  | base => rw [daysBeforeYear_succ h]
  | succ y' hle ih =>
    rw [daysBeforeYear_succ (by omega)]
    omega

theorem daysBeforeMonth_one (year : ℕ) : daysBeforeMonth year 1 = 0 := by
  simp [daysBeforeMonth]

theorem daysBeforeMonth_succ {year month : ℕ} (h : 1 ≤ month) :
    daysBeforeMonth year (month + 1) = daysBeforeMonth year month + daysInMonth year month := by
  simp [daysBeforeMonth, List.range_succ, h]

theorem daysBeforeMonth_add_le {year m m' : ℕ} (h : 1 ≤ m) (hlt : m < m') :
    daysBeforeMonth year m + daysInMonth year m ≤ daysBeforeMonth year m' := by
  induction m', hlt using Nat.le_induction with
  | base => rw [daysBeforeMonth_succ h]
  | succ m' hle ih =>
    rw [daysBeforeMonth_succ (by omega)]
    omega

theorem daysBeforeMonth_end (year : ℕ) : daysBeforeMonth year 13 = yearLength year := by
  rw [daysBeforeMonth_succ (by omega), daysBeforeMonth_succ (by omega),
    daysBeforeMonth_succ (by omega), daysBeforeMonth_succ (by omega),
    daysBeforeMonth_succ (by omega), daysBeforeMonth_succ (by omega),
    daysBeforeMonth_succ (by omega), daysBeforeMonth_succ (by omega),
    daysBeforeMonth_succ (by omega), daysBeforeMonth_succ (by omega),
    daysBeforeMonth_succ (by omega), daysBeforeMonth_succ (by omega), daysBeforeMonth_one]
  simp only [daysInMonth, yearLength]
  cases isLeap year <;> simp

/-! Order. -/

theorem daysBeforeMonth_day (d : Datetime) :
    daysBeforeMonth d.year d.month + d.day ≤ yearLength d.year := by
  have hm := d.month_range
  have hd := d.day_range.2
  have := @daysBeforeMonth_add_le d.year _ _ hm.1 (show d.month < 13 by omega)
  rw [daysBeforeMonth_end] at this
  omega

/-- An earlier date has a smaller day number. -/
theorem toOrdinal_lt {a b : Datetime} (h : a.year < b.year ∨ (a.year = b.year ∧
    (a.month < b.month ∨ (a.month = b.month ∧ a.day < b.day)))) : a.toOrdinal < b.toOrdinal := by
  unfold toOrdinal
  have hb := b.day_range.1
  rcases h with hy | ⟨hy, hm | ⟨hm, hd⟩⟩
  · have hday := daysBeforeMonth_day a
    have := daysBeforeYear_add_le a.year_range.1 hy
    omega
  · have hday := a.day_range.2
    have := @daysBeforeMonth_add_le a.year _ _ a.month_range.1 hm
    rw [← hy]
    omega
  · rw [hy, hm]
    omega

theorem absolute_strictMono : StrictMono absolute := by
  intro a b h
  rw [lt_iff_key] at h
  have hda := a.day_range.2.trans (daysInMonth_le a.year a.month)
  have hdb := b.day_range.2.trans (daysInMonth_le b.year b.month)
  have hma := a.month_range
  have hmb := b.month_range
  obtain ⟨hha, hmia, hsa, hua⟩ := a.time_range
  obtain ⟨hhb, hmib, hsb, hub⟩ := b.time_range
  unfold absolute
  by_cases hdate : a.year = b.year ∧ a.month = b.month ∧ a.day = b.day
  · obtain ⟨hy, hm, hd⟩ := hdate
    have hord : a.toOrdinal = b.toOrdinal := by rw [toOrdinal, toOrdinal, hy, hm, hd]
    simp only [key, stamp, hy, hm, hd] at h
    rw [hord]
    omega
  · have hord := toOrdinal_lt (a := a) (b := b) (by
      simp only [key, stamp] at h
      omega)
    omega

theorem absolute_lt_iff {a b : Datetime} : a.absolute < b.absolute ↔ a < b :=
  absolute_strictMono.lt_iff_lt

theorem absolute_le_iff {a b : Datetime} : a.absolute ≤ b.absolute ↔ a ≤ b :=
  absolute_strictMono.le_iff_le

/-- Whole seconds since the start of year one. -/
def seconds (d : Datetime) : ℤ := d.absolute / 1000000

theorem absolute_eq (d : Datetime) : d.absolute = d.seconds * 1000000 + d.microsecond := by
  have := d.time_range.2.2.2
  unfold seconds absolute
  omega

theorem replaceMicrosecond_absolute (d : Datetime) :
    d.replaceMicrosecond.absolute = d.seconds * 1000000 := by
  have := d.time_range.2.2.2
  have hord : d.replaceMicrosecond.toOrdinal = d.toOrdinal := rfl
  unfold seconds absolute
  rw [hord]
  simp only [replaceMicrosecond]
  omega

theorem lt_of_seconds {a b : Datetime} (h : a.seconds < b.seconds) : a < b := by
  have ha := a.time_range.2.2.2
  rw [← absolute_lt_iff, absolute_eq, absolute_eq]
  omega

theorem seconds_lt_iff {a b : Datetime} : a.seconds < b.seconds ↔ a.stamp < b.stamp := by
  have h : a.replaceMicrosecond < b.replaceMicrosecond ↔ a.stamp < b.stamp := by
    have hkey : ∀ d : Datetime, d.replaceMicrosecond.key = d.stamp * 1000000 := by
      simp [key, stamp, replaceMicrosecond]
    rw [lt_iff_key, hkey, hkey]
    omega
  rw [← h, ← absolute_lt_iff, replaceMicrosecond_absolute, replaceMicrosecond_absolute]
  omega

/-! From the number line back to the calendar. -/

/-- One past the last day number. -/
def dayLimit : ℕ := 3652059

theorem yearOfOrdinal_spec {n : ℕ} (h1 : 1 ≤ n) (h2 : n ≤ dayLimit) :
    1 ≤ (yearOfOrdinal n).1 ∧ (yearOfOrdinal n).1 ≤ 9999 ∧
      (yearOfOrdinal n).2 < yearLength (yearOfOrdinal n).1 ∧
      daysBeforeYear (yearOfOrdinal n).1 + (yearOfOrdinal n).2 + 1 = n := by
  unfold dayLimit at h2
  unfold yearOfOrdinal
  simp only
  generalize ha : (n - 1) / 146097 = a
  generalize hb : (n - 1) % 146097 = b
  generalize hc : b / 36524 = c
  generalize he : b % 36524 = e
  generalize hf : e / 1461 = f
  generalize hg : e % 1461 = g
  generalize hh : g / 365 = r
  have hn : n = 146097 * a + b + 1 := by omega
  have hb' : b = 36524 * c + e ∧ b < 146097 := by omega
  have he' : e = 1461 * f + g ∧ e < 36524 := by omega
  have hg' : g = 365 * r + g % 365 ∧ g < 1461 := by omega
  have hbounds : a ≤ 24 ∧ c ≤ 4 ∧ f ≤ 24 ∧ r ≤ 4 := by omega
  -- the four counters are the quotients of the year before
  have hquotients : ∀ r ≤ 3, (a * 400 + c * 100 + f * 4 + r) / 4 = 100 * a + 25 * c + f ∧
      (c ≤ 3 → (a * 400 + c * 100 + f * 4 + r) / 100 = 4 * a + c ∧
        (a * 400 + c * 100 + f * 4 + r) / 400 = a) := by
    intro r hr
    refine ⟨by omega, fun hc => ⟨by omega, by omega⟩⟩
  split_ifs with hlast
  · rcases hlast with rfl | rfl
    · -- the last day of four years that end in a leap year
      have hc3 : c ≤ 3 := by omega
      have hf23 : f ≤ 23 := by omega
      obtain ⟨h4, h100⟩ := hquotients 3 le_rfl
      obtain ⟨h100, h400⟩ := h100 hc3
      have hleap : isLeap (a * 400 + c * 100 + f * 4 + 4) = true := by
        simp only [isLeap, Bool.and_eq_true, decide_eq_true_eq, Bool.or_eq_true]
        omega
      have hyear : a * 400 + c * 100 + f * 4 + 4 - 1 = a * 400 + c * 100 + f * 4 + 3 := by omega
      simp only [yearLength, Nat.add_sub_cancel, hleap, if_true, daysBeforeYear, hyear, h4, h100, h400]
      omega
    · -- the last day of four centuries
      obtain rfl : f = 0 := by omega
      obtain rfl : r = 0 := by omega
      have hleap : isLeap (a * 400 + 4 * 100) = true := by
        simp only [isLeap, Bool.and_eq_true, decide_eq_true_eq, Bool.or_eq_true]
        omega
      have h4 : (a * 400 + 4 * 100 - 1) / 4 = 100 * a + 99 := by omega
      have h100 : (a * 400 + 4 * 100 - 1) / 100 = 4 * a + 3 := by omega
      have h400 : (a * 400 + 4 * 100 - 1) / 400 = a := by omega
      simp only [yearLength, Nat.add_sub_cancel, zero_mul, add_zero, hleap, if_true, daysBeforeYear,
        h4, h100, h400]
      omega
  · have hc3 : c ≤ 3 := by omega
    obtain ⟨h4, h100⟩ := hquotients r (by omega)
    obtain ⟨h100, h400⟩ := h100 hc3
    have hlen : 365 ≤ yearLength (a * 400 + c * 100 + f * 4 + r + 1) := by
      unfold yearLength
      split_ifs <;> omega
    have hmod : g % 365 < 365 := by omega
    simp only [daysBeforeYear, Nat.add_sub_cancel, h4, h100, h400]
    omega

theorem monthOfDay_spec {year fuel month n : ℕ} (h1 : 1 ≤ month) (h12 : month + fuel = 12)
    (hn : daysBeforeMonth year month + n < yearLength year) :
    let p := monthOfDay year fuel month n
    1 ≤ p.1 ∧ p.1 ≤ 12 ∧ 1 ≤ p.2 ∧ p.2 ≤ daysInMonth year p.1 ∧
      daysBeforeMonth year p.1 + p.2 = daysBeforeMonth year month + n + 1 := by
  induction fuel generalizing month n with
  | zero =>
    obtain rfl : month = 12 := by omega
    have := @daysBeforeMonth_succ year 12 (by omega)
    rw [daysBeforeMonth_end] at this
    simp only [monthOfDay]
    omega
  | succ fuel ih =>
    rw [monthOfDay]
    split_ifs with hlt
    · simp only
      omega
    · have hstep := @daysBeforeMonth_succ year _ h1
      have := @ih (month + 1) (n - daysInMonth year month) (by omega) (by omega)
        (by omega)
      simp only at this ⊢
      omega

/-- Every number in range is the number of one moment. -/
theorem ofAbsolute_absolute {us : ℤ} (h0 : 0 ≤ us) (h : us < dayLimit * 86400000000) :
    ∃ d, ofAbsolute us = some d ∧ d.absolute = us := by
  obtain ⟨n, rfl⟩ := Int.eq_ofNat_of_zero_le h0
  have hdays : n / 86400000000 + 1 ≤ dayLimit := by
    have : n < dayLimit * 86400000000 := by exact_mod_cast h
    omega
  obtain ⟨hy1, hy2, hylen, hyear⟩ := yearOfOrdinal_spec (n := n / 86400000000 + 1) (by omega) hdays
  have hmonth := @monthOfDay_spec (yearOfOrdinal (n / 86400000000 + 1)).1 11 1
    (yearOfOrdinal (n / 86400000000 + 1)).2 le_rfl rfl (by rw [daysBeforeMonth_one]; omega)
  rw [daysBeforeMonth_one] at hmonth
  simp only at hmonth
  obtain ⟨hm1, hm2, hd1, hd2, hday⟩ := hmonth
  rw [ofAbsolute, if_neg (by omega)]
  simp only [Int.toNat_natCast]
  rw [mk?, dif_pos ⟨⟨hy1, hy2⟩, ⟨hm1, hm2⟩, ⟨hd1, hd2⟩, by omega, by omega, by omega, by omega⟩]
  refine ⟨_, rfl, ?_⟩
  simp only [absolute, toOrdinal]
  omega

theorem absolute_nonneg (d : Datetime) : 0 ≤ d.absolute := by
  have hpos : 1 ≤ d.toOrdinal := by
    have := d.day_range.1
    unfold toOrdinal
    omega
  unfold absolute
  omega

theorem absolute_lt_limit (d : Datetime) : d.absolute < dayLimit * 86400000000 := by
  have hday := daysBeforeMonth_day d
  have hy := d.year_range
  have hlen := daysBeforeYear_succ hy.1
  have hend : daysBeforeYear (d.year + 1) ≤ dayLimit := by
    unfold daysBeforeYear dayLimit
    omega
  have hord : d.toOrdinal ≤ dayLimit := by
    unfold toOrdinal
    omega
  obtain ⟨hh, hm, hs, hus⟩ := d.time_range
  unfold absolute
  omega

theorem yearOfOrdinal_late {n : ℕ} (h : dayLimit < n) : 9999 < (yearOfOrdinal n).1 := by
  unfold dayLimit at h
  unfold yearOfOrdinal
  simp only
  generalize ha : (n - 1) / 146097 = a
  generalize hb : (n - 1) % 146097 = b
  generalize hc : b / 36524 = c
  generalize he : b % 36524 = e
  generalize hf : e / 1461 = f
  generalize hg : e % 1461 = g
  generalize hr : g / 365 = r
  have h24 : 24 ≤ a := by omega
  rcases h24.eq_or_lt with h24 | h25
  · have h3 : 3 ≤ c := by omega
    split_ifs with hlast
    · simp only
      omega
    · have hf24 : 24 ≤ f := by omega
      have hr3 : 3 ≤ r := by omega
      simp only
      omega
  · split_ifs with hlast <;> simp only <;> omega

theorem ofAbsolute_eq_some {us : ℤ} {d : Datetime} (h : ofAbsolute us = some d) :
    d.absolute = us := by
  by_cases h0 : us < 0
  · rw [ofAbsolute, if_pos h0] at h
    cases h
  by_cases hlimit : us < dayLimit * 86400000000
  · obtain ⟨e, he, habs⟩ := ofAbsolute_absolute (not_lt.mp h0) hlimit
    rw [h] at he
    exact Option.some.inj he ▸ habs
  · have hlate := yearOfOrdinal_late (n := us.toNat / 86400000000 + 1) (by
      have : dayLimit = 3652059 := rfl
      omega)
    rw [ofAbsolute, if_neg h0] at h
    simp only at h
    rw [mk?, dif_neg (by omega)] at h
    cases h

/-- Addition on the number line, inside the calendar and nowhere else. -/
theorem addSeconds_eq_some {d e : Datetime} {s : ℤ} (h : d.addSeconds s = some e) :
    e.absolute = d.absolute + s * 1000000 :=
  ofAbsolute_eq_some h

theorem exists_addSeconds {d : Datetime} {s : ℤ} (h0 : 0 ≤ d.absolute + s * 1000000)
    (h : d.absolute + s * 1000000 < dayLimit * 86400000000) : ∃ e, d.addSeconds s = some e := by
  obtain ⟨e, he, -⟩ := ofAbsolute_absolute h0 h
  exact ⟨e, he⟩

theorem addSeconds_seconds {d e : Datetime} {s : ℤ} (h : d.addSeconds s = some e) :
    e.seconds = d.seconds + s ∧ e.microsecond = d.microsecond := by
  have habs := addSeconds_eq_some h
  have hd := d.time_range.2.2.2
  have he := e.time_range.2.2.2
  rw [absolute_eq, absolute_eq] at habs
  omega

end Gateway.Datetime
