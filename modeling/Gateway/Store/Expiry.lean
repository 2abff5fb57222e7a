import Gateway.Store.Capacity

/-! Expiry in SQL and expiry on the clock: when the two agree, and what follows along a run. -/
namespace Gateway

open Transition (Run Reachable)

/-- The text is all ASCII, or its year starts with an ASCII zero. -/
def SortsWithClock (e : Expiry) : Prop := Template.Ascii e.text ∨ e.text.head? = some 48

instance (e : Expiry) : Decidable (SortsWithClock e) := inferInstanceAs (Decidable (_ ∨ _))

/-! The comparison in `_cleanup`. -/

theorem pad_four {year : ℕ} (h : year ≤ 9999) : ∃ ds, pad 4 year = year / 1000 :: ds := by
  refine ⟨[year / 100 % 10, year / 10 % 10, year % 10], ?_⟩
  simp only [pad, List.nil_append, List.cons_append, Nat.div_div_eq_div_mul]
  congr 1
  omega

/-- A timestamp starts with the thousands of its year. -/
theorem timestamp_head (now : Datetime) : ∃ s, timestamp now = (48 + now.year / 1000) :: s := by
  obtain ⟨ds, hds⟩ := pad_four now.year_range.2
  unfold timestamp Datetime.strftime Datetime.digits
  rw [hds]
  exact ⟨_, rfl⟩

/-- So does an accepted text, in one digit or another. -/
theorem expiry_head (e : Expiry) :
    ∃ c s, e.text = c :: s ∧ (c = 48 + e.time.year / 1000 ∨ 128 ≤ c) := by
  have hm := (Datetime.strptime_eq_some e.parses).1
  obtain ⟨ds, hds⟩ := pad_four e.time.year_range.2
  cases ht : e.text with
  | nil => simp [ht, Template.fullmatch, Datetime.format] at hm
  | cons c s =>
    rw [ht] at hm
    unfold Datetime.format Datetime.digits at hm
    rw [hds] at hm
    simp only [Template.fullmatch, Option.bind_eq_bind, Option.bind_eq_some_iff] at hm
    obtain ⟨d, hd, ds', -, he⟩ := hm
    obtain ⟨rfl, -⟩ := List.cons.inj (Option.some.inj he)
    exact ⟨c, s, rfl, (decimalDigit?_some hd).2⟩

theorem due_iff {e : Expiry} {now : Datetime} (h : SortsWithClock e) (hnow : 1000 ≤ now.year) :
    utf8 e.text ≤ utf8 (timestamp now) ↔ e.time ≤ now := by
  rcases h with ha | h0
  · exact Datetime.utf8_le_strftime_iff e.parses ha
  · obtain ⟨s, hs⟩ := timestamp_head now
    obtain ⟨c, s', hc, -⟩ := expiry_head e
    have hlt : utf8 e.text ≤ utf8 (timestamp now) := by
      rw [hc] at h0
      obtain rfl : c = 48 := by simpa using h0
      have hpos : 0 < now.year / 1000 := Nat.div_pos hnow (by norm_num)
      rw [utf8_le_iff, hc, hs, cons_le_cons]
      exact .inl (by omega)
    exact ⟨fun _ => Datetime.le_of_strptime_le e.parses hlt, fun _ => hlt⟩

def lastInstant : Datetime :=
  ⟨9999, 12, 31, 23, 59, 59, 999999, by decide, by decide, by decide, by decide⟩

theorem le_lastInstant {d : Datetime} (h : d.year < 1000) : d ≤ lastInstant := by
  have hd := (Datetime.daysInMonth_le d.year d.month).trans' d.day_range.2
  have hm := d.month_range
  have ht := d.time_range
  rw [Datetime.le_iff_key]
  simp only [Datetime.key, Datetime.stamp, lastInstant]
  omega

/-- Any other text has a moment at which it has expired and is not due. -/
theorem exists_not_due {e : Expiry} (h : ¬ SortsWithClock e) :
    ∃ now : Datetime, 1000 ≤ now.year ∧ e.time ≤ now ∧ ¬ utf8 e.text ≤ utf8 (timestamp now) := by
  obtain ⟨hascii, hzero⟩ := not_or.mp h
  by_cases hyear : 1000 ≤ e.time.year
  · exact ⟨e.time, hyear, le_rfl, Datetime.not_utf8_le_strftime_self e.parses hascii rfl⟩
  · obtain ⟨c, s, hc, hcase⟩ := expiry_head e
    have hlarge : 128 ≤ c := by
      refine hcase.resolve_left fun h48 => hzero ?_
      have : e.time.year / 1000 = 0 := Nat.div_eq_of_lt (not_le.mp hyear)
      rw [hc, h48, this]
      rfl
    refine ⟨lastInstant, by decide, le_lastInstant (not_le.mp hyear), ?_⟩
    obtain ⟨s', hs'⟩ := timestamp_head lastInstant
    rw [utf8_le_iff, hc, hs', cons_le_cons]
    have : lastInstant.year / 1000 = 9 := rfl
    omega

theorem due_iff_sortsWithClock {e : Expiry} :
    (∀ now : Datetime, 1000 ≤ now.year → (utf8 e.text ≤ utf8 (timestamp now) ↔ e.time ≤ now)) ↔
      SortsWithClock e := by
  constructor
  · intro h
    by_contra hn
    obtain ⟨now, hyear, hle, hdue⟩ := exists_not_due hn
    exact hdue ((h now hyear).mpr hle)
  · exact fun h now hnow => due_iff h hnow

end Gateway
