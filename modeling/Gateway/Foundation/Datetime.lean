import Gateway.Foundation.Text

/-! Calendar date-times in UTC: fields, their order, arithmetic, and the RFC 3339 text. -/
namespace Gateway

def isLeap (year : ℕ) : Bool := year % 4 = 0 && (year % 100 ≠ 0 || year % 400 = 0)

def daysInMonth (year month : ℕ) : ℕ :=
  if month = 2 then (if isLeap year then 29 else 28)
  else if month = 4 ∨ month = 6 ∨ month = 9 ∨ month = 11 then 30 else 31

/-- A `datetime` in UTC; fields outside the calendar cannot be stored. -/
structure Datetime where
  year : ℕ
  month : ℕ
  day : ℕ
  hour : ℕ
  minute : ℕ
  second : ℕ
  microsecond : ℕ
  year_range : 1 ≤ year ∧ year ≤ 9999
  month_range : 1 ≤ month ∧ month ≤ 12
  day_range : 1 ≤ day ∧ day ≤ daysInMonth year month
  time_range : hour < 24 ∧ minute < 60 ∧ second < 60 ∧ microsecond < 1000000
deriving DecidableEq

namespace Datetime

theorem daysInMonth_le (year month : ℕ) : daysInMonth year month ≤ 31 := by
  unfold daysInMonth
  split_ifs <;> omega

/-- The constructor: it refuses what is not in the calendar. -/
def mk? (year month day hour minute second microsecond : ℕ) : Option Datetime :=
  if h : (1 ≤ year ∧ year ≤ 9999) ∧ (1 ≤ month ∧ month ≤ 12) ∧
      (1 ≤ day ∧ day ≤ daysInMonth year month) ∧
      (hour < 24 ∧ minute < 60 ∧ second < 60 ∧ microsecond < 1000000) then
    some ⟨year, month, day, hour, minute, second, microsecond, h.1, h.2.1, h.2.2.1, h.2.2.2⟩
  else none

/-- The date and time of day, read as one decimal number `yyyymmddhhmmss`. -/
def stamp (d : Datetime) : ℕ :=
  ((((d.year * 100 + d.month) * 100 + d.day) * 100 + d.hour) * 100 + d.minute) * 100 + d.second

def key (d : Datetime) : ℕ := d.stamp * 1000000 + d.microsecond

theorem key_injective : Function.Injective key := by
  intro a b h
  have hda := (daysInMonth_le a.year a.month).trans' a.day_range.2
  have hdb := (daysInMonth_le b.year b.month).trans' b.day_range.2
  obtain ⟨y, mo, d, hh, mi, s, us, hy, hmo, hd, ht⟩ := a
  obtain ⟨y', mo', d', hh', mi', s', us', hy', hmo', hd', ht'⟩ := b
  simp only [key, stamp] at h hda hdb
  simp only [mk.injEq]
  omega

/-- Field by field, as two `datetime` values of one zone compare. -/
instance : LinearOrder Datetime := LinearOrder.lift' key key_injective

theorem le_iff_key {a b : Datetime} : a ≤ b ↔ a.key ≤ b.key := Iff.rfl

theorem lt_iff_key {a b : Datetime} : a < b ↔ a.key < b.key := by
  rw [← not_le, ← not_le, le_iff_key]

/-- Against a whole second, only the whole seconds of the clock count. -/
theorem le_iff_stamp {a b : Datetime} (ha : a.microsecond = 0) : a ≤ b ↔ a.stamp ≤ b.stamp := by
  have := b.time_range.2.2.2
  rw [le_iff_key, key, key, ha]
  omega

/-! Arithmetic goes through the day number, as `toordinal` and `fromordinal` have it. -/

def daysBeforeYear (year : ℕ) : ℕ :=
  (year - 1) * 365 + (year - 1) / 4 - (year - 1) / 100 + (year - 1) / 400

def daysBeforeMonth (year month : ℕ) : ℕ :=
  ((List.range month).filter (1 ≤ ·)).foldl (fun n m => n + daysInMonth year m) 0

def toOrdinal (d : Datetime) : ℕ := daysBeforeYear d.year + daysBeforeMonth d.year d.month + d.day

/-- Year of a day number, and the days of that year before it. -/
def yearOfOrdinal (n : ℕ) : ℕ × ℕ :=
  let n := n - 1
  let n400 := n / 146097
  let n := n % 146097
  let n100 := n / 36524
  let n := n % 36524
  let n4 := n / 1461
  let n := n % 1461
  let n1 := n / 365
  let n := n % 365
  let year := n400 * 400 + n100 * 100 + n4 * 4 + n1 + 1
  if n1 = 4 ∨ n100 = 4 then (year - 1, 365) else (year, n)

/-- Month and day of the `n`-th day of a year, counted from zero, starting at `month`. -/
def monthOfDay (year : ℕ) : ℕ → ℕ → ℕ → ℕ × ℕ
  | 0, month, n => (month, n + 1)
  | fuel + 1, month, n =>
    if n < daysInMonth year month then (month, n + 1)
    else monthOfDay year fuel (month + 1) (n - daysInMonth year month)

/-- Microseconds from the start of year one. -/
def absolute (d : Datetime) : ℤ :=
  ((((d.toOrdinal - 1 : ℤ) * 24 + d.hour) * 60 + d.minute) * 60 + d.second) * 1000000 +
    d.microsecond

def ofAbsolute (us : ℤ) : Option Datetime :=
  if us < 0 then none
  else
    let n := us.toNat
    let (year, days) := yearOfOrdinal (n / 86400000000 + 1)
    let (month, day) := monthOfDay year 11 1 days
    mk? year month day (n / 3600000000 % 24) (n / 60000000 % 60) (n / 1000000 % 60) (n % 1000000)

/-- `self + timedelta(seconds=seconds)`; `none` is an `OverflowError`. -/
def addSeconds (d : Datetime) (seconds : ℤ) : Option Datetime :=
  ofAbsolute (d.absolute + seconds * 1000000)

def replaceMicrosecond (d : Datetime) : Datetime :=
  { d with microsecond := 0, time_range := ⟨d.time_range.1, d.time_range.2.1, d.time_range.2.2.1, by omega⟩ }

example : (mk? 2024 3 1 0 0 0 250000).bind (addSeconds · (-1)) = mk? 2024 2 29 23 59 59 250000 := by
  decide

end Datetime

end Gateway
