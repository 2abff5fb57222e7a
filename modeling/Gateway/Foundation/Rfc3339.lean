import Gateway.Foundation.Datetime

/-! Whole-second RFC 3339 text in UTC: `strftime`, `strptime`, and how SQL orders the texts. -/
namespace Gateway

/-- The zero of each block of ten decimal digits in Unicode 15, the digits `\d` matches. -/
def decimalZeros : List ℕ :=
  [0x30, 0x660, 0x6F0, 0x7C0, 0x966, 0x9E6, 0xA66, 0xAE6, 0xB66, 0xBE6, 0xC66, 0xCE6, 0xD66,
   0xDE6, 0xE50, 0xED0, 0xF20, 0x1040, 0x1090, 0x17E0, 0x1810, 0x1946, 0x19D0, 0x1A80, 0x1A90,
   0x1B50, 0x1BB0, 0x1C40, 0x1C50, 0xA620, 0xA8D0, 0xA900, 0xA9D0, 0xA9F0, 0xAA50, 0xABF0,
   0xFF10, 0x104A0, 0x10D30, 0x11066, 0x110F0, 0x11136, 0x111D0, 0x112F0, 0x11450, 0x114D0,
   0x11650, 0x116C0, 0x11730, 0x118E0, 0x11950, 0x11C50, 0x11D50, 0x11DA0, 0x11F50, 0x16A60,
   0x16AC0, 0x16B50, 0x1D7CE, 0x1D7D8, 0x1D7E2, 0x1D7EC, 0x1D7F6, 0x1E140, 0x1E2F0, 0x1E4F0,
   0x1E950, 0x1FBF0]

/-- The value of a Unicode decimal digit, as `int` reads it. -/
def decimalDigit? (c : ℕ) : Option ℕ :=
  (decimalZeros.find? (fun z => z ≤ c ∧ c < z + 10)).map (c - ·)

theorem decimalDigit?_some {c d : ℕ} (h : decimalDigit? c = some d) :
    d < 10 ∧ (c = 48 + d ∨ 128 ≤ c) := by
  obtain ⟨z, hz, rfl⟩ := Option.map_eq_some_iff.mp h
  have hr : z ≤ c ∧ c < z + 10 := by simpa using List.find?_some hz
  have hall : ∀ z ∈ decimalZeros, z = 48 ∨ 128 ≤ z := by decide
  rcases hall z (List.mem_of_find?_eq_some hz) with rfl | hz <;> omega

theorem decimalDigit?_ascii {d : ℕ} (h : d < 10) : decimalDigit? (48 + d) = some d := by
  have hall : ∀ d < 10, decimalDigit? (48 + d) = some d := by decide
  exact hall d h

theorem decimalDigit?_scalar {c d : ℕ} (h : decimalDigit? c = some d) : IsScalar c := by
  obtain ⟨z, hz, -⟩ := Option.map_eq_some_iff.mp h
  have hr : z ≤ c ∧ c < z + 10 := by simpa using List.find?_some hz
  have hall : ∀ z ∈ decimalZeros, z + 10 ≤ 0xD800 ∨ (0xE000 ≤ z ∧ z + 10 ≤ 0x110000) := by decide
  unfold IsScalar IsSurrogate
  rcases hall z (List.mem_of_find?_eq_some hz) with hz | hz <;> omega

/-- One position of a fixed-width format: a decimal digit or a literal character. -/
inductive Slot where
  | digit
  | literal (c : ℕ)
deriving DecidableEq

namespace Template

/-- `fullmatch`, giving the digit values in order. -/
def fullmatch : List Slot → Str → Option (List ℕ)
  | [], [] => some []
  | .digit :: T, c :: s => do
    let d ← decimalDigit? c
    let ds ← fullmatch T s
    return d :: ds
  | .literal x :: T, c :: s => if c = x then fullmatch T s else none
  | _, _ => none

/-- The format filled with ASCII digits. -/
def fill : List Slot → List ℕ → Str
  | .digit :: T, d :: ds => (48 + d) :: fill T ds
  | .literal x :: T, ds => x :: fill T ds
  | _, _ => []

def width (T : List Slot) : ℕ := T.count .digit

/-- Every code point of the text is ASCII. -/
def Ascii (s : Str) : Prop := ∀ c ∈ s, c < 128

instance (s : Str) : Decidable (Ascii s) := inferInstanceAs (Decidable (∀ c ∈ s, _))

variable {T : List Slot} {s : Str} {ds es : List ℕ}

theorem fullmatch_digits (h : fullmatch T s = some ds) :
    ds.length = width T ∧ ∀ d ∈ ds, d < 10 := by
  induction T generalizing s ds with
  | nil => cases s <;> simp_all [fullmatch, width]
  | cons slot T ih =>
    cases s with
    | nil => cases slot <;> simp [fullmatch] at h
    | cons c s =>
      cases slot with
      | digit =>
        simp only [fullmatch, Option.bind_eq_bind, Option.bind_eq_some_iff] at h
        obtain ⟨d, hd, ds', hds, he⟩ := h
        obtain rfl := Option.some.inj he
        obtain ⟨hl, hlt⟩ := ih hds
        refine ⟨by rw [List.length_cons, hl]; simp [width], ?_⟩
        intro e he
        rcases List.mem_cons.mp he with rfl | he
        · exact (decimalDigit?_some hd).1
        · exact hlt e he
      | literal x =>
        simp only [fullmatch] at h
        split at h
        · simpa [width] using ih h
        · simp at h

theorem fullmatch_mem (h : fullmatch T s = some ds) {c : ℕ} (hc : c ∈ s) :
    (∃ d, decimalDigit? c = some d) ∨ Slot.literal c ∈ T := by
  induction T generalizing s ds with
  | nil => cases s <;> simp_all [fullmatch]
  | cons slot T ih =>
    cases s with
    | nil => simp at hc
    | cons c' s =>
      have htail : ∀ {ds'}, fullmatch T s = some ds' → c ∈ s →
          (∃ d, decimalDigit? c = some d) ∨ Slot.literal c ∈ slot :: T :=
        fun h hc => (ih h hc).imp_right (List.mem_cons_of_mem _)
      cases slot with
      | digit =>
        simp only [fullmatch, Option.bind_eq_bind, Option.bind_eq_some_iff] at h
        obtain ⟨d, hd, ds', hds, -⟩ := h
        rcases List.mem_cons.mp hc with rfl | hc
        · exact .inl ⟨d, hd⟩
        · exact htail hds hc
      | literal x =>
        simp only [fullmatch] at h
        split at h
        · rename_i hx
          rcases List.mem_cons.mp hc with rfl | hc
          · exact .inr (by simp [hx])
          · exact htail h hc
        · simp at h

theorem fullmatch_fill (hl : ds.length = width T) (hd : ∀ d ∈ ds, d < 10) :
    fullmatch T (fill T ds) = some ds := by
  induction T generalizing ds with
  | nil =>
    obtain rfl : ds = [] := List.length_eq_zero_iff.mp (by simpa [width] using hl)
    rfl
  | cons slot T ih =>
    cases slot with
    | digit =>
      cases ds with
      | nil => simp [width] at hl
      | cons d ds =>
        have hl' : ds.length = width T := by simpa [width] using hl
        have hds := ih hl' (fun e he => hd e (List.mem_cons_of_mem _ he))
        simp [fill, fullmatch, decimalDigit?_ascii (hd d (by simp)), hds]
    | literal x => simpa [fill, fullmatch] using ih (by simpa [width] using hl) hd

theorem eq_fill_of_ascii (h : fullmatch T s = some ds) (ha : Ascii s) : s = fill T ds := by
  induction T generalizing s ds with
  | nil => cases s <;> simp_all [fullmatch, fill]
  | cons slot T ih =>
    cases s with
    | nil => cases slot <;> simp [fullmatch] at h
    | cons c s =>
      have has : Ascii s := fun x hx => ha x (List.mem_cons_of_mem _ hx)
      have hc : c < 128 := ha c (by simp)
      cases slot with
      | digit =>
        simp only [fullmatch, Option.bind_eq_bind, Option.bind_eq_some_iff] at h
        obtain ⟨d, hd, ds', hds, he⟩ := h
        obtain rfl := Option.some.inj he
        have hcd : c = 48 + d := (decimalDigit?_some hd).2.resolve_right (by omega)
        simp [fill, hcd, ← ih hds has]
      | literal x =>
        simp only [fullmatch] at h
        split at h
        · rename_i hx
          rw [hx, fill, ← ih h has]
        · simp at h

/-- A text that sorts no later than a filled format either is that text or has smaller digits:
the first difference is between ASCII digits, for any other digit sorts after all of them. -/
theorem lt_or_eq_of_le_fill (h : fullmatch T s = some ds) (hl : es.length = width T)
    (he : ∀ e ∈ es, e < 10) (hle : s ≤ fill T es) : ds < es ∨ s = fill T es := by
  induction T generalizing s ds es with
  | nil => cases s <;> simp_all [fullmatch, fill]
  | cons slot T ih =>
    cases s with
    | nil => cases slot <;> simp [fullmatch] at h
    | cons c s =>
      cases slot with
      | digit =>
        cases es with
        | nil => simp [width] at hl
        | cons e es =>
          simp only [fullmatch, Option.bind_eq_bind, Option.bind_eq_some_iff] at h
          obtain ⟨d, hd, ds', hds, heq⟩ := h
          obtain rfl := Option.some.inj heq
          have hl' : es.length = width T := by simpa [width] using hl
          have he' : ∀ x ∈ es, x < 10 := fun x hx => he x (List.mem_cons_of_mem _ hx)
          have hlt : e < 10 := he e (by simp)
          have hcd := (decimalDigit?_some hd).2
          simp only [fill, cons_le_cons] at hle ⊢
          rcases hle with hlt | ⟨rfl, hle⟩
          · by_cases hde : d < e
            · exact .inl (List.cons_lt_cons_iff.mpr (.inl hde))
            · omega
          · obtain rfl : d = e := by omega
            rcases ih hds hl' he' hle with hlt | heq
            · exact .inl (List.cons_lt_cons_iff.mpr (.inr ⟨rfl, hlt⟩))
            · exact .inr (by rw [heq])
      | literal x =>
        simp only [fullmatch] at h
        split at h
        · rename_i hc
          subst hc
          simp only [fill, cons_le_cons, lt_self_iff_false, true_and, false_or] at hle
          rcases ih h (by simpa [width] using hl) he hle with hlt | heq
          · exact .inl hlt
          · exact .inr (by rw [fill, heq])
        · simp at h

theorem fill_lt_fill_iff (hd : ds.length = width T) (he : es.length = width T) :
    fill T ds < fill T es ↔ ds < es := by
  induction T generalizing ds es with
  | nil =>
    obtain rfl : ds = [] := List.length_eq_zero_iff.mp (by simpa [width] using hd)
    obtain rfl : es = [] := List.length_eq_zero_iff.mp (by simpa [width] using he)
    rfl
  | cons slot T ih =>
    cases slot with
    | digit =>
      cases ds with
      | nil => simp [width] at hd
      | cons d ds =>
        cases es with
        | nil => simp [width] at he
        | cons e es =>
          have := ih (by simpa [width] using hd) (by simpa [width] using he)
          simp [fill, List.cons_lt_cons_iff, this]
    | literal x =>
      simpa [fill] using ih (by simpa [width] using hd) (by simpa [width] using he)

/-- Every literal of the format is ASCII. -/
def AsciiFormat (T : List Slot) : Prop := ∀ slot ∈ T, ∀ x, slot = .literal x → x < 128

theorem fill_ascii (hT : AsciiFormat T) (hd : ∀ d ∈ ds, d < 10) : Ascii (fill T ds) := by
  induction T generalizing ds with
  | nil => simp [fill, Ascii]
  | cons slot T ih =>
    have hT' : AsciiFormat T := fun slot hs => hT slot (List.mem_cons_of_mem _ hs)
    cases slot with
    | digit =>
      cases ds with
      | nil => simp [fill, Ascii]
      | cons d ds =>
        have hd' := ih hT' (fun e he => hd e (List.mem_cons_of_mem _ he))
        have : d < 10 := hd d (by simp)
        intro c hc
        rcases List.mem_cons.mp hc with rfl | hc
        · omega
        · exact hd' c hc
    | literal x =>
      intro c hc
      rcases List.mem_cons.mp hc with rfl | hc
      · exact hT (.literal c) (by simp) c rfl
      · exact ih hT' hd c hc

end Template

/-- `n` in `w` decimal digits, most significant first. -/
def pad : ℕ → ℕ → List ℕ
  | 0, _ => []
  | w + 1, n => pad w (n / 10) ++ [n % 10]

@[simp] theorem pad_length (w n : ℕ) : (pad w n).length = w := by
  induction w generalizing n with
  | zero => rfl
  | succ w ih => simp [pad, ih]

theorem pad_lt {w n d : ℕ} (h : d ∈ pad w n) : d < 10 := by
  induction w generalizing n with
  | zero => simp [pad] at h
  | succ w ih =>
    rcases List.mem_append.mp h with h | h
    · exact ih h
    · obtain rfl := List.mem_singleton.mp h
      omega

theorem digitsValue_pad {w n : ℕ} (h : n < 10 ^ w) : digitsValue (pad w n) = n := by
  induction w generalizing n with
  | zero => simp_all [pad, digitsValue]
  | succ w ih =>
    have hn : n / 10 < 10 ^ w := by rw [pow_succ] at h; omega
    rw [pad, digitsValue_append, ih hn]
    simp [digitsValue]
    omega

namespace Datetime

/-- `%Y-%m-%dT%H:%M:%SZ`. -/
def format : List Slot :=
  [.digit, .digit, .digit, .digit, .literal 45, .digit, .digit, .literal 45, .digit, .digit,
   .literal 84, .digit, .digit, .literal 58, .digit, .digit, .literal 58, .digit, .digit,
   .literal 90]

def digits (d : Datetime) : List ℕ :=
  pad 4 d.year ++ pad 2 d.month ++ pad 2 d.day ++ pad 2 d.hour ++ pad 2 d.minute ++ pad 2 d.second

/-- `strftime`, the year in four digits. -/
def strftime (d : Datetime) : Str := Template.fill format d.digits

/-- The date-time a digit list of the format denotes, if the calendar has it. -/
def ofDigits (ds : List ℕ) : Option Datetime :=
  mk? (digitsValue (ds.take 4)) (digitsValue ((ds.drop 4).take 2))
    (digitsValue ((ds.drop 6).take 2)) (digitsValue ((ds.drop 8).take 2))
    (digitsValue ((ds.drop 10).take 2)) (digitsValue ((ds.drop 12).take 2)) 0

/-- `strptime` on text of the format's two-digit shape, any Unicode decimal digit accepted. -/
def strptime (s : Str) : Option Datetime := (Template.fullmatch format s).bind ofDigits

theorem format_ascii : Template.AsciiFormat format := by
  intro slot hs x hx
  subst hx
  simp only [format, List.mem_cons, Slot.literal.injEq, reduceCtorEq, List.not_mem_nil, or_false,
    false_or] at hs
  omega

theorem digits_length (d : Datetime) : d.digits.length = Template.width format := by
  simp [digits, Template.width, format]

theorem digits_lt (d : Datetime) : ∀ x ∈ d.digits, x < 10 := by
  intro x hx
  simp only [digits, List.mem_append] at hx
  rcases hx with ((((h | h) | h) | h) | h) | h <;> exact pad_lt h

theorem digitsValue_digits (d : Datetime) : digitsValue d.digits = d.stamp := by
  have hy := d.year_range.2
  have hm := d.month_range.2
  have hd := d.day_range.2.trans (daysInMonth_le _ _)
  obtain ⟨hh, hmi, hs, _⟩ := d.time_range
  simp only [digits, digitsValue_append, pad_length]
  rw [digitsValue_pad (by omega), digitsValue_pad (by omega), digitsValue_pad (by omega),
    digitsValue_pad (by omega), digitsValue_pad (by omega), digitsValue_pad (by omega), stamp]
  ring

theorem mk?_eq_some {y mo d h mi s us : ℕ} {t : Datetime} (ht : mk? y mo d h mi s us = some t) :
    t.year = y ∧ t.month = mo ∧ t.day = d ∧ t.hour = h ∧ t.minute = mi ∧ t.second = s ∧
      t.microsecond = us := by
  unfold mk? at ht
  split at ht
  · obtain rfl := Option.some.inj ht
    simp
  · simp at ht

theorem ofDigits_eq_some {ds : List ℕ} {d : Datetime} (hl : ds.length = 14)
    (h : ofDigits ds = some d) : d.microsecond = 0 ∧ digitsValue ds = d.stamp := by
  obtain ⟨hy, hmo, hd, hh, hmi, hs, hus⟩ := mk?_eq_some h
  refine ⟨hus, ?_⟩
  have split : ds = ds.take 4 ++ (ds.drop 4).take 2 ++ (ds.drop 6).take 2 ++
      (ds.drop 8).take 2 ++ (ds.drop 10).take 2 ++ (ds.drop 12).take 2 := by
    match ds, hl with
    | [a, b, c, d, e, f, g, h, i, j, k, l, m, n], _ => rfl
  rw [split]
  simp only [digitsValue_append, ← hy, ← hmo, ← hd, ← hh, ← hmi, ← hs, List.length_take,
    List.length_drop, hl, stamp]
  norm_num

theorem strptime_eq_some {s : Str} {d : Datetime} (h : strptime s = some d) :
    Template.fullmatch format s = some d.digits ∧ d.microsecond = 0 := by
  obtain ⟨ds, hm, hd⟩ := Option.bind_eq_some_iff.mp h
  obtain ⟨hl, hlt⟩ := Template.fullmatch_digits hm
  obtain ⟨hus, hv⟩ := ofDigits_eq_some (hl.trans rfl) hd
  refine ⟨?_, hus⟩
  rw [hm, Option.some.injEq]
  have hlen : ds.length = d.digits.length := hl.trans d.digits_length.symm
  have hval : digitsValue ds = digitsValue d.digits := hv.trans d.digitsValue_digits.symm
  have h1 := digits_le_iff hlen hlt d.digits_lt
  have h2 := digits_le_iff hlen.symm d.digits_lt hlt
  exact le_antisymm (h1.mpr hval.le) (h2.mpr hval.ge)

theorem digits_lt_digits_iff {a b : Datetime} : a.digits < b.digits ↔ a.stamp < b.stamp := by
  rw [digits_lt_iff (a.digits_length.trans b.digits_length.symm) a.digits_lt b.digits_lt,
    digitsValue_digits, digitsValue_digits]

theorem strftime_lt_iff {a b : Datetime} : a.strftime < b.strftime ↔ a.stamp < b.stamp := by
  rw [strftime, strftime, Template.fill_lt_fill_iff a.digits_length b.digits_length,
    digits_lt_digits_iff]

theorem strftime_le_iff {a b : Datetime} : a.strftime ≤ b.strftime ↔ a.stamp ≤ b.stamp := by
  rw [← not_lt, ← not_lt, strftime_lt_iff]

/-- A text no later than the clock's in byte order names a time the clock has reached. -/
theorem le_of_strptime_le {s : Str} {d now : Datetime} (h : strptime s = some d)
    (hle : utf8 s ≤ utf8 now.strftime) : d ≤ now := by
  obtain ⟨hm, hus⟩ := strptime_eq_some h
  rw [le_iff_stamp hus]
  rcases Template.lt_or_eq_of_le_fill hm now.digits_length now.digits_lt (utf8_le_iff.mp hle) with hlt | heq
  · exact (digits_lt_digits_iff.mp hlt).le
  · have hself := Template.fullmatch_fill now.digits_length now.digits_lt
    rw [← heq, hm, Option.some.injEq] at hself
    exact (d.digitsValue_digits ▸ now.digitsValue_digits ▸ congrArg digitsValue hself).le

/-- Written in ASCII digits, a text sorts with the clock's exactly as the times compare. -/
theorem utf8_le_strftime_iff {s : Str} {d now : Datetime} (h : strptime s = some d)
    (ha : Template.Ascii s) : utf8 s ≤ utf8 now.strftime ↔ d ≤ now := by
  obtain ⟨hm, hus⟩ := strptime_eq_some h
  rw [utf8_le_iff, Template.eq_fill_of_ascii hm ha, le_iff_stamp hus]
  exact strftime_le_iff

/-- Any other digit makes the text sort after the very time it names. -/
theorem not_utf8_le_strftime_self {s : Str} {d now : Datetime} (h : strptime s = some d)
    (ha : ¬ Template.Ascii s) (hnow : now.stamp = d.stamp) : ¬ utf8 s ≤ utf8 now.strftime := by
  intro hle
  obtain ⟨hm, _⟩ := strptime_eq_some h
  rcases Template.lt_or_eq_of_le_fill hm now.digits_length now.digits_lt (utf8_le_iff.mp hle) with hlt | heq
  · exact absurd (digits_lt_digits_iff.mp hlt) (by omega)
  · exact ha (heq ▸ Template.fill_ascii format_ascii now.digits_lt)

end Datetime

end Gateway
