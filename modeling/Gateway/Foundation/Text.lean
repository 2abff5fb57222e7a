import Mathlib

/-! Strings as code points, their UTF-8 octets, and the order of fixed-width digit texts. -/
namespace Gateway

/-- A Python `str`: code points, lone surrogates included. -/
abbrev Str := List ℕ

/-- Octets as natural numbers; the decoders refuse what is above 0xFF. -/
abbrev Bytes := List ℕ

def str (s : String) : Str := s.toList.map Char.toNat

instance : Coe String Str := ⟨str⟩

instance : LawfulBEq Str := inferInstance

def IsSurrogate (c : ℕ) : Prop := 0xD800 ≤ c ∧ c < 0xE000

instance (c : ℕ) : Decidable (IsSurrogate c) := inferInstanceAs (Decidable (_ ∧ _))

/-- A Unicode scalar value: what UTF-8 can encode. -/
def IsScalar (c : ℕ) : Prop := c < 0x110000 ∧ ¬ IsSurrogate c

instance (c : ℕ) : Decidable (IsScalar c) := inferInstanceAs (Decidable (_ ∧ _))

/-- No lone surrogate anywhere. -/
def Scalars (s : Str) : Prop := ∀ c ∈ s, IsScalar c

instance (s : Str) : Decidable (Scalars s) := inferInstanceAs (Decidable (∀ c ∈ s, _))

/-- The octets of one code point, a surrogate encoded as its three octets. -/
def utf8Char (c : ℕ) : Bytes :=
  if c < 0x80 then [c]
  else if c < 0x800 then [0xC0 + c / 0x40, 0x80 + c % 0x40]
  else if c < 0x10000 then [0xE0 + c / 0x1000, 0x80 + c / 0x40 % 0x40, 0x80 + c % 0x40]
  else [0xF0 + c / 0x40000, 0x80 + c / 0x1000 % 0x40, 0x80 + c / 0x40 % 0x40, 0x80 + c % 0x40]

def utf8 (s : Str) : Bytes := s.flatMap utf8Char

@[simp] theorem utf8_nil : utf8 [] = [] := rfl

@[simp] theorem utf8_cons (c : ℕ) (s : Str) : utf8 (c :: s) = utf8Char c ++ utf8 s := rfl

theorem utf8Char_ne_nil (c : ℕ) : utf8Char c ≠ [] := by
  unfold utf8Char
  split_ifs <;> simp

/-- A smaller code point has smaller octets, whatever follows either. -/
theorem utf8Char_lt {c d : ℕ} (h : c < d) (x y : Bytes) :
    utf8Char c ++ x < utf8Char d ++ y := by
  unfold utf8Char
  split_ifs <;> simp only [List.cons_append, List.nil_append, List.cons_lt_cons_iff] <;> omega

theorem cons_le_cons {c d : ℕ} {s t : Str} : c :: s ≤ d :: t ↔ c < d ∨ (c = d ∧ s ≤ t) := by
  rw [← not_lt, ← not_lt, List.cons_lt_cons_iff]
  rcases lt_trichotomy c d with h | rfl | h <;> simp <;> omega

theorem append_lt_append_left (b : Bytes) {x y : Bytes} : b ++ x < b ++ y ↔ x < y := by
  induction b with
  | nil => rfl
  | cons a b ih => simpa [List.cons_lt_cons_iff] using ih

/-- Comparing octets is comparing code points: SQLite's order on TEXT is the order on strings. -/
theorem utf8_lt_iff {s t : Str} : utf8 s < utf8 t ↔ s < t := by
  induction s generalizing t with
  | nil =>
    cases t with
    | nil => simp
    | cons d t =>
      obtain ⟨b, bs, hb⟩ := List.exists_cons_of_ne_nil (utf8Char_ne_nil d)
      simp [hb]
  | cons c s ih =>
    cases t with
    | nil => simp
    | cons d t =>
      rcases lt_trichotomy c d with h | rfl | h
      · simp [utf8Char_lt h, List.cons_lt_cons_iff, h]
      · simp [append_lt_append_left, ih]
      · have hn : ¬ utf8 (c :: s) < utf8 (d :: t) := lt_asymm (utf8Char_lt h _ _)
        simp only [hn, List.cons_lt_cons_iff, false_iff]
        omega

theorem utf8_le_iff {s t : Str} : utf8 s ≤ utf8 t ↔ s ≤ t := by
  rw [← not_lt, ← not_lt, utf8_lt_iff]

/-- What stands before and after the first separator of a list is determined by it. -/
theorem append_separated {α : Type*} {sep : α} {xs xs' ys ys' : List α} (h : sep ∉ xs)
    (h' : sep ∉ xs') (he : xs ++ sep :: ys = xs' ++ sep :: ys') : xs = xs' ∧ ys = ys' := by
  induction xs generalizing xs' with
  | nil =>
    cases xs' with
    | nil => exact ⟨rfl, (List.cons.inj he).2⟩
    | cons x xs' => exact absurd ((List.cons.inj he).1 ▸ List.mem_cons_self) h'
  | cons x xs ih =>
    cases xs' with
    | nil => exact absurd ((List.cons.inj he).1 ▸ List.mem_cons_self) h
    | cons x' xs' =>
      obtain ⟨rfl, hrest⟩ := List.cons.inj he
      rw [List.mem_cons, not_or] at h h'
      obtain ⟨rfl, rfl⟩ := ih h.2 h'.2 hrest
      exact ⟨rfl, rfl⟩

/-! Numbers in unary, each ended by `0`. -/

def unaryText : Bytes → Str
  | [] => []
  | n :: b => List.replicate n 49 ++ 48 :: unaryText b

theorem mem_unaryText {b : Bytes} {c : ℕ} (h : c ∈ unaryText b) : c = 48 ∨ c = 49 := by
  induction b with
  | nil => cases h
  | cons n b ih =>
    rcases List.mem_append.mp h with h | h
    · exact .inr (List.eq_of_mem_replicate h)
    · rcases List.mem_cons.mp h with rfl | h
      · exact .inl rfl
      · exact ih h

theorem unaryText_injective : Function.Injective unaryText := by
  have hnot : ∀ n, 48 ∉ List.replicate n 49 := by
    intro n hmem
    cases List.eq_of_mem_replicate hmem
  intro b c h
  induction b generalizing c with
  | nil => cases c <;> simp_all [unaryText]
  | cons n b ih =>
    cases c with
    | nil => simp [unaryText] at h
    | cons m c =>
      obtain ⟨hcount, hrest⟩ := append_separated (hnot n) (hnot m) h
      obtain rfl : n = m := by simpa using congrArg List.length hcount
      rw [ih hrest]

/-- The number a most-significant-first digit list denotes. -/
def digitsValue (ds : List ℕ) : ℕ := ds.foldl (fun n d => 10 * n + d) 0

theorem foldl_digits (ds : List ℕ) (n : ℕ) :
    ds.foldl (fun n d => 10 * n + d) n = n * 10 ^ ds.length + digitsValue ds := by
  induction ds generalizing n with
  | nil => simp [digitsValue]
  | cons d ds ih =>
    have hv : digitsValue (d :: ds) = (10 * 0 + d) * 10 ^ ds.length + digitsValue ds := ih _
    rw [List.foldl_cons, ih, hv, List.length_cons]
    ring

theorem digitsValue_cons (d : ℕ) (ds : List ℕ) :
    digitsValue (d :: ds) = d * 10 ^ ds.length + digitsValue ds := by
  rw [digitsValue, List.foldl_cons, foldl_digits, Nat.mul_zero, Nat.zero_add]

theorem digitsValue_append (ds es : List ℕ) :
    digitsValue (ds ++ es) = digitsValue ds * 10 ^ es.length + digitsValue es := by
  rw [digitsValue, List.foldl_append, foldl_digits]
  rfl

theorem digitsValue_lt {ds : List ℕ} (h : ∀ d ∈ ds, d < 10) :
    digitsValue ds < 10 ^ ds.length := by
  induction ds with
  | nil => simp [digitsValue]
  | cons d ds ih =>
    have hd : d < 10 := h d (by simp)
    have hs := ih (fun e he => h e (List.mem_cons_of_mem _ he))
    rw [digitsValue_cons, List.length_cons, pow_succ]
    have hmul : (d + 1) * 10 ^ ds.length ≤ 10 * 10 ^ ds.length := Nat.mul_le_mul_right _ hd
    linarith

/-- Digit lists of one width are ordered as the numbers they denote. -/
theorem digits_lt_iff {ds es : List ℕ} (hl : ds.length = es.length)
    (hd : ∀ d ∈ ds, d < 10) (he : ∀ d ∈ es, d < 10) :
    ds < es ↔ digitsValue ds < digitsValue es := by
  induction ds generalizing es with
  | nil =>
    obtain rfl : es = [] := List.length_eq_zero_iff.mp hl.symm
    simp
  | cons d ds ih =>
    cases es with
    | nil => simp at hl
    | cons e es =>
      have hl' : ds.length = es.length := by simpa using hl
      have hds : ∀ d ∈ ds, d < 10 := fun x hx => hd x (List.mem_cons_of_mem _ hx)
      have hes : ∀ d ∈ es, d < 10 := fun x hx => he x (List.mem_cons_of_mem _ hx)
      have hvd := digitsValue_lt hds
      have hve := digitsValue_lt hes
      rw [List.cons_lt_cons_iff, ih hl' hds hes, digitsValue_cons, digitsValue_cons, hl']
      rw [hl'] at hvd
      rcases lt_trichotomy d e with h | rfl | h
      · have hmul : (d + 1) * 10 ^ es.length ≤ e * 10 ^ es.length := Nat.mul_le_mul_right _ h
        have : d * 10 ^ es.length + digitsValue ds < e * 10 ^ es.length + digitsValue es := by
          linarith
        simp [h, this]
      · simp
      · have hmul : (e + 1) * 10 ^ es.length ≤ d * 10 ^ es.length := Nat.mul_le_mul_right _ h
        have : ¬ d * 10 ^ es.length + digitsValue ds < e * 10 ^ es.length + digitsValue es := by
          linarith
        simp only [this, iff_false]
        omega

theorem digits_le_iff {ds es : List ℕ} (hl : ds.length = es.length)
    (hd : ∀ d ∈ ds, d < 10) (he : ∀ d ∈ es, d < 10) :
    ds ≤ es ↔ digitsValue ds ≤ digitsValue es := by
  rw [← not_lt, ← not_lt, digits_lt_iff hl.symm he hd]

end Gateway
