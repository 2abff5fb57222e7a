import Gateway.Foundation.JsonScan

/-! `json.loads` of octets: the encoding is detected, decoded with `surrogatepass`, then scanned. -/
namespace Gateway

/-- What `json.detect_encoding` answers. -/
inductive Encoding where
  | utf8 | utf8Sig | utf16 | utf16be | utf16le | utf32 | utf32be | utf32le
deriving DecidableEq

def detectEncoding (b : Bytes) : Encoding :=
  if [0, 0, 0xFE, 0xFF].isPrefixOf b || [0xFF, 0xFE, 0, 0].isPrefixOf b then .utf32
  else if [0xFE, 0xFF].isPrefixOf b || [0xFF, 0xFE].isPrefixOf b then .utf16
  else if [0xEF, 0xBB, 0xBF].isPrefixOf b then .utf8Sig
  else
    match b with
    | b0 :: b1 :: b2 :: b3 :: _ =>
      if b0 = 0 then (if b1 ≠ 0 then .utf16be else .utf32be)
      else if b1 = 0 then (if b2 ≠ 0 ∨ b3 ≠ 0 then .utf16le else .utf32le)
      else .utf8
    | [b0, b1] => if b0 = 0 then .utf16be else if b1 = 0 then .utf16le else .utf8
    | _ => .utf8

def isTail (b : ℕ) : Bool := 0x80 ≤ b && b < 0xC0

/-- UTF-8 with the three octets of a surrogate let through; `none` is `UnicodeDecodeError`. -/
def decodeUtf8 : Bytes → Option Str
  | [] => some []
  | a :: s =>
    if a < 0x80 then (decodeUtf8 s).map (a :: ·)
    else
      match s with
      | [] => none
      | b :: s =>
        if 0xC2 ≤ a ∧ a < 0xE0 ∧ isTail b then
          (decodeUtf8 s).map (((a - 0xC0) * 0x40 + (b - 0x80)) :: ·)
        else
          match s with
          | [] => none
          | c :: s =>
            let n := (a - 0xE0) * 0x1000 + (b - 0x80) * 0x40 + (c - 0x80)
            if 0xE0 ≤ a ∧ a < 0xF0 ∧ isTail b ∧ isTail c ∧ 0x800 ≤ n then
              (decodeUtf8 s).map (n :: ·)
            else
              match s with
              | [] => none
              | d :: s =>
                let n := (a - 0xF0) * 0x40000 + (b - 0x80) * 0x1000 + (c - 0x80) * 0x40 + (d - 0x80)
                if 0xF0 ≤ a ∧ a < 0xF5 ∧ isTail b ∧ isTail c ∧ isTail d ∧ 0x10000 ≤ n ∧
                    n < 0x110000 then
                  (decodeUtf8 s).map (n :: ·)
                else none

/-- 16-bit units; an odd octet at the end cannot be decoded. -/
def units16 (big : Bool) : Bytes → Option (List ℕ)
  | [] => some []
  | [_] => none
  | a :: b :: s => (units16 big s).map ((if big then a * 0x100 + b else b * 0x100 + a) :: ·)

/-- Surrogate pairs joined, lone surrogates passed. -/
def joinUnits16 : List ℕ → Str
  | h :: l :: us =>
    if 0xD800 ≤ h ∧ h < 0xDC00 ∧ 0xDC00 ≤ l ∧ l < 0xE000 then
      (0x10000 + (h - 0xD800) * 0x400 + (l - 0xDC00)) :: joinUnits16 us
    else h :: joinUnits16 (l :: us)
  | us => us

def decodeUtf16 (big : Bool) (b : Bytes) : Option Str := (units16 big b).map joinUnits16

def decodeUtf32 (big : Bool) : Bytes → Option Str
  | [] => some []
  | a :: b :: c :: d :: s =>
    let n := if big then ((a * 0x100 + b) * 0x100 + c) * 0x100 + d
      else ((d * 0x100 + c) * 0x100 + b) * 0x100 + a
    if n < 0x110000 then (decodeUtf32 big s).map (n :: ·) else none
  | _ => none

/-- `bytes.decode(encoding, "surrogatepass")`. -/
def decodeBytes (b : Bytes) : Encoding → Option Str
  | .utf8 => decodeUtf8 b
  | .utf8Sig => decodeUtf8 (b.drop 3)
  | .utf16 => decodeUtf16 ([0xFE, 0xFF].isPrefixOf b) (b.drop 2)
  | .utf16be => decodeUtf16 true b
  | .utf16le => decodeUtf16 false b
  | .utf32 => decodeUtf32 ([0, 0, 0xFE, 0xFF].isPrefixOf b) (b.drop 4)
  | .utf32be => decodeUtf32 true b
  | .utf32le => decodeUtf32 false b

/-- `json.loads` of octets with the given hooks. -/
def jsonLoads {α ε : Type*} (h : JsonHooks α ε) (unicodeError : ε) (depth : ℕ) (b : Bytes) :
    Except ε α :=
  match decodeBytes b (detectEncoding b) with
  | none => .error unicodeError
  | some s => JsonText.decode h depth s

theorem decodeUtf8_utf8Char {c : ℕ} (hc : c < 0x110000) (r : Bytes) :
    decodeUtf8 (utf8Char c ++ r) = (decodeUtf8 r).map (c :: ·) := by
  unfold utf8Char
  split_ifs with h1 h2 h3
  · rw [List.cons_append, List.nil_append, decodeUtf8.eq_def]
    simp only [h1, if_true]
  · have hv : (c / 0x40) * 0x40 + c % 0x40 = c := by omega
    have htail : isTail (0x80 + c % 0x40) = true := by simp [isTail]; omega
    have hlead : 0xC2 ≤ 0xC0 + c / 0x40 ∧ 0xC0 + c / 0x40 < 0xE0 := by omega
    rw [List.cons_append, List.cons_append, List.nil_append, decodeUtf8.eq_def]
    dsimp only
    rw [if_neg (by omega), if_pos ⟨hlead.1, hlead.2, htail⟩]
    simp only [Nat.add_sub_cancel_left, hv]
  · have hv : (c / 0x1000) * 0x1000 + (c / 0x40 % 0x40) * 0x40 + c % 0x40 = c := by omega
    have ht1 : isTail (0x80 + c / 0x40 % 0x40) = true := by simp [isTail]; omega
    have ht2 : isTail (0x80 + c % 0x40) = true := by simp [isTail]; omega
    have hlead : 0xE0 ≤ 0xE0 + c / 0x1000 ∧ 0xE0 + c / 0x1000 < 0xF0 := by omega
    rw [List.cons_append, List.cons_append, List.cons_append, List.nil_append, decodeUtf8.eq_def]
    simp only [Nat.add_sub_cancel_left, hv]
    rw [if_neg (by omega), if_neg (by omega), if_pos ⟨hlead.1, hlead.2, ht1, ht2, by omega⟩]
  · have hv : (c / 0x40000) * 0x40000 + (c / 0x1000 % 0x40) * 0x1000 + (c / 0x40 % 0x40) * 0x40 +
        c % 0x40 = c := by omega
    have ht1 : isTail (0x80 + c / 0x1000 % 0x40) = true := by simp [isTail]; omega
    have ht2 : isTail (0x80 + c / 0x40 % 0x40) = true := by simp [isTail]; omega
    have ht3 : isTail (0x80 + c % 0x40) = true := by simp [isTail]; omega
    have hlead : 0xF0 ≤ 0xF0 + c / 0x40000 ∧ 0xF0 + c / 0x40000 < 0xF5 := by omega
    rw [List.cons_append, List.cons_append, List.cons_append, List.cons_append, List.nil_append,
      decodeUtf8.eq_def]
    simp only [Nat.add_sub_cancel_left, hv]
    rw [if_neg (by omega), if_neg (by omega), if_neg (by omega),
      if_pos ⟨hlead.1, hlead.2, ht1, ht2, ht3, by omega, hc⟩]

/-- Decoding undoes encoding, for every string of code points. -/
theorem decodeUtf8_utf8 {s : Str} (hs : ∀ c ∈ s, c < 0x110000) : decodeUtf8 (utf8 s) = some s := by
  induction s with
  | nil => rfl
  | cons c s ih =>
    rw [utf8_cons, decodeUtf8_utf8Char (hs c (by simp)),
      ih (fun d hd => hs d (List.mem_cons_of_mem _ hd))]
    rfl

theorem utf8_injective {s t : Str} (h : utf8 s = utf8 t) : s = t :=
  le_antisymm (utf8_le_iff.mp h.le) (utf8_le_iff.mp h.ge)

theorem utf8Char_ne_zero {c : ℕ} (hc : c ≠ 0) : ∀ b ∈ utf8Char c, b ≠ 0 := by
  intro b hb
  unfold utf8Char at hb
  split_ifs at hb <;> simp at hb <;> omega

/-- A text that starts with an ASCII character and holds no NUL is detected as UTF-8. -/
theorem detectEncoding_utf8 {c : ℕ} {s : Str} (hc : 0 < c ∧ c < 0x80) (hs : ∀ d ∈ s, d ≠ 0) :
    detectEncoding (utf8 (c :: s)) = .utf8 := by
  have hz : ∀ b ∈ utf8 s, b ≠ 0 := by
    intro b hb
    obtain ⟨d, hd, hbd⟩ := List.mem_flatMap.mp hb
    exact utf8Char_ne_zero (hs d hd) b hbd
  have hcons : utf8 (c :: s) = c :: utf8 s := by simp [utf8Char, hc.2]
  rw [hcons]
  generalize utf8 s = t at hz
  have hne : ∀ x : ℕ, (x = 0 ∨ 0x80 ≤ x) → (x == c) = false := by
    intro x hx
    simp only [beq_eq_false_iff_ne, ne_eq]
    omega
  have hc0 : c ≠ 0 := by omega
  unfold detectEncoding
  simp only [List.isPrefixOf, hne 0 (.inl rfl), hne 0xFF (.inr (by norm_num)),
    hne 0xFE (.inr (by norm_num)), hne 0xEF (.inr (by norm_num)), Bool.false_and, Bool.or_self,
    Bool.false_eq_true, if_false]
  split
  · rename_i heq
    obtain ⟨rfl, rfl⟩ := List.cons.inj heq
    simp [hc0, hz _ (List.mem_cons_self)]
  · rename_i heq
    obtain ⟨rfl, rfl⟩ := List.cons.inj heq
    simp [hc0, hz _ (List.mem_cons_self)]
  · rfl

/-- Loading the UTF-8 octets of a rendered container is evaluating the document. -/
theorem jsonLoads_render {α ε : Type*} {h : JsonHooks α ε} {unicodeError : ε} {t : JsonText}
    {c : ℕ} {s : Str} {depth : ℕ} (hwf : t.WellFormed) (hd : t.depth ≤ depth)
    (hcs : t.render = c :: s) (hc : 0 < c ∧ c < 0x80) (hs : ∀ d ∈ s, d ≠ 0 ∧ d < 0x110000) :
    jsonLoads h unicodeError depth (utf8 t.render) = t.eval h := by
  have hlt : ∀ d ∈ t.render, d < 0x110000 := by
    intro d hd
    rw [hcs] at hd
    rcases List.mem_cons.mp hd with rfl | hd
    · omega
    · exact (hs d hd).2
  have henc : detectEncoding (utf8 t.render) = .utf8 := by
    rw [hcs]
    exact detectEncoding_utf8 hc (fun d hd => (hs d hd).1)
  rw [jsonLoads, henc]
  simp only [decodeBytes, decodeUtf8_utf8 hlt]
  exact JsonText.decode_render hwf hd

end Gateway
