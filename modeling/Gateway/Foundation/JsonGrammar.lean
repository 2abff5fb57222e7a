import Gateway.Foundation.JsonText

/-! The JSON grammar as a relation between a document, its text and the text left after it. -/
namespace Gateway.JsonText

/-- Optional whitespace. -/
inductive Spaces : Str → Str → Prop
  | nil (s : Str) : Spaces s s
  | cons {c : ℕ} {s r : Str} (hc : isSpace c = true) (hs : Spaces s r) : Spaces (c :: s) r

inductive Digits : List ℕ → Str → Str → Prop
  | nil (s : Str) : Digits [] s s
  | cons {c : ℕ} {ds : List ℕ} {s r : Str} (hc : isDigit c = true) (hs : Digits ds s r) :
      Digits ((c - 48) :: ds) (c :: s) r

/-- `[ minus ]`. -/
inductive Sign : Bool → Str → Str → Prop
  | absent (s : Str) : Sign false s s
  | minus (s : Str) : Sign true (45 :: s) s

/-- `[ frac ]`. -/
inductive Fraction : List ℕ → Str → Str → Prop
  | absent (s : Str) : Fraction [] s s
  | present {ds : List ℕ} {s r : Str} (hne : ds ≠ []) (hs : Digits ds s r) :
      Fraction ds (46 :: s) r

/-- `[ minus / plus ]`. -/
inductive ExponentSign : Bool → Str → Str → Prop
  | absent (s : Str) : ExponentSign false s s
  | plus (s : Str) : ExponentSign false (43 :: s) s
  | minus (s : Str) : ExponentSign true (45 :: s) s

/-- `[ exp ]`. -/
inductive Exponent : Option (Bool × List ℕ) → Str → Str → Prop
  | absent (s : Str) : Exponent none s s
  | present {c : ℕ} {negative : Bool} {ds : List ℕ} {s t r : Str} (hc : c = 101 ∨ c = 69)
      (hsign : ExponentSign negative s t) (hne : ds ≠ []) (hs : Digits ds t r) :
      Exponent (some (negative, ds)) (c :: s) r

/-- `[ minus ] int [ frac ] [ exp ]`, the integer without a leading zero. -/
inductive Number : NumberToken → Str → Str → Prop
  | mk {t : NumberToken} {s a b c r : Str} (hsign : Sign t.negative s a)
      (hinteger : Digits t.integer a b) (hne : t.integer ≠ [])
      (hzero : t.integer.head? = some 0 → t.integer = [0]) (hfraction : Fraction t.fraction b c)
      (hexponent : Exponent t.exponent c r) : Number t s r

/-- The characters of a string and its closing quote; each unit with whether `\u` wrote it. -/
inductive Units : List (Bool × ℕ) → Str → Str → Prop
  | close (s : Str) : Units [] (34 :: s) s
  | unicode {a b c d a' b' c' d' : ℕ} {us : List (Bool × ℕ)} {s r : Str}
      (ha : hexValue a = some a') (hb : hexValue b = some b') (hc : hexValue c = some c')
      (hd : hexValue d = some d') (hs : Units us s r) :
      Units ((true, ((a' * 16 + b') * 16 + c') * 16 + d') :: us) (92 :: 117 :: a :: b :: c :: d :: s) r
  | escape {e c : ℕ} {us : List (Bool × ℕ)} {s r : Str} (he : simpleEscape e = some c)
      (hs : Units us s r) : Units ((false, c) :: us) (92 :: e :: s) r
  | unescaped {c : ℕ} {us : List (Bool × ℕ)} {s r : Str} (hc : 32 ≤ c ∧ c ≠ 34 ∧ c ≠ 92)
      (hs : Units us s r) : Units ((false, c) :: us) (c :: s) r

mutual

inductive Value : JsonText → Str → Str → Prop
  | null (s : Str) : Value .null (str "null" ++ s) s
  | true (s : Str) : Value (.bool true) (str "true" ++ s) s
  | false (s : Str) : Value (.bool false) (str "false" ++ s) s
  | number {t : NumberToken} {s r : Str} (h : Number t s r) : Value (.number t) s r
  | string {us : List (Bool × ℕ)} {s r : Str} (h : Units us s r) :
      Value (.string (joinSurrogates us)) (34 :: s) r
  | emptyArray {s r : Str} (h : Spaces s (93 :: r)) : Value (.array []) (91 :: s) r
  | array {us : List JsonText} {s t r : Str} (hs : Spaces s t) (h : Items us t r) :
      Value (.array us) (91 :: s) r
  | emptyObject {s r : Str} (h : Spaces s (125 :: r)) : Value (.object []) (123 :: s) r
  | object {ms : List (Str × JsonText)} {s t r : Str} (hs : Spaces s t) (h : Members ms t r) :
      Value (.object ms) (123 :: s) r

/-- The items of an array and its closing bracket. -/
inductive Items : List JsonText → Str → Str → Prop
  | last {u : JsonText} {s a r : Str} (hu : Value u s a) (hclose : Spaces a (93 :: r)) :
      Items [u] s r
  | more {u : JsonText} {us : List JsonText} {s a b c r : Str} (hu : Value u s a)
      (hcomma : Spaces a (44 :: b)) (hs : Spaces b c) (hus : Items us c r) : Items (u :: us) s r

/-- The members of an object and its closing brace. -/
inductive Members : List (Str × JsonText) → Str → Str → Prop
  | last {ks : List (Bool × ℕ)} {u : JsonText} {s a b c d r : Str} (hk : Units ks s a)
      (hcolon : Spaces a (58 :: b)) (hs : Spaces b c) (hu : Value u c d)
      (hclose : Spaces d (125 :: r)) : Members [(joinSurrogates ks, u)] (34 :: s) r
  | more {ks : List (Bool × ℕ)} {u : JsonText} {ms : List (Str × JsonText)} {s a b c d e f r : Str}
      (hk : Units ks s a) (hcolon : Spaces a (58 :: b)) (hs : Spaces b c) (hu : Value u c d)
      (hcomma : Spaces d (44 :: e)) (hs' : Spaces e f) (hms : Members ms f r) :
      Members ((joinSurrogates ks, u) :: ms) (34 :: s) r

end

/-- `JSON-text = ws value ws`. -/
def Denotes (s : Str) (u : JsonText) : Prop := ∃ a r, Spaces s a ∧ Value u a r ∧ Spaces r []

/-! The scanner reads nothing else. -/

theorem spaces_skipSpace (s : Str) : Spaces s (skipSpace s) := by
  induction s with
  | nil => exact .nil []
  | cons c s ih =>
    rw [skipSpace]
    split_ifs with hc
    · exact .cons hc ih
    · exact .nil _

theorem digits_takeDigits (s : Str) : Digits (takeDigits s).1 s (takeDigits s).2 := by
  induction s with
  | nil => exact .nil []
  | cons c s ih =>
    rw [takeDigits]
    split_ifs with hc
    · exact .cons hc ih
    · exact .nil _

theorem Digits.lt {ds : List ℕ} {s r : Str} (h : Digits ds s r) : ∀ d ∈ ds, d < 10 := by
  induction h with
  | nil => simp
  | cons hc _ ih =>
    simp only [isDigit, Bool.and_eq_true, decide_eq_true_eq] at hc
    exact List.forall_mem_cons.mpr ⟨by omega, ih⟩

theorem sign_scanSign (s : Str) : Sign (scanSign s).1 s (scanSign s).2 := by
  unfold scanSign
  split
  · exact .minus _
  · exact .absent _

theorem scanInteger_sound {s r : Str} {ds : List ℕ} (h : scanInteger s = some (ds, r)) :
    Digits ds s r ∧ ds ≠ [] ∧ (ds.head? = some 0 → ds = [0]) := by
  unfold scanInteger at h
  split at h
  · obtain ⟨rfl, rfl⟩ := Prod.mk.inj (Option.some.inj h)
    exact ⟨.cons (c := 48) (by decide) (.nil _), by simp, fun _ => rfl⟩
  · rename_i c t hne
    split_ifs at h with hc
    have htake : takeDigits (c :: t) = (ds, r) := Option.some.inj h
    have hdigits := digits_takeDigits (c :: t)
    rw [htake] at hdigits
    rw [takeDigits, if_pos hc] at htake
    obtain ⟨rfl, -⟩ := Prod.mk.inj htake
    simp only [isDigit, Bool.and_eq_true, decide_eq_true_eq] at hc
    refine ⟨hdigits, by simp, fun hzero => ?_⟩
    have : c - 48 = 0 := by simpa using hzero
    exact (hne (by omega)).elim
  · cases h

theorem fraction_scanFraction (s : Str) : Fraction (scanFraction s).1 s (scanFraction s).2 := by
  unfold scanFraction
  split
  · simp only
    split_ifs with hne
    · exact .absent _
    · exact .present (by simpa using hne) (digits_takeDigits _)
  · exact .absent _

theorem exponentSign_scanExponentSign (s : Str) :
    ExponentSign (scanExponentSign s).1 s (scanExponentSign s).2 := by
  unfold scanExponentSign
  split
  · exact .minus _
  · exact .plus _
  · exact .absent _

theorem exponent_scanExponent (s : Str) : Exponent (scanExponent s).1 s (scanExponent s).2 := by
  unfold scanExponent
  split
  · simp only
    split_ifs with hc hne
    · exact .absent _
    · exact .present (by simpa using hc) (exponentSign_scanExponentSign _) (by simpa using hne) (digits_takeDigits _)
    · exact .absent _
  · exact .absent _

theorem matchNumber_sound {s r : Str} {t : NumberToken} (h : matchNumber s = some (t, r)) :
    Number t s r := by
  simp only [matchNumber, Option.bind_eq_bind, Option.bind_eq_some_iff, Option.pure_def,
    Option.some.injEq, Prod.mk.injEq] at h
  obtain ⟨⟨ds, a⟩, hinteger, rfl, rfl⟩ := h
  obtain ⟨hdigits, hne, hzero⟩ := scanInteger_sound hinteger
  exact .mk (sign_scanSign s) hdigits hne hzero (fraction_scanFraction a) (exponent_scanExponent _)

theorem Number.valid {t : NumberToken} {s r : Str} (h : Number t s r) : t.Valid := by
  obtain ⟨-, hinteger, hne, hzero, hfraction, hexponent⟩ := h
  refine ⟨hne, hinteger.lt, hzero, ?_, ?_, ?_⟩
  · generalize t.fraction = x at hfraction
    cases hfraction with
    | absent => simp
    | present _ hs => exact hs.lt
  · intro p hp
    generalize t.exponent = x at hexponent hp
    cases hexponent with
    | absent => cases hp
    | present _ _ hne _ => exact Option.some.inj hp ▸ hne
  · intro p hp
    generalize t.exponent = x at hexponent hp
    cases hexponent with
    | absent => cases hp
    | present _ _ _ hs => exact Option.some.inj hp ▸ hs.lt

theorem scanUnits_sound {s r : Str} {us : List (Bool × ℕ)} (h : scanUnits s = some (us, r)) :
    Units us s r := by
  induction s using scanUnits.induct generalizing us with
  | case1 => cases h
  | case2 s =>
    obtain ⟨rfl, rfl⟩ := Prod.mk.inj (Option.some.inj h)
    exact .close _
  | case3 a b c d s ih =>
    simp only [scanUnits, Option.bind_eq_bind, Option.bind_eq_some_iff, Option.pure_def,
      Option.some.injEq, Prod.mk.injEq] at h
    obtain ⟨a', ha, b', hb, c', hc, d', hd, ⟨us', r'⟩, hs, rfl, rfl⟩ := h
    exact .unicode ha hb hc hd (ih hs)
  | case4 e s hne ih =>
    rw [scanUnits.eq_4 e s hne] at h
    simp only [Option.bind_eq_bind, Option.bind_eq_some_iff, Option.pure_def, Option.some.injEq,
      Prod.mk.injEq] at h
    obtain ⟨c, he, ⟨us', r'⟩, hs, rfl, rfl⟩ := h
    exact .escape he (ih hs)
  | case5 c s hquote hunicode hescape hbad =>
    rw [scanUnits.eq_5 c s hquote hunicode hescape, if_pos hbad] at h
    cases h
  | case6 c s hquote hunicode hescape hgood ih =>
    rw [scanUnits.eq_5 c s hquote hunicode hescape, if_neg hgood] at h
    simp only [Option.bind_eq_bind, Option.bind_eq_some_iff, Option.pure_def, Option.some.injEq,
      Prod.mk.injEq] at h
    obtain ⟨⟨us', r'⟩, hs, rfl, rfl⟩ := h
    exact .unescaped ⟨by omega, fun hc => hquote hc, by omega⟩ (ih hs)

section Scanner

variable {α ε : Type*} {h : JsonHooks α ε}

theorem isPrefixOf_append {p s : Str} {n : ℕ} (hn : p.length = n) (hp : p.isPrefixOf s = true) :
    p ++ s.drop n = s := by
  obtain ⟨r, rfl⟩ := List.isPrefixOf_iff_prefix.mp hp
  simp [← hn]

/-- What is read is a document of the grammar, evaluated. -/
def Sound (h : JsonHooks α ε) (scan : Str → Except ε (α × Str)) : Prop :=
  ∀ s v r, scan s = .ok (v, r) → ∃ u, Value u s r ∧ eval h u = .ok v

theorem scanScalar_sound (hconstant : ∀ s v, h.constant s ≠ .ok v) : Sound h (scanScalar h) := by
  intro s v r hs
  have hreject : ∀ (c : Str) (t : Str), (h.constant c).map (·, t) ≠ .ok (v, r) := by
    intro c t hc
    obtain ⟨w, hw, -⟩ := map_eq_ok.mp hc
    exact hconstant _ _ hw
  unfold scanScalar at hs
  split at hs
  · rename_i t
    split at hs
    · rename_i w r' hstring
      obtain ⟨rfl, rfl⟩ := Prod.mk.inj (Except.ok.inj hs)
      simp only [scanString, Option.bind_eq_bind, Option.bind_eq_some_iff, Option.pure_def,
        Option.some.injEq, Prod.mk.injEq] at hstring
      obtain ⟨⟨us, r''⟩, hunits, rfl, rfl⟩ := hstring
      exact ⟨_, .string (scanUnits_sound hunits), rfl⟩
    · cases hs
  · split_ifs at hs with hnull htrue hfalse hnan hinf hninf
    · obtain ⟨rfl, rfl⟩ := Prod.mk.inj (Except.ok.inj hs)
      refine ⟨.null, ?_, rfl⟩
      have := Value.null (s.drop 4)
      rwa [isPrefixOf_append (by decide) hnull] at this
    · obtain ⟨rfl, rfl⟩ := Prod.mk.inj (Except.ok.inj hs)
      refine ⟨.bool true, ?_, rfl⟩
      have := Value.true (s.drop 4)
      rwa [isPrefixOf_append (by decide) htrue] at this
    · obtain ⟨rfl, rfl⟩ := Prod.mk.inj (Except.ok.inj hs)
      refine ⟨.bool false, ?_, rfl⟩
      have := Value.false (s.drop 5)
      rwa [isPrefixOf_append (by decide) hfalse] at this
    · exact (hreject _ _ hs).elim
    · exact (hreject _ _ hs).elim
    · exact (hreject _ _ hs).elim
    · split at hs
      · rename_i t r' hnumber
        obtain ⟨w, hw, he⟩ := map_eq_ok.mp hs
        obtain ⟨rfl, rfl⟩ := Prod.mk.inj he
        exact ⟨_, .number (matchNumber_sound hnumber), hw⟩
      · cases hs

section Containers

variable {scan : Str → Except ε (α × Str)} (hscan : Sound h scan)
include hscan

theorem scanItems_sound {n : ℕ} {s r : Str} {vs : List α} (hs : scanItems h scan n s = .ok (vs, r)) :
    ∃ us, Items us s r ∧ evalItems h us = .ok vs := by
  induction n generalizing s r vs with
  | zero => cases hs
  | succ n ih =>
    obtain ⟨⟨v, a⟩, hv, hrest⟩ := bind_eq_ok.mp hs
    obtain ⟨u, hu, heval⟩ := hscan _ _ _ hv
    have hspaces := spaces_skipSpace a
    simp only at hrest
    split at hrest
    · rename_i r' hskip
      obtain ⟨rfl, rfl⟩ := Prod.mk.inj (Except.ok.inj hrest)
      rw [hskip] at hspaces
      exact ⟨[u], .last hu hspaces, by simp [evalItems, heval, bind, Except.bind, pure, Except.pure]⟩
    · rename_i b hskip
      obtain ⟨⟨vs', r'⟩, hvs, he⟩ := bind_eq_ok.mp hrest
      obtain ⟨rfl, rfl⟩ := Prod.mk.inj (Except.ok.inj he)
      obtain ⟨us, hus, hevals⟩ := ih hvs
      rw [hskip] at hspaces
      exact ⟨u :: us, .more hu hspaces (spaces_skipSpace b) hus,
        by simp [evalItems, heval, hevals, bind, Except.bind, pure, Except.pure]⟩
    · cases hrest

theorem scanArray_sound {s r : Str} {v : α} (hs : scanArray h scan s = .ok (v, r)) :
    ∃ u, Value u (91 :: s) r ∧ eval h u = .ok v := by
  have hspaces := spaces_skipSpace s
  unfold scanArray at hs
  split at hs
  · rename_i r' hskip
    obtain ⟨rfl, rfl⟩ := Prod.mk.inj (Except.ok.inj hs)
    rw [hskip] at hspaces
    exact ⟨.array [], .emptyArray hspaces, rfl⟩
  · obtain ⟨⟨vs, r'⟩, hvs, he⟩ := bind_eq_ok.mp hs
    obtain ⟨rfl, rfl⟩ := Prod.mk.inj (Except.ok.inj he)
    obtain ⟨us, hus, hevals⟩ := scanItems_sound hscan hvs
    exact ⟨.array us, .array hspaces hus,
      by simp [eval, hevals, bind, Except.bind, pure, Except.pure]⟩

theorem scanMembers_sound {n : ℕ} {s r : Str} {kvs : List (Str × α)}
    (hs : scanMembers h scan n s = .ok (kvs, r)) :
    ∃ ms, Members ms s r ∧ evalMembers h ms = .ok kvs := by
  induction n generalizing s r kvs with
  | zero => cases hs
  | succ n ih =>
    unfold scanMembers at hs
    split at hs
    · cases hs
    · rename_i t hn
      obtain rfl := Nat.succ.inj hn
      split at hs
      · cases hs
      · rename_i k a hstring
        simp only [scanString, Option.bind_eq_bind, Option.bind_eq_some_iff, Option.pure_def,
          Option.some.injEq, Prod.mk.injEq] at hstring
        obtain ⟨⟨ks, a'⟩, hunits, rfl, rfl⟩ := hstring
        have hkey := scanUnits_sound hunits
        have hcolon := spaces_skipSpace a'
        split at hs
        · rename_i b hskip
          rw [hskip] at hcolon
          obtain ⟨⟨v, d⟩, hv, hrest⟩ := bind_eq_ok.mp hs
          obtain ⟨u, hu, heval⟩ := hscan _ _ _ hv
          have hspaces := spaces_skipSpace d
          simp only at hrest
          split at hrest
          · rename_i r' hskip'
            obtain ⟨rfl, rfl⟩ := Prod.mk.inj (Except.ok.inj hrest)
            rw [hskip'] at hspaces
            exact ⟨[(joinSurrogates ks, u)], .last hkey hcolon (spaces_skipSpace b) hu hspaces,
              by simp [evalMembers, heval, bind, Except.bind, pure, Except.pure]⟩
          · rename_i e hskip'
            obtain ⟨⟨kvs', r'⟩, hkvs, he⟩ := bind_eq_ok.mp hrest
            obtain ⟨rfl, rfl⟩ := Prod.mk.inj (Except.ok.inj he)
            obtain ⟨ms, hms, hevals⟩ := ih hkvs
            rw [hskip'] at hspaces
            exact ⟨(joinSurrogates ks, u) :: ms,
              .more hkey hcolon (spaces_skipSpace b) hu hspaces (spaces_skipSpace e) hms,
              by simp [evalMembers, heval, hevals, bind, Except.bind, pure, Except.pure]⟩
          · cases hrest
        · cases hs
    · cases hs

theorem scanObject_sound {s r : Str} {v : α} (hs : scanObject h scan s = .ok (v, r)) :
    ∃ u, Value u (123 :: s) r ∧ eval h u = .ok v := by
  have hspaces := spaces_skipSpace s
  have hfinish : ∀ {ms : List (Str × JsonText)} {kvs : List (Str × α)} {r' : Str},
      Value (.object ms) (123 :: s) r' → evalMembers h ms = .ok kvs →
      ((h.objectPairs kvs).bind fun v => .ok (v, r')) = .ok (v, r) →
      ∃ u, Value u (123 :: s) r ∧ eval h u = .ok v := by
    intro ms kvs r' hms hkvs hrest
    obtain ⟨w, hw, he⟩ := bind_eq_ok.mp hrest
    obtain ⟨rfl, rfl⟩ := Prod.mk.inj (Except.ok.inj he)
    exact ⟨_, hms, by simp [eval, hkvs, hw, bind, Except.bind]⟩
  unfold scanObject at hs
  simp only at hs
  split at hs
  · rename_i r' hskip
    rw [hskip] at hspaces
    exact hfinish (.emptyObject hspaces) rfl hs
  · obtain ⟨⟨kvs, r'⟩, hkvs, hrest⟩ := bind_eq_ok.mp hs
    obtain ⟨ms, hms, hevals⟩ := scanMembers_sound hscan hkvs
    exact hfinish (.object hspaces hms) hevals hrest

end Containers

theorem scanOnce_sound (hconstant : ∀ s v, h.constant s ≠ .ok v) (n : ℕ) :
    Sound h (scanOnce h n) := by
  induction n with
  | zero =>
    intro s v r hs
    unfold scanOnce at hs
    split at hs
    · cases hs
    · cases hs
    · exact scanScalar_sound hconstant _ _ _ hs
  | succ n ih =>
    intro s v r hs
    unfold scanOnce at hs
    split at hs
    · exact scanArray_sound ih hs
    · exact scanObject_sound ih hs
    · exact scanScalar_sound hconstant _ _ _ hs

/-- Where no constant outside the grammar is let through, what decodes is a JSON text. -/
theorem decode_sound (hconstant : ∀ s v, h.constant s ≠ .ok v) {n : ℕ} {s : Str} {v : α}
    (hs : decode h n s = .ok v) : ∃ u, Denotes s u ∧ eval h u = .ok v := by
  obtain ⟨⟨w, r⟩, hw, hrest⟩ := bind_eq_ok.mp hs
  obtain ⟨u, hu, heval⟩ := scanOnce_sound hconstant n _ _ _ hw
  simp only at hrest
  split_ifs at hrest with hend
  obtain rfl := Except.ok.inj hrest
  have htrailing := spaces_skipSpace r
  rw [hend] at htrailing
  exact ⟨u, ⟨_, r, spaces_skipSpace s, hu, htrailing⟩, heval⟩

end Scanner

/-! A text of the grammar holds no NUL and starts with an ASCII character. -/

theorem Spaces.nul {s r : Str} (h : Spaces s r) (hs : 0 ∈ s) : 0 ∈ r := by
  induction h with
  | nil s => exact hs
  | cons hc _ ih =>
    rcases List.mem_cons.mp hs with rfl | hs
    · exact absurd hc (by decide)
    · exact ih hs

theorem Digits.nul {ds : List ℕ} {s r : Str} (h : Digits ds s r) (hs : 0 ∈ s) : 0 ∈ r := by
  induction h with
  | nil s => exact hs
  | cons hc _ ih =>
    rcases List.mem_cons.mp hs with rfl | hs
    · exact absurd hc (by decide)
    · exact ih hs

theorem Number.nul {t : NumberToken} {s r : Str} (h : Number t s r) (hs : 0 ∈ s) : 0 ∈ r := by
  obtain ⟨hsign, hinteger, -, -, hfraction, hexponent⟩ := h
  rename_i a b c
  have ha : 0 ∈ a := by
    generalize t.negative = x at hsign
    cases hsign <;> simpa using hs
  have hb : 0 ∈ b := hinteger.nul ha
  have hc : 0 ∈ c := by
    generalize t.fraction = x at hfraction
    cases hfraction with
    | absent => exact hb
    | present _ hdigits => exact hdigits.nul (by simpa using hb)
  generalize t.exponent = x at hexponent
  cases hexponent with
  | absent => exact hc
  | present hmark hsign _ hdigits =>
    refine hdigits.nul ?_
    rcases hmark with rfl | rfl <;> cases hsign <;> simpa using hc

theorem Units.nul {us : List (Bool × ℕ)} {s r : Str} (h : Units us s r) (hs : 0 ∈ s) : 0 ∈ r := by
  have hhex : ∀ {c : ℕ}, hexValue 0 ≠ some c := by simp [hexValue, isDigit]
  induction h with
  | close s => simpa using hs
  | unicode ha hb hc hd _ ih =>
    refine ih ?_
    simp only [List.mem_cons] at hs
    rcases hs with h | h | rfl | rfl | rfl | rfl | hs
    · cases h
    · cases h
    · exact absurd ha hhex
    · exact absurd hb hhex
    · exact absurd hc hhex
    · exact absurd hd hhex
    · exact hs
  | escape he _ ih =>
    refine ih ?_
    simp only [List.mem_cons] at hs
    rcases hs with h | rfl | hs
    · cases h
    · simp [simpleEscape] at he
    · exact hs
  | unescaped hc _ ih =>
    rcases List.mem_cons.mp hs with rfl | hs
    · omega
    · exact ih hs

mutual

theorem Value.nul {u : JsonText} {s r : Str} : Value u s r → 0 ∈ s → 0 ∈ r
  | .null _, hs => by simpa [str] using hs
  | .true _, hs => by simpa [str] using hs
  | .false _, hs => by simpa [str] using hs
  | .number h, hs => h.nul hs
  | .string h, hs => h.nul (by simpa using hs)
  | .emptyArray h, hs => by simpa using h.nul (by simpa using hs)
  | .array hspaces h, hs => h.nul (hspaces.nul (by simpa using hs))
  | .emptyObject h, hs => by simpa using h.nul (by simpa using hs)
  | .object hspaces h, hs => h.nul (hspaces.nul (by simpa using hs))

theorem Items.nul {us : List JsonText} {s r : Str} : Items us s r → 0 ∈ s → 0 ∈ r
  | .last hu hclose, hs => by simpa using hclose.nul (hu.nul hs)
  | .more hu hcomma hspaces hus, hs =>
    hus.nul (hspaces.nul (by simpa using hcomma.nul (hu.nul hs)))

theorem Members.nul {ms : List (Str × JsonText)} {s r : Str} : Members ms s r → 0 ∈ s → 0 ∈ r
  | .last hk hcolon hspaces hu hclose, hs => by
    have hb := hcolon.nul (hk.nul (by simpa using hs))
    simpa using hclose.nul (hu.nul (hspaces.nul (by simpa using hb)))
  | .more hk hcolon hspaces hu hcomma hspaces' hms, hs => by
    have hb := hcolon.nul (hk.nul (by simpa using hs))
    have he := hcomma.nul (hu.nul (hspaces.nul (by simpa using hb)))
    exact hms.nul (hspaces'.nul (by simpa using he))

end

theorem Denotes.nul {s : Str} {u : JsonText} (h : Denotes s u) : 0 ∉ s := by
  obtain ⟨a, r, hleading, hvalue, htrailing⟩ := h
  intro hs
  simpa using htrailing.nul (hvalue.nul (hleading.nul hs))

/-- A value starts with an ASCII character. -/
theorem Value.head {u : JsonText} {s r : Str} (h : Value u s r) :
    ∃ c t, s = c :: t ∧ 0 < c ∧ c < 0x80 := by
  cases h with
  | null s => exact ⟨110, _, rfl, by decide, by decide⟩
  | true s => exact ⟨116, _, rfl, by decide, by decide⟩
  | false s => exact ⟨102, _, rfl, by decide, by decide⟩
  | number h =>
    obtain ⟨hsign, hinteger, hne, -, -, -⟩ := h
    rename_i t _ _ _
    generalize t.negative = x at hsign
    generalize t.integer = ds at hinteger hne
    cases hsign with
    | minus s => exact ⟨45, _, rfl, by decide, by decide⟩
    | absent s =>
      cases hinteger with
      | nil s => exact absurd rfl hne
      | cons hc _ =>
        rename_i c _ _ _
        simp only [isDigit, Bool.and_eq_true, decide_eq_true_eq] at hc
        exact ⟨c, _, rfl, by omega, by omega⟩
  | string h => exact ⟨34, _, rfl, by decide, by decide⟩
  | emptyArray h => exact ⟨91, _, rfl, by decide, by decide⟩
  | array hs h => exact ⟨91, _, rfl, by decide, by decide⟩
  | emptyObject h => exact ⟨123, _, rfl, by decide, by decide⟩
  | object hs h => exact ⟨123, _, rfl, by decide, by decide⟩

theorem Denotes.head {s : Str} {u : JsonText} (h : Denotes s u) :
    ∃ c t, s = c :: t ∧ 0 < c ∧ c < 0x80 := by
  obtain ⟨a, r, hleading, hvalue, -⟩ := h
  cases hleading with
  | nil => exact hvalue.head
  | cons hc _ =>
    rename_i c t _
    simp only [isSpace, Bool.or_eq_true, decide_eq_true_eq] at hc
    exact ⟨c, t, rfl, by omega, by omega⟩

/-! Names. -/

mutual

/-- No object of the document repeats a member name, at any depth. -/
def UniqueNames : JsonText → Prop
  | .array items => UniqueNamesItems items
  | .object members => (members.map Prod.fst).Nodup ∧ UniqueNamesMembers members
  | _ => True

def UniqueNamesItems : List JsonText → Prop
  | [] => True
  | t :: ts => UniqueNames t ∧ UniqueNamesItems ts

def UniqueNamesMembers : List (Str × JsonText) → Prop
  | [] => True
  | (_, t) :: ms => UniqueNames t ∧ UniqueNamesMembers ms

end

section Names

variable {α ε : Type*} {h : JsonHooks α ε}

theorem evalMembers_names {ms : List (Str × JsonText)} {kvs : List (Str × α)}
    (he : evalMembers h ms = .ok kvs) : kvs.map Prod.fst = ms.map Prod.fst := by
  induction ms generalizing kvs with
  | nil =>
    obtain rfl := Except.ok.inj he
    rfl
  | cons m ms ih =>
    obtain ⟨v, -, hrest⟩ := bind_eq_ok.mp he
    obtain ⟨kvs', hkvs, hdone⟩ := bind_eq_ok.mp hrest
    obtain rfl := Except.ok.inj hdone
    simp [ih hkvs]

/-- Where the hook for objects refuses a repeated name, what evaluates repeats none. -/
theorem uniqueNames_of_eval
    (hpairs : ∀ kvs v, h.objectPairs kvs = .ok v → (kvs.map Prod.fst).Nodup) (t : JsonText) {v : α}
    (he : eval h t = .ok v) : UniqueNames t := by
  induction t using induction generalizing v with
  | array items ih =>
    obtain ⟨vs, hvs, -⟩ := bind_eq_ok.mp he
    rw [UniqueNames]
    clear he
    induction items generalizing vs with
    | nil => trivial
    | cons t ts ihs =>
      obtain ⟨w, hw, hrest⟩ := bind_eq_ok.mp hvs
      obtain ⟨vs', hvs', -⟩ := bind_eq_ok.mp hrest
      rw [List.forall_mem_cons] at ih
      exact ⟨ih.1 hw, ihs ih.2 _ hvs'⟩
  | object members ih =>
    obtain ⟨kvs, hkvs, hdone⟩ := bind_eq_ok.mp he
    rw [UniqueNames]
    refine ⟨evalMembers_names hkvs ▸ hpairs _ _ hdone, ?_⟩
    clear he hdone
    induction members generalizing kvs with
    | nil => trivial
    | cons m ms ihs =>
      obtain ⟨w, hw, hrest⟩ := bind_eq_ok.mp hkvs
      obtain ⟨kvs', hkvs', -⟩ := bind_eq_ok.mp hrest
      rw [List.forall_mem_cons] at ih
      exact ⟨ih.1 hw, ihs ih.2 _ hkvs'⟩
  | _ => trivial

end Names

end Gateway.JsonText
