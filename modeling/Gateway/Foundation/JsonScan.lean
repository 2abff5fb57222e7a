import Gateway.Foundation.JsonText

/-! The scanner reads back what the renderer writes, for any hooks. -/
namespace Gateway.JsonText

variable {α ε : Type*} {h : JsonHooks α ε}

/-- What may follow a number without being taken for more of it. -/
def Boundary (r : Str) : Prop :=
  ∀ c s, r = c :: s → isDigit c = false ∧ c ≠ 46 ∧ c ≠ 101 ∧ c ≠ 69

theorem boundary_nil : Boundary [] := by
  intro c s h
  cases h

theorem boundary_cons {c : ℕ} {s : Str} (hd : isDigit c = false)
    (hc : c ≠ 46 ∧ c ≠ 101 ∧ c ≠ 69) : Boundary (c :: s) := by
  intro c' s' h
  cases h
  exact ⟨hd, hc⟩

theorem skipSpace_of_not {c : ℕ} {s : Str} (hc : isSpace c = false) :
    skipSpace (c :: s) = c :: s := by
  simp [skipSpace, hc]

/-! Numbers. -/

theorem isDigit_add {d : ℕ} (hd : d < 10) : isDigit (48 + d) = true := by
  simp [isDigit]
  omega

/-- The text does not start with a digit. -/
def NotDigit (r : Str) : Prop := ∀ c s, r = c :: s → isDigit c = false

theorem notDigit_cons {c : ℕ} {s : Str} (hc : isDigit c = false) : NotDigit (c :: s) := by
  intro c' s' h
  cases h
  exact hc

theorem Boundary.notDigit {r : Str} (hr : Boundary r) : NotDigit r := fun c s h => (hr c s h).1

theorem takeDigits_append {ds : List ℕ} {r : Str} (hd : ∀ d ∈ ds, d < 10) (hr : NotDigit r) :
    takeDigits (digitChars ds ++ r) = (ds, r) := by
  induction ds with
  | nil =>
    cases r with
    | nil => rfl
    | cons c s => simp [digitChars, takeDigits, hr c s rfl]
  | cons d ds ih =>
    have hrest := ih (fun x hx => hd x (List.mem_cons_of_mem _ hx))
    simp only [digitChars] at hrest
    simp [digitChars, takeDigits, isDigit_add (hd d (by simp)), hrest]

theorem scanSign_digit {c : ℕ} {s : Str} (hc : isDigit c = true) :
    scanSign (c :: s) = (false, c :: s) := by
  unfold scanSign
  split
  · rename_i h
    cases h
    simp [isDigit] at hc
  · rfl

theorem scanExponentSign_digit {c : ℕ} {s : Str} (hc : isDigit c = true) :
    scanExponentSign (c :: s) = (false, c :: s) := by
  unfold scanExponentSign
  split
  · rename_i h
    cases h
    simp [isDigit] at hc
  · rename_i h
    cases h
    simp [isDigit] at hc
  · rfl

theorem scanInteger_append {ds : List ℕ} {r : Str} (hne : ds ≠ []) (hd : ∀ d ∈ ds, d < 10)
    (hz : ds.head? = some 0 → ds = [0]) (hr : NotDigit r) :
    scanInteger (digitChars ds ++ r) = some (ds, r) := by
  have htake := takeDigits_append hd hr
  obtain ⟨d, ds, rfl⟩ := List.exists_cons_of_ne_nil hne
  have hlt : d < 10 := hd d (by simp)
  rcases Nat.eq_zero_or_pos d with rfl | hpos
  · obtain rfl : ds = [] := by simpa using hz
    simp [digitChars, scanInteger]
  · simp only [digitChars, List.map_cons, List.cons_append] at htake ⊢
    rw [scanInteger]
    · simp [isDigit_add hlt, htake]
    · omega

theorem scanFraction_append {ds : List ℕ} {r : Str} (hd : ∀ d ∈ ds, d < 10) (hr : NotDigit r)
    (hp : ∀ s, r ≠ 46 :: s) : scanFraction (renderFraction ds ++ r) = (ds, r) := by
  by_cases hne : ds = []
  · subst hne
    simp only [renderFraction, List.isEmpty_nil, ↓reduceIte, List.nil_append]
    unfold scanFraction
    split
    · exact absurd rfl (hp _)
    · rfl
  · simp [renderFraction, scanFraction, takeDigits_append hd hr, hne]

theorem scanExponent_append {e : Option (Bool × List ℕ)} {r : Str}
    (hne : ∀ p, e = some p → p.2 ≠ []) (hd : ∀ p, e = some p → ∀ d ∈ p.2, d < 10)
    (hr : Boundary r) : scanExponent (renderExponent e ++ r) = (e, r) := by
  cases e with
  | none =>
    cases r with
    | nil => rfl
    | cons c s =>
      obtain ⟨-, -, h1, h2⟩ := hr c s rfl
      simp [renderExponent, scanExponent, h1, h2]
  | some p =>
    obtain ⟨negative, ds⟩ := p
    have hds : ds ≠ [] := hne _ rfl
    have htake := takeDigits_append (hd _ rfl) hr.notDigit
    have hsign : scanExponentSign ((if negative then [45] else []) ++ (digitChars ds ++ r)) =
        (negative, digitChars ds ++ r) := by
      cases negative with
      | true => rfl
      | false =>
        obtain ⟨d, es, rfl⟩ := List.exists_cons_of_ne_nil hds
        exact scanExponentSign_digit (isDigit_add (hd _ rfl d (by simp)))
    simp only [renderExponent, List.cons_append, List.append_assoc, scanExponent]
    simp [hsign, htake, hds]

theorem renderExponent_head {e : Option (Bool × List ℕ)} {r : Str} (hr : Boundary r) :
    NotDigit (renderExponent e ++ r) ∧ ∀ s, renderExponent e ++ r ≠ 46 :: s := by
  cases e with
  | none => exact ⟨hr.notDigit, fun s h => (hr 46 s h).2.1 rfl⟩
  | some p =>
    refine ⟨notDigit_cons (by decide), ?_⟩
    intro s h
    cases h

theorem renderFraction_notDigit {ds : List ℕ} {r : Str} (hr : NotDigit r) :
    NotDigit (renderFraction ds ++ r) := by
  unfold renderFraction
  split
  · exact hr
  · exact notDigit_cons (by decide)

theorem matchNumber_render {t : NumberToken} (ht : t.Valid) {r : Str} (hr : Boundary r) :
    matchNumber (renderToken t ++ r) = some (t, r) := by
  obtain ⟨negative, integer, fraction, exponent⟩ := t
  obtain ⟨hexp, hpoint⟩ := renderExponent_head (e := exponent) hr
  have hint := scanInteger_append ht.integer_ne ht.integer_lt ht.no_leading_zero
    (@renderFraction_notDigit fraction _ hexp)
  have hfrac := scanFraction_append ht.fraction_lt hexp hpoint
  have hlast := scanExponent_append ht.exponent_ne ht.exponent_lt hr
  have hsign : scanSign ((if negative then [45] else []) ++ (digitChars integer ++
      (renderFraction fraction ++ (renderExponent exponent ++ r)))) =
      (negative, digitChars integer ++ (renderFraction fraction ++ (renderExponent exponent ++ r))) := by
    cases negative with
    | true => rfl
    | false =>
      obtain ⟨d, ds, hds⟩ := List.exists_cons_of_ne_nil ht.integer_ne
      have hd := ht.integer_lt
      simp only at hds hd
      subst hds
      exact scanSign_digit (isDigit_add (hd d (by simp)))
  simp only at hint hfrac hlast
  simp only [renderToken, List.append_assoc, matchNumber, hsign, hint, hfrac, hlast,
    Option.bind_eq_bind, Option.bind_some, Option.pure_def]

/-! Strings. -/

theorem hexValue_hexChar {n : ℕ} (hn : n < 16) : hexValue (hexChar n) = some n := by
  have hall : ∀ n < 16, hexValue (hexChar n) = some n := by decide
  exact hall n hn

/-- The units the scanner sees for one character: only controls are written with `\u`. -/
theorem scanUnits_escape (c : ℕ) (s : Str) :
    ∃ e, (e = true → c < 32) ∧
      scanUnits (escapeChar c ++ s) = (scanUnits s).map (fun p => ((e, c) :: p.1, p.2)) := by
  have pair : ∀ {e : ℕ}, simpleEscape e = some c → e ≠ 117 →
      scanUnits (92 :: e :: s) = (scanUnits s).map (fun p => ((false, c) :: p.1, p.2)) := by
    intro e he hne
    rw [scanUnits]
    · cases scanUnits s <;> simp [he]
    · intro a b c d s' h117
      exact absurd h117 hne
  unfold escapeChar
  split_ifs with h1 h2 h3 h4 h5 h6 h7 h8
  · exact ⟨false, by simp, pair (by simp [simpleEscape, h1]) (by decide)⟩
  · exact ⟨false, by simp, pair (by simp [simpleEscape, h2]) (by decide)⟩
  · exact ⟨false, by simp, pair (by simp [simpleEscape, h3]) (by decide)⟩
  · exact ⟨false, by simp, pair (by simp [simpleEscape, h4]) (by decide)⟩
  · exact ⟨false, by simp, pair (by simp [simpleEscape, h5]) (by decide)⟩
  · exact ⟨false, by simp, pair (by simp [simpleEscape, h6]) (by decide)⟩
  · exact ⟨false, by simp, pair (by simp [simpleEscape, h7]) (by decide)⟩
  · refine ⟨true, fun _ => h8, ?_⟩
    have hz : hexValue 48 = some 0 := by decide
    have hv : c / 16 * 16 + c % 16 = c := by omega
    simp only [List.cons_append, List.nil_append]
    rw [scanUnits]
    cases scanUnits s <;>
      simp [hz, hexValue_hexChar (show c / 16 < 16 by omega),
        hexValue_hexChar (show c % 16 < 16 by omega), hv]
  · refine ⟨false, by simp, ?_⟩
    simp only [List.cons_append, List.nil_append]
    rw [scanUnits]
    · cases scanUnits s <;> simp [h2, h8]
    · exact h1
    · intro a b d e s' h
      exact absurd h h2
    · intro e s' h
      exact absurd h h2

theorem scanUnits_quote (s r : Str) :
    ∃ us : List (Bool × ℕ), us.map Prod.snd = s ∧ (∀ u ∈ us, u.1 = true → u.2 < 32) ∧
      scanUnits (s.flatMap escapeChar ++ 34 :: r) = some (us, r) := by
  induction s with
  | nil => exact ⟨[], rfl, by simp, by simp [scanUnits]⟩
  | cons c s ih =>
    obtain ⟨us, hmap, hctrl, hscan⟩ := ih
    obtain ⟨e, he, hesc⟩ := scanUnits_escape c (s.flatMap escapeChar ++ 34 :: r)
    refine ⟨(e, c) :: us, by simp [hmap], ?_, ?_⟩
    · intro u hu
      rcases List.mem_cons.mp hu with rfl | hu
      · exact he
      · exact hctrl u hu
    · rw [List.flatMap_cons, List.append_assoc, hesc, hscan]
      rfl

/-- Without an escaped surrogate nothing is joined. -/
theorem joinSurrogates_of_control {us : List (Bool × ℕ)}
    (hus : ∀ u ∈ us, u.1 = true → u.2 < 32) : joinSurrogates us = us.map Prod.snd := by
  induction us with
  | nil => rfl
  | cons u us ih =>
    have hrest := ih (fun v hv => hus v (List.mem_cons_of_mem _ hv))
    obtain ⟨e, c⟩ := u
    have hc : e = true → c < 32 := hus (e, c) (by simp)
    cases us with
    | nil => cases e <;> simp [joinSurrogates]
    | cons v us =>
      obtain ⟨e', c'⟩ := v
      cases e <;> cases e' <;> simp_all [joinSurrogates]
      omega

theorem scanString_quote (s r : Str) :
    scanString (s.flatMap escapeChar ++ 34 :: r) = some (s, r) := by
  obtain ⟨us, hmap, hctrl, hscan⟩ := scanUnits_quote s r
  simp [scanString, hscan, joinSurrogates_of_control hctrl, hmap]

/-! Values. -/

theorem renderToken_head {t : NumberToken} (ht : t.Valid) (r : Str) :
    ∃ c s, renderToken t ++ r = c :: s ∧ (isDigit c = true ∨ (c = 45 ∧ ∃ d s', s = d :: s' ∧
      isDigit d = true)) := by
  obtain ⟨d, ds, hds⟩ := List.exists_cons_of_ne_nil ht.integer_ne
  have hd := isDigit_add (ht.integer_lt d (by simp [hds]))
  cases hn : t.negative with
  | true => simp [renderToken, hn, hds, digitChars, hd]
  | false => simp [renderToken, hn, hds, digitChars, hd]

theorem scanScalar_number {t : NumberToken} (ht : t.Valid) {r : Str} (hr : Boundary r) :
    scanScalar h (renderToken t ++ r) =
      (if t.isFloat then h.float t else h.integer t).map (·, r) := by
  have hm := matchNumber_render ht hr
  obtain ⟨c, s, hcs, hc⟩ := renderToken_head ht r
  rw [hcs] at hm ⊢
  have hne : c ≠ 34 ∧ c ≠ 110 ∧ c ≠ 116 ∧ c ≠ 102 ∧ c ≠ 78 ∧ c ≠ 73 := by
    rcases hc with hc | ⟨rfl, -⟩
    · simp only [isDigit, Bool.and_eq_true, decide_eq_true_eq] at hc
      omega
    · decide
  have hinf : (str "-Infinity").isPrefixOf (c :: s) = false := by
    rcases hc with hc | ⟨rfl, d, s', rfl, hd⟩
    · simp only [isDigit, Bool.and_eq_true, decide_eq_true_eq] at hc
      simp [str, List.isPrefixOf]
      omega
    · simp only [isDigit, Bool.and_eq_true, decide_eq_true_eq] at hd
      simp [str, List.isPrefixOf]
      omega
  have hnot : ∀ x : ℕ, c ≠ x → (x == c) = false := by
    intro x hx
    simpa using Ne.symm hx
  have hword : ∀ (x : ℕ) (w : Str), c ≠ x → (x :: w).isPrefixOf (c :: s) = false := by
    intro x w hx
    simp [List.isPrefixOf, hnot x hx]
  have hnull := hword 110 [117, 108, 108] hne.2.1
  have htrue := hword 116 [114, 117, 101] hne.2.2.1
  have hfalse := hword 102 [97, 108, 115, 101] hne.2.2.2.1
  have hnan := hword 78 [97, 78] hne.2.2.2.2.1
  have hinfinity := hword 73 [110, 102, 105, 110, 105, 116, 121] hne.2.2.2.2.2
  unfold scanScalar
  split
  · rename_i heq
    cases heq
    exact absurd rfl hne.1
  · change (if [110, 117, 108, 108].isPrefixOf (c :: s) = true then _ else
      if [116, 114, 117, 101].isPrefixOf (c :: s) = true then _ else
      if [102, 97, 108, 115, 101].isPrefixOf (c :: s) = true then _ else
      if [78, 97, 78].isPrefixOf (c :: s) = true then _ else
      if [73, 110, 102, 105, 110, 105, 116, 121].isPrefixOf (c :: s) = true then _ else
      if (str "-Infinity").isPrefixOf (c :: s) = true then _ else _) = _
    rw [hnull, htrue, hfalse, hnan, hinfinity, hinf, hm]
    rfl

theorem render_head (t : JsonText) (ht : WellFormed t) (r : Str) :
    ∃ c s, render t ++ r = c :: s ∧ isSpace c = false ∧ c ≠ 93 ∧ c ≠ 125 := by
  cases t with
  | null => exact ⟨110, _, rfl, by decide⟩
  | bool b => cases b with
    | true => exact ⟨116, _, rfl, by decide⟩
    | false => exact ⟨102, _, rfl, by decide⟩
  | number t =>
    obtain ⟨c, s, hcs, hc⟩ := renderToken_head ht r
    refine ⟨c, s, hcs, ?_⟩
    rcases hc with hc | ⟨rfl, -⟩
    · simp only [isDigit, Bool.and_eq_true, decide_eq_true_eq] at hc
      simp [isSpace]
      omega
    · decide
  | string s => exact ⟨34, _, rfl, by decide⟩
  | array items => exact ⟨91, _, rfl, by decide⟩
  | object members => exact ⟨123, _, rfl, by decide⟩

theorem skipSpace_render (t : JsonText) (ht : WellFormed t) (r : Str) :
    skipSpace (render t ++ r) = render t ++ r := by
  obtain ⟨c, s, hcs, hsp, -⟩ := render_head t ht r
  rw [hcs, skipSpace_of_not hsp]

@[simp] theorem joinComma_nil : joinComma [] = [] := rfl

@[simp] theorem joinComma_singleton (x : Str) : joinComma [x] = x := by simp [joinComma]

@[simp] theorem joinComma_cons_cons (x y : Str) (l : List Str) :
    joinComma (x :: y :: l) = x ++ 44 :: joinComma (y :: l) := by
  simp [joinComma, List.intersperse]

theorem length_le_joinComma {l : List Str} (hl : ∀ x ∈ l, x ≠ []) :
    l.length ≤ (joinComma l).length := by
  induction l with
  | nil => simp
  | cons x l ih =>
    have hx := List.length_pos_iff.mpr (hl x (by simp))
    cases l with
    | nil =>
      simp only [List.length_singleton, joinComma_singleton]
      omega
    | cons y l =>
      have := ih (fun z hz => hl z (List.mem_cons_of_mem _ hz))
      simp at this ⊢
      omega

theorem render_ne_nil (t : JsonText) (ht : WellFormed t) : render t ≠ [] := by
  obtain ⟨c, s, hcs, -⟩ := render_head t ht []
  intro he
  simp [he] at hcs

theorem renderItems_ne_nil {ts : List JsonText} (ht : WellFormedItems ts) :
    ∀ x ∈ renderItems ts, x ≠ [] := by
  induction ts with
  | nil => simp [renderItems]
  | cons t ts ih =>
    intro x hx
    rcases List.mem_cons.mp hx with rfl | hx
    · exact render_ne_nil t ht.1
    · exact ih ht.2 x hx

theorem renderMembers_ne_nil (ms : List (Str × JsonText)) : ∀ x ∈ renderMembers ms, x ≠ [] := by
  induction ms with
  | nil => simp [renderMembers]
  | cons m ms ih =>
    intro x hx
    rcases List.mem_cons.mp hx with rfl | hx
    · simp [quote]
    · exact ih x hx

theorem renderItems_length (ts : List JsonText) : (renderItems ts).length = ts.length := by
  induction ts with
  | nil => rfl
  | cons t ts ih => simp [renderItems, ih]

theorem renderMembers_length (ms : List (Str × JsonText)) :
    (renderMembers ms).length = ms.length := by
  induction ms with
  | nil => rfl
  | cons m ms ih => simp [renderMembers, ih]

/-- Reading one value, at any allowance of at least its depth. -/
def Reads (h : JsonHooks α ε) (t : JsonText) : Prop :=
  ∀ n, depth t ≤ n → ∀ r, Boundary r →
    scanOnce h n (render t ++ r) = (eval h t).map (·, r)

theorem scanItems_render {n : ℕ} {ts : List JsonText} (hwf : WellFormedItems ts)
    (hne : ts ≠ []) (hts : ∀ t ∈ ts, Reads h t) (hd : depthItems ts ≤ n) (r : Str) :
    ∀ fuel, ts.length ≤ fuel →
      scanItems h (scanOnce h n) fuel (joinComma (renderItems ts) ++ 93 :: r) =
        (evalItems h ts).map (·, r) := by
  induction ts with
  | nil => exact absurd rfl hne
  | cons t ts ih =>
    intro fuel hf
    obtain ⟨fuel, rfl⟩ : ∃ k, fuel = k + 1 := ⟨fuel - 1, by simp at hf; omega⟩
    have hdt : depth t ≤ n := (le_max_left _ _).trans hd
    have hdts : depthItems ts ≤ n := (le_max_right _ _).trans hd
    cases ts with
    | nil =>
      have hv := hts t (by simp) n hdt (93 :: r) (boundary_cons (by decide) (by decide))
      simp only [renderItems, joinComma_singleton, scanItems, hv, evalItems]
      cases eval h t with
      | error e => rfl
      | ok v => simp [Except.map, skipSpace, isSpace, bind, Except.bind, pure, Except.pure]
    | cons t' ts =>
      have hv := hts t (by simp) n hdt
        (44 :: (joinComma (renderItems (t' :: ts)) ++ 93 :: r))
        (boundary_cons (by decide) (by decide))
      have hrest := ih hwf.2 (by simp) (fun x hx => hts x (List.mem_cons_of_mem _ hx)) hdts fuel
        (by simp at hf ⊢; omega)
      have hspace : skipSpace (joinComma (renderItems (t' :: ts)) ++ 93 :: r) =
          joinComma (renderItems (t' :: ts)) ++ 93 :: r := by
        cases ts with
        | nil =>
          simp only [renderItems, joinComma_singleton]
          exact skipSpace_render t' hwf.2.1 _
        | cons t'' ts =>
          simp only [renderItems, joinComma_cons_cons, List.append_assoc]
          exact skipSpace_render t' hwf.2.1 _
      have hshape : joinComma (renderItems (t :: t' :: ts)) ++ 93 :: r =
          render t ++ 44 :: (joinComma (renderItems (t' :: ts)) ++ 93 :: r) := by
        simp [renderItems]
      rw [hshape, scanItems, hv, evalItems]
      cases eval h t with
      | error e => rfl
      | ok v =>
        simp only [Except.map, bind, Except.bind]
        rw [skipSpace_of_not (by decide)]
        simp only [hspace, hrest]
        cases evalItems h (t' :: ts) <;> rfl

theorem scanMembers_render {n : ℕ} {ms : List (Str × JsonText)} (hwf : WellFormedMembers ms)
    (hne : ms ≠ []) (hms : ∀ m ∈ ms, Reads h m.2) (hd : depthMembers ms ≤ n) (r : Str) :
    ∀ fuel, ms.length ≤ fuel →
      scanMembers h (scanOnce h n) fuel (joinComma (renderMembers ms) ++ 125 :: r) =
        (evalMembers h ms).map (·, r) := by
  induction ms with
  | nil => exact absurd rfl hne
  | cons m ms ih =>
    obtain ⟨k, t⟩ := m
    intro fuel hf
    obtain ⟨fuel, rfl⟩ : ∃ k, fuel = k + 1 := ⟨fuel - 1, by simp at hf; omega⟩
    have hdt : depth t ≤ n := (le_max_left _ _).trans hd
    have hdms : depthMembers ms ≤ n := (le_max_right _ _).trans hd
    have hcolon : ∀ s : Str, skipSpace (58 :: s) = 58 :: s := fun s => skipSpace_of_not (by decide)
    cases ms with
    | nil =>
      have hv := hms (k, t) (by simp) n hdt (125 :: r) (boundary_cons (by decide) (by decide))
      have hshape : joinComma (renderMembers [(k, t)]) ++ 125 :: r =
          34 :: (k.flatMap escapeChar ++ 34 :: 58 :: (render t ++ 125 :: r)) := by
        simp [renderMembers, quote]
      rw [hshape, scanMembers, scanString_quote]
      simp only [hcolon, skipSpace_render t hwf.1, hv, evalMembers]
      cases eval h t with
      | error e => rfl
      | ok v => simp [Except.map, skipSpace, isSpace, bind, Except.bind, pure, Except.pure]
    | cons m' ms =>
      have hv := hms (k, t) (by simp) n hdt
        (44 :: (joinComma (renderMembers (m' :: ms)) ++ 125 :: r))
        (boundary_cons (by decide) (by decide))
      have hrest := ih hwf.2 (by simp) (fun x hx => hms x (List.mem_cons_of_mem _ hx)) hdms fuel
        (by simp at hf ⊢; omega)
      have hspace : skipSpace (joinComma (renderMembers (m' :: ms)) ++ 125 :: r) =
          joinComma (renderMembers (m' :: ms)) ++ 125 :: r := by
        cases ms <;> simp [renderMembers, quote, skipSpace, isSpace]
      have hshape : joinComma (renderMembers ((k, t) :: m' :: ms)) ++ 125 :: r =
          34 :: (k.flatMap escapeChar ++ 34 :: 58 ::
            (render t ++ 44 :: (joinComma (renderMembers (m' :: ms)) ++ 125 :: r))) := by
        simp [renderMembers, quote]
      rw [hshape, scanMembers, scanString_quote]
      simp only [hcolon, skipSpace_render t hwf.1, hv]
      rw [evalMembers]
      cases eval h t with
      | error e => rfl
      | ok v =>
        simp only [Except.map, bind, Except.bind]
        rw [skipSpace_of_not (by decide)]
        simp only [hspace, hrest]
        cases evalMembers h (m' :: ms) <;> rfl

theorem scanOnce_scalar {n : ℕ} {c : ℕ} {s : Str} (h1 : c ≠ 91) (h2 : c ≠ 123) :
    scanOnce h n (c :: s) = scanScalar h (c :: s) := by
  cases n <;> rw [scanOnce] <;> intro tail h <;> cases h <;> contradiction

theorem reads_array {ts : List JsonText} (hwf : WellFormedItems ts)
    (hts : ∀ t ∈ ts, Reads h t) : Reads h (.array ts) := by
  intro n hn r _
  obtain ⟨n, rfl⟩ : ∃ k, n = k + 1 := ⟨n - 1, by simp [depth] at hn; omega⟩
  have hd : depthItems ts ≤ n := by simpa [depth] using hn
  cases ts with
  | nil => simp [render, renderItems, scanOnce, scanArray, skipSpace, isSpace, eval, evalItems,
      Except.map, bind, Except.bind, pure, Except.pure]
  | cons t ts =>
    have hitems := scanItems_render hwf (by simp) hts hd r
      (joinComma (renderItems (t :: ts)) ++ 93 :: r).length (by
        have := length_le_joinComma (renderItems_ne_nil hwf)
        rw [renderItems_length] at this
        simp at this ⊢
        omega)
    have hhead : ∃ c s, joinComma (renderItems (t :: ts)) ++ 93 :: r = c :: s ∧
        isSpace c = false ∧ c ≠ 93 := by
      have hrest : ∃ tail, joinComma (renderItems (t :: ts)) ++ 93 :: r = render t ++ tail := by
        cases ts <;> simp [renderItems]
      obtain ⟨tail, ht⟩ := hrest
      obtain ⟨c, s, hcs, hsp, hne, -⟩ := render_head t hwf.1 tail
      exact ⟨c, s, ht.trans hcs, hsp, hne⟩
    obtain ⟨c, s, hcs, hsp, hne⟩ := hhead
    have hshape : render (.array (t :: ts)) ++ r =
        91 :: (joinComma (renderItems (t :: ts)) ++ 93 :: r) := by simp [render]
    rw [hshape, scanOnce, scanArray, hcs, skipSpace_of_not hsp]
    rw [hcs] at hitems
    split
    · rename_i heq
      cases heq
      exact absurd rfl hne
    · rw [hitems, eval]
      cases evalItems h (t :: ts) <;> rfl

theorem reads_object {ms : List (Str × JsonText)} (hwf : WellFormedMembers ms)
    (hms : ∀ m ∈ ms, Reads h m.2) : Reads h (.object ms) := by
  intro n hn r _
  obtain ⟨n, rfl⟩ : ∃ k, n = k + 1 := ⟨n - 1, by simp [depth] at hn; omega⟩
  have hd : depthMembers ms ≤ n := by simpa [depth] using hn
  cases ms with
  | nil =>
    simp only [render, renderMembers, joinComma_nil, List.nil_append, List.cons_append, scanOnce,
      scanObject, eval, evalMembers]
    rw [skipSpace_of_not (by decide)]
    simp only [bind, Except.bind]
    cases h.objectPairs [] <;> rfl
  | cons m ms =>
    have hmembers := scanMembers_render hwf (by simp) hms hd r
      (joinComma (renderMembers (m :: ms)) ++ 125 :: r).length (by
        have := length_le_joinComma (renderMembers_ne_nil (m :: ms))
        rw [renderMembers_length] at this
        simp at this ⊢
        omega)
    obtain ⟨s, hs⟩ : ∃ s, joinComma (renderMembers (m :: ms)) ++ 125 :: r = 34 :: s := by
      cases ms <;> simp [renderMembers, quote]
    have hshape : render (.object (m :: ms)) ++ r =
        123 :: (joinComma (renderMembers (m :: ms)) ++ 125 :: r) := by simp [render]
    rw [hshape, scanOnce, scanObject, hs, skipSpace_of_not (by decide)]
    rw [hs] at hmembers
    simp only [hmembers, eval]
    cases evalMembers h (m :: ms) with
    | error e => rfl
    | ok kvs =>
      simp only [Except.map, bind, Except.bind]
      cases h.objectPairs kvs <;> rfl

theorem reads_null : Reads h .null := by
  intro n _ r _
  change scanOnce h n (110 :: ([117, 108, 108] ++ r)) = _
  rw [scanOnce_scalar (by decide) (by decide)]
  simp [scanScalar, str, List.isPrefixOf, eval, Except.map]

theorem reads_bool (b : Bool) : Reads h (.bool b) := by
  intro n _ r _
  cases b with
  | true =>
    change scanOnce h n (116 :: ([114, 117, 101] ++ r)) = _
    rw [scanOnce_scalar (by decide) (by decide)]
    simp [scanScalar, str, List.isPrefixOf, eval, Except.map]
  | false =>
    change scanOnce h n (102 :: ([97, 108, 115, 101] ++ r)) = _
    rw [scanOnce_scalar (by decide) (by decide)]
    simp [scanScalar, str, List.isPrefixOf, eval, Except.map]

theorem reads_number {t : NumberToken} (ht : t.Valid) : Reads h (.number t) := by
  intro n _ r hr
  have hn := scanScalar_number (h := h) ht hr
  obtain ⟨c, s, hcs, hc⟩ := renderToken_head ht r
  change scanOnce h n (renderToken t ++ r) = _
  rw [hcs] at hn ⊢
  have hne : c ≠ 91 ∧ c ≠ 123 := by
    rcases hc with hc | ⟨rfl, -⟩
    · simp only [isDigit, Bool.and_eq_true, decide_eq_true_eq] at hc
      omega
    · decide
  rw [scanOnce_scalar hne.1 hne.2, hn, eval]

theorem reads_string (s : Str) : Reads h (.string s) := by
  intro n _ r _
  have hshape : render (.string s) ++ r = 34 :: (s.flatMap escapeChar ++ 34 :: r) := by
    simp [render, quote]
  rw [hshape, scanOnce_scalar (by decide) (by decide), scanScalar]
  simp [scanString_quote, eval, Except.map]

theorem WellFormedItems.mem {ts : List JsonText} (hts : WellFormedItems ts) :
    ∀ t ∈ ts, WellFormed t := by
  induction ts with
  | nil => simp
  | cons t ts ih =>
    intro x hx
    rcases List.mem_cons.mp hx with rfl | hx
    · exact hts.1
    · exact ih hts.2 x hx

theorem WellFormedMembers.mem {ms : List (Str × JsonText)} (hms : WellFormedMembers ms) :
    ∀ m ∈ ms, WellFormed m.2 := by
  induction ms with
  | nil => simp
  | cons m ms ih =>
    intro x hx
    rcases List.mem_cons.mp hx with rfl | hx
    · exact hms.1
    · exact ih hms.2 x hx

/-- The scanner makes of rendered text exactly what the hooks make of the document. -/
theorem reads (t : JsonText) (hwf : WellFormed t) : Reads h t := by
  induction t using induction with
  | null => exact reads_null
  | bool b => exact reads_bool b
  | number t => exact reads_number hwf
  | string s => exact reads_string s
  | array items ih =>
    have hitems : WellFormedItems items := hwf
    exact reads_array hitems (fun t ht => ih t ht (hitems.mem t ht))
  | object members ih =>
    have hmembers : WellFormedMembers members := hwf
    exact reads_object hmembers (fun m hm => ih m hm (hmembers.mem m hm))

/-- Decoding rendered text is evaluating the document, within the interpreter's allowance. -/
theorem decode_render {t : JsonText} (hwf : WellFormed t) {n : ℕ} (hn : depth t ≤ n) :
    decode h n (render t) = eval h t := by
  have hs := skipSpace_render t hwf []
  have hr := reads (h := h) t hwf n hn [] boundary_nil
  rw [List.append_nil] at hs hr
  rw [decode, hs, hr]
  cases eval h t <;> rfl

/-- Hooks that rebuild the document as it stands. -/
def textHooks : JsonHooks JsonText Unit where
  null := .null
  bool := .bool
  string := .string
  array := .array
  integer := fun t => .ok (.number t)
  float := fun t => .ok (.number t)
  constant := fun _ => .error ()
  objectPairs := fun ms => .ok (.object ms)
  decodeError := ()
  recursionError := ()

theorem eval_textHooks (t : JsonText) : eval textHooks t = .ok t := by
  have hitems : ∀ ts : List JsonText, (∀ t ∈ ts, eval textHooks t = .ok t) →
      evalItems textHooks ts = .ok ts := by
    intro ts
    induction ts with
    | nil => exact fun _ => rfl
    | cons t ts ih =>
      intro h
      rw [evalItems, h t (by simp), ih (fun x hx => h x (List.mem_cons_of_mem _ hx))]
      rfl
  have hmembers : ∀ ms : List (Str × JsonText), (∀ m ∈ ms, eval textHooks m.2 = .ok m.2) →
      evalMembers textHooks ms = .ok ms := by
    intro ms
    induction ms with
    | nil => exact fun _ => rfl
    | cons m ms ih =>
      intro h
      rw [evalMembers, h m (by simp), ih (fun x hx => h x (List.mem_cons_of_mem _ hx))]
      rfl
  induction t using induction with
  | null => rfl
  | bool b => rfl
  | number t =>
    rw [eval]
    split <;> rfl
  | string s => rfl
  | array items ih =>
    rw [eval, hitems items ih]
    rfl
  | object members ih =>
    rw [eval, hmembers members ih]
    rfl

/-- Different documents render differently. -/
theorem render_injective {t u : JsonText} (ht : WellFormed t) (hu : WellFormed u)
    (h : render t = render u) : t = u := by
  have hdt := decode_render (h := textHooks) ht (le_max_left (depth t) (depth u))
  have hdu := decode_render (h := textHooks) hu (le_max_right (depth t) (depth u))
  rw [h, hdu, eval_textHooks, eval_textHooks] at hdt
  exact (Except.ok.inj hdt).symm

end Gateway.JsonText
