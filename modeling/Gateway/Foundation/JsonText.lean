import Gateway.Foundation.Text

/-! JSON text: a scanner parameterised by hooks, a renderer, and the theorem that joins them. -/
namespace Gateway

theorem bind_eq_ok {α β : Type*} {ε : Type*} {x : Except ε α} {f : α → Except ε β} {b : β} :
    x.bind f = .ok b ↔ ∃ a, x = .ok a ∧ f a = .ok b := by
  cases x <;> simp [Except.bind]

theorem map_eq_ok {α β : Type*} {ε : Type*} {x : Except ε α} {f : α → β} {b : β} :
    x.map f = .ok b ↔ ∃ a, x = .ok a ∧ f a = b := by
  cases x <;> simp [Except.map]

theorem bind_eq_error {α β : Type*} {ε : Type*} {x : Except ε α} {f : α → Except ε β} {e : ε} :
    x.bind f = .error e ↔ x = .error e ∨ ∃ a, x = .ok a ∧ f a = .error e := by
  cases x <;> simp [Except.bind]

theorem map_eq_error {α β : Type*} {ε : Type*} {x : Except ε α} {f : α → β} {e : ε} :
    x.map f = .error e ↔ x = .error e := by
  cases x <;> simp [Except.map]

/-- A number token, split as the scanner splits it; digits most significant first. -/
structure NumberToken where
  negative : Bool
  integer : List ℕ
  fraction : List ℕ
  exponent : Option (Bool × List ℕ)
deriving DecidableEq

/-- A JSON document as written, before any hook has read it. -/
inductive JsonText where
  | null
  | bool (b : Bool)
  | number (token : NumberToken)
  | string (s : Str)
  | array (items : List JsonText)
  | object (members : List (Str × JsonText))

/-- What a decoder is built from: one constructor or hook for each form, and its two errors. -/
structure JsonHooks (α ε : Type*) where
  null : α
  bool : Bool → α
  string : Str → α
  array : List α → α
  integer : NumberToken → Except ε α
  float : NumberToken → Except ε α
  constant : Str → Except ε α
  objectPairs : List (Str × α) → Except ε α
  decodeError : ε
  recursionError : ε

namespace NumberToken

/-- The scanner hands a token with a fraction or an exponent to `parse_float`. -/
def isFloat (t : NumberToken) : Bool := !t.fraction.isEmpty || t.exponent.isSome

/-- The number grammar: no leading zero, digits where digits must be. -/
structure Valid (t : NumberToken) : Prop where
  integer_ne : t.integer ≠ []
  integer_lt : ∀ d ∈ t.integer, d < 10
  no_leading_zero : t.integer.head? = some 0 → t.integer = [0]
  fraction_lt : ∀ d ∈ t.fraction, d < 10
  exponent_ne : ∀ p, t.exponent = some p → p.2 ≠ []
  exponent_lt : ∀ p, t.exponent = some p → ∀ d ∈ p.2, d < 10

end NumberToken

namespace JsonText

/-- Induction with the hypothesis for every item and every member value. -/
@[elab_as_elim]
theorem induction {P : JsonText → Prop} (null : P .null) (bool : ∀ b, P (.bool b))
    (number : ∀ t, P (.number t)) (string : ∀ s, P (.string s))
    (array : ∀ items, (∀ t ∈ items, P t) → P (.array items))
    (object : ∀ members : List (Str × JsonText), (∀ m ∈ members, P m.2) → P (.object members))
    (t : JsonText) : P t :=
  JsonText.rec (motive_2 := fun ts => ∀ t ∈ ts, P t) (motive_3 := fun ms => ∀ m ∈ ms, P m.2)
    (motive_4 := fun m => P m.2) null bool number string array object (by simp)
    (fun _ _ ht hts => List.forall_mem_cons.mpr ⟨ht, hts⟩) (by simp)
    (fun _ _ hm hms => List.forall_mem_cons.mpr ⟨hm, hms⟩) (fun _ _ ht => ht) t

/-! Scanning. -/

def isSpace (c : ℕ) : Bool := c = 32 || c = 9 || c = 10 || c = 13

def skipSpace : Str → Str
  | c :: s => if isSpace c then skipSpace s else c :: s
  | [] => []

def isDigit (c : ℕ) : Bool := 48 ≤ c && c ≤ 57

def takeDigits : Str → List ℕ × Str
  | c :: s =>
    if isDigit c then
      let (ds, r) := takeDigits s
      ((c - 48) :: ds, r)
    else ([], c :: s)
  | [] => ([], [])

def scanSign : Str → Bool × Str
  | 45 :: s => (true, s)
  | s => (false, s)

def scanInteger : Str → Option (List ℕ × Str)
  | 48 :: s => some ([0], s)
  | c :: s => if isDigit c then some (takeDigits (c :: s)) else none
  | [] => none

/-- A point counts only when a digit follows it. -/
def scanFraction (s : Str) : List ℕ × Str :=
  match s with
  | 46 :: t =>
    let (ds, r) := takeDigits t
    if ds.isEmpty then ([], s) else (ds, r)
  | _ => ([], s)

def scanExponentSign : Str → Bool × Str
  | 45 :: s => (true, s)
  | 43 :: s => (false, s)
  | s => (false, s)

/-- An exponent mark without digits is left unread. -/
def scanExponent (s : Str) : Option (Bool × List ℕ) × Str :=
  match s with
  | c :: t =>
    if c = 101 || c = 69 then
      let (negative, u) := scanExponentSign t
      let (ds, r) := takeDigits u
      if ds.isEmpty then (none, s) else (some (negative, ds), r)
    else (none, s)
  | [] => (none, s)

def matchNumber (s : Str) : Option (NumberToken × Str) := do
  let (negative, s) := scanSign s
  let (integer, s) ← scanInteger s
  let (fraction, s) := scanFraction s
  let (exponent, s) := scanExponent s
  return (⟨negative, integer, fraction, exponent⟩, s)

def hexValue (c : ℕ) : Option ℕ :=
  if isDigit c then some (c - 48)
  else if 97 ≤ c ∧ c ≤ 102 then some (c - 87)
  else if 65 ≤ c ∧ c ≤ 70 then some (c - 55)
  else none

def simpleEscape (c : ℕ) : Option ℕ :=
  if c = 34 then some 34 else if c = 92 then some 92 else if c = 47 then some 47
  else if c = 98 then some 8 else if c = 102 then some 12 else if c = 110 then some 10
  else if c = 114 then some 13 else if c = 116 then some 9 else none

/-- The units of a string body up to its closing quote, each with whether `\u` wrote it. -/
def scanUnits : Str → Option (List (Bool × ℕ) × Str)
  | [] => none
  | 34 :: s => some ([], s)
  | 92 :: 117 :: a :: b :: c :: d :: s => do
    let a ← hexValue a
    let b ← hexValue b
    let c ← hexValue c
    let d ← hexValue d
    let (us, r) ← scanUnits s
    return ((true, ((a * 16 + b) * 16 + c) * 16 + d) :: us, r)
  | 92 :: e :: s => do
    let c ← simpleEscape e
    let (us, r) ← scanUnits s
    return ((false, c) :: us, r)
  | c :: s =>
    if c < 32 ∨ c = 92 then none
    else do
      let (us, r) ← scanUnits s
      return ((false, c) :: us, r)

/-- An escaped high surrogate joins the escaped low surrogate right after it. -/
def joinSurrogates : List (Bool × ℕ) → Str
  | (true, h) :: (true, l) :: us =>
    if 0xD800 ≤ h ∧ h < 0xDC00 ∧ 0xDC00 ≤ l ∧ l < 0xE000 then
      (0x10000 + (h - 0xD800) * 0x400 + (l - 0xDC00)) :: joinSurrogates us
    else h :: joinSurrogates ((true, l) :: us)
  | (_, c) :: us => c :: joinSurrogates us
  | [] => []

def scanString (s : Str) : Option (Str × Str) := do
  let (us, r) ← scanUnits s
  return (joinSurrogates us, r)

section Scanner

variable {α ε : Type*} (h : JsonHooks α ε)

/-- Array items after the opening bracket; the fuel is the length of the text left. -/
def scanItems (scan : Str → Except ε (α × Str)) : ℕ → Str → Except ε (List α × Str)
  | 0, _ => .error h.decodeError
  | n + 1, s => do
    let (v, s) ← scan s
    match skipSpace s with
    | 93 :: r => return ([v], r)
    | 44 :: r =>
      let (vs, r) ← scanItems scan n (skipSpace r)
      return (v :: vs, r)
    | _ => .error h.decodeError

def scanArray (scan : Str → Except ε (α × Str)) (s : Str) : Except ε (α × Str) :=
  match skipSpace s with
  | 93 :: r => return (h.array [], r)
  | s => do
    let (vs, r) ← scanItems h scan s.length s
    return (h.array vs, r)

/-- Members after the opening brace: a quoted key, a colon, a value. -/
def scanMembers (scan : Str → Except ε (α × Str)) : ℕ → Str → Except ε (List (Str × α) × Str)
  | 0, _ => .error h.decodeError
  | n + 1, 34 :: s =>
    match scanString s with
    | none => .error h.decodeError
    | some (k, s) =>
      match skipSpace s with
      | 58 :: s => do
        let (v, s) ← scan (skipSpace s)
        match skipSpace s with
        | 125 :: r => return ([(k, v)], r)
        | 44 :: r =>
          let (kvs, r) ← scanMembers scan n (skipSpace r)
          return ((k, v) :: kvs, r)
        | _ => .error h.decodeError
      | _ => .error h.decodeError
  | _ + 1, _ => .error h.decodeError

def scanObject (scan : Str → Except ε (α × Str)) (s : Str) : Except ε (α × Str) := do
  let (kvs, r) ← match skipSpace s with
    | 125 :: r => Except.ok ([], r)
    | s => scanMembers h scan s.length s
  let v ← h.objectPairs kvs
  return (v, r)

/-- One value that is no container. -/
def scanScalar (s : Str) : Except ε (α × Str) :=
  if let 34 :: t := s then
    match scanString t with
    | some (v, r) => .ok (h.string v, r)
    | none => .error h.decodeError
  else if (str "null").isPrefixOf s then .ok (h.null, s.drop 4)
  else if (str "true").isPrefixOf s then .ok (h.bool true, s.drop 4)
  else if (str "false").isPrefixOf s then .ok (h.bool false, s.drop 5)
  else if (str "NaN").isPrefixOf s then (h.constant (str "NaN")).map (·, s.drop 3)
  else if (str "Infinity").isPrefixOf s then (h.constant (str "Infinity")).map (·, s.drop 8)
  else if (str "-Infinity").isPrefixOf s then (h.constant (str "-Infinity")).map (·, s.drop 9)
  else
    match matchNumber s with
    | some (t, r) => (if t.isFloat then h.float t else h.integer t).map (·, r)
    | none => .error h.decodeError

/-- `scan_once`; the first argument is how many containers deep the interpreter may still go. -/
def scanOnce : ℕ → Str → Except ε (α × Str)
  | 0, s =>
    match s with
    | 91 :: _ => .error h.recursionError
    | 123 :: _ => .error h.recursionError
    | s => scanScalar h s
  | n + 1, s =>
    match s with
    | 91 :: t => scanArray h (scanOnce n) t
    | 123 :: t => scanObject h (scanOnce n) t
    | s => scanScalar h s

/-- `decode`: one value with nothing but space around it. -/
def decode (depth : ℕ) (s : Str) : Except ε α := do
  let (v, r) ← scanOnce h depth (skipSpace s)
  if skipSpace r = [] then return v else .error h.decodeError

end Scanner

/-! Rendering, without any space. -/

def digitChars (ds : List ℕ) : Str := ds.map (48 + ·)

def hexChar (n : ℕ) : ℕ := if n < 10 then 48 + n else 87 + n

def escapeChar (c : ℕ) : Str :=
  if c = 34 then [92, 34] else if c = 92 then [92, 92] else if c = 10 then [92, 110]
  else if c = 13 then [92, 114] else if c = 9 then [92, 116] else if c = 12 then [92, 102]
  else if c = 8 then [92, 98]
  else if c < 32 then [92, 117, 48, 48, hexChar (c / 16), hexChar (c % 16)]
  else [c]

/-- `json.dumps` of a string with `ensure_ascii=False`. -/
def quote (s : Str) : Str := 34 :: (s.flatMap escapeChar ++ [34])

def renderFraction (ds : List ℕ) : Str := if ds.isEmpty then [] else 46 :: digitChars ds

def renderExponent : Option (Bool × List ℕ) → Str
  | none => []
  | some (negative, ds) => 101 :: ((if negative then [45] else []) ++ digitChars ds)

def renderToken (t : NumberToken) : Str :=
  (if t.negative then [45] else []) ++ digitChars t.integer ++ renderFraction t.fraction ++
    renderExponent t.exponent

/-- `",".join(parts)`. -/
def joinComma (parts : List Str) : Str := (parts.intersperse [44]).flatten

mutual

def render : JsonText → Str
  | .null => str "null"
  | .bool b => if b then str "true" else str "false"
  | .number t => renderToken t
  | .string s => quote s
  | .array items => 91 :: (joinComma (renderItems items) ++ [93])
  | .object members => 123 :: (joinComma (renderMembers members) ++ [125])

def renderItems : List JsonText → List Str
  | [] => []
  | t :: ts => render t :: renderItems ts

def renderMembers : List (Str × JsonText) → List Str
  | [] => []
  | (k, t) :: ms => (quote k ++ 58 :: render t) :: renderMembers ms

end

mutual

/-- Container nesting; a scalar has none. -/
def depth : JsonText → ℕ
  | .array items => depthItems items + 1
  | .object members => depthMembers members + 1
  | _ => 0

def depthItems : List JsonText → ℕ
  | [] => 0
  | t :: ts => max (depth t) (depthItems ts)

def depthMembers : List (Str × JsonText) → ℕ
  | [] => 0
  | (_, t) :: ms => max (depth t) (depthMembers ms)

end

mutual

/-- Every number token obeys the grammar. -/
def WellFormed : JsonText → Prop
  | .number t => t.Valid
  | .array items => WellFormedItems items
  | .object members => WellFormedMembers members
  | _ => True

def WellFormedItems : List JsonText → Prop
  | [] => True
  | t :: ts => WellFormed t ∧ WellFormedItems ts

def WellFormedMembers : List (Str × JsonText) → Prop
  | [] => True
  | (_, t) :: ms => WellFormed t ∧ WellFormedMembers ms

end

section Eval

variable {α ε : Type*} (h : JsonHooks α ε)

mutual

/-- What the hooks make of a document, called in the order of the text. -/
def eval : JsonText → Except ε α
  | .null => .ok h.null
  | .bool b => .ok (h.bool b)
  | .number t => if t.isFloat then h.float t else h.integer t
  | .string s => .ok (h.string s)
  | .array items => do
    let vs ← evalItems items
    return h.array vs
  | .object members => do
    let kvs ← evalMembers members
    h.objectPairs kvs

def evalItems : List JsonText → Except ε (List α)
  | [] => .ok []
  | t :: ts => do
    let v ← eval t
    let vs ← evalItems ts
    return v :: vs

def evalMembers : List (Str × JsonText) → Except ε (List (Str × α))
  | [] => .ok []
  | (k, t) :: ms => do
    let v ← eval t
    let kvs ← evalMembers ms
    return (k, v) :: kvs

end

end Eval

end JsonText

end Gateway
