import Gateway.Contracts.NumberText

/-! JSON values, the encoder and the strict parser of the request protocol. -/
namespace Gateway

def maxJsonDepth : ℕ := 32

def maxJsonNodes : ℕ := 20000

/-- A JSON value as the program holds it; a dict lists its fields in insertion order. -/
inductive Json where
  | null
  | bool (b : Bool)
  | int (n : ℤ)
  | decimal (d : Decimal)
  | string (s : Str)
  | list (items : List Json)
  | dict (fields : List (Str × Json))

namespace Json

/-- Induction with the hypothesis for every item and every field value. -/
@[elab_as_elim]
theorem induction {P : Json → Prop} (null : P .null) (bool : ∀ b, P (.bool b))
    (int : ∀ n, P (.int n)) (decimal : ∀ d, P (.decimal d)) (string : ∀ s, P (.string s))
    (list : ∀ items, (∀ v ∈ items, P v) → P (.list items))
    (dict : ∀ fields : List (Str × Json), (∀ f ∈ fields, P f.2) → P (.dict fields))
    (v : Json) : P v :=
  Json.rec (motive_2 := fun vs => ∀ v ∈ vs, P v) (motive_3 := fun fs => ∀ f ∈ fs, P f.2)
    (motive_4 := fun f => P f.2) null bool int decimal string list dict (by simp)
    (fun _ _ hv hvs => List.forall_mem_cons.mpr ⟨hv, hvs⟩) (by simp)
    (fun _ _ hf hfs => List.forall_mem_cons.mpr ⟨hf, hfs⟩) (fun _ _ hv => hv) v

mutual

/-- Whether two values are built alike, numbers digit by digit. -/
def equal : Json → Json → Bool
  | .null, .null => true
  | .bool a, .bool b => a = b
  | .int a, .int b => a = b
  | .decimal a, .decimal b => a = b
  | .string a, .string b => a = b
  | .list a, .list b => equalItems a b
  | .dict a, .dict b => equalFields a b
  | _, _ => false

def equalItems : List Json → List Json → Bool
  | [], [] => true
  | v :: vs, w :: ws => equal v w && equalItems vs ws
  | _, _ => false

def equalFields : List (Str × Json) → List (Str × Json) → Bool
  | [], [] => true
  | (k, v) :: vs, (l, w) :: ws => k = l && equal v w && equalFields vs ws
  | _, _ => false

end

theorem equal_iff {v w : Json} : equal v w = true ↔ v = w := by
  induction v using Json.induction generalizing w with
  | list items ih =>
    cases w <;> simp only [equal, reduceCtorEq, list.injEq, Bool.false_eq_true]
    rename_i ws
    induction items generalizing ws with
    | nil => cases ws <;> simp [equalItems]
    | cons v vs ihs =>
      rw [List.forall_mem_cons] at ih
      cases ws <;> simp [equalItems, ih.1, ihs ih.2]
  | dict fields ih =>
    cases w <;> simp only [equal, reduceCtorEq, dict.injEq, Bool.false_eq_true]
    rename_i ws
    induction fields generalizing ws with
    | nil => cases ws <;> simp [equalFields]
    | cons f fs ihs =>
      rw [List.forall_mem_cons] at ih
      obtain ⟨k, v⟩ := f
      cases ws <;> simp [equalFields, ih.1, ihs ih.2, Prod.ext_iff]
  | _ => cases w <;> simp [equal]

instance : DecidableEq Json := fun _ _ => decidable_of_iff _ equal_iff
/-- `dict.get`. -/
def get (fields : List (Str × Json)) (key : Str) : Option Json :=
  (fields.find? (fun f => f.1 = key)).map Prod.snd

def keys (fields : List (Str × Json)) : List Str := fields.map Prod.fst

/-- `sorted` on the keys of what a dict holds. -/
def sortFields {α : Type*} (fields : List (Str × α)) : List (Str × α) :=
  fields.insertionSort (fun f g => f.1 ≤ g.1)

end Json

/-! Encoding. -/

/-- Members in writing order; the first one that cannot be encoded raises. -/
def encodeMembers (fields : List (Str × Except JsonError Str)) : Except JsonError (List Str) :=
  fields.mapM (fun f => f.2.map (fun text => JsonText.quote f.1 ++ str ":" ++ text))

mutual

/-- `_encode_json`. -/
def encodeJson (sortKeys : Bool) : Json → Except JsonError Str
  | .null => .ok (str "null")
  | .bool b => .ok (if b then str "true" else str "false")
  | .int n => encodeJsonNumber (.ofInt n)
  | .decimal d => encodeJsonNumber d
  | .string s => .ok (JsonText.quote s)
  | .list items => do
    let parts ← encodeItems sortKeys items
    return str "[" ++ JsonText.joinComma parts ++ str "]"
  | .dict fields => do
    let members := encodeFields sortKeys fields
    let parts ← encodeMembers (if sortKeys then Json.sortFields members else members)
    return str "\x7b" ++ JsonText.joinComma parts ++ str "\x7d"

def encodeItems (sortKeys : Bool) : List Json → Except JsonError (List Str)
  | [] => .ok []
  | v :: vs => do
    let part ← encodeJson sortKeys v
    let parts ← encodeItems sortKeys vs
    return part :: parts

/-- What each value of a dict would be written as; nothing raises before its turn comes. -/
def encodeFields (sortKeys : Bool) : List (Str × Json) → List (Str × Except JsonError Str)
  | [] => []
  | (key, v) :: fields => (key, encodeJson sortKeys v) :: encodeFields sortKeys fields

end

/-- `str.encode("utf-8")`. -/
def encodeUtf8 (s : Str) : Except JsonError Bytes :=
  if Scalars s then .ok (utf8 s) else .error .libraryValueError

def encodeJsonBytes (value : Json) (sortKeys : Bool) : Except JsonError Bytes := do
  let text ← encodeJson sortKeys value
  encodeUtf8 text

/-! Parsing. -/

/-- `_validate_json_shape`: the stack, and how many more nodes the limit allows. -/
def validateShape : ℕ → List (Json × ℕ) → Except JsonError Unit
  | _, [] => .ok ()
  | 0, _ :: _ => .error (.valueError "response_schema exceeds its node limit")
  | nodes + 1, (current, depth) :: stack =>
    if maxJsonDepth < depth then .error (.valueError "response_schema exceeds its depth limit")
    else
      match current with
      | .dict fields =>
        validateShape nodes ((fields.map (fun f => (f.2, depth + 1))).reverse ++ stack)
      | .list items =>
        validateShape nodes ((items.map (fun v => (v, depth + 1))).reverse ++ stack)
      | _ => validateShape nodes stack

def validateJsonShape (value : Json) : Except JsonError Unit := validateShape maxJsonNodes [(value, 1)]

/-- `parse_json_object_pairs`. -/
def parseJsonObjectPairs (pairs : List (Str × Json)) : Except JsonError Json :=
  if (Json.keys pairs).Nodup then .ok (.dict pairs)
  else .error (.valueError "duplicate JSON object key is not supported")

/-- `_reject_json_constant`. -/
def rejectJsonConstant (value : Str) : Except JsonError Json := .error (.nonFiniteConstant value)

/-- The hooks every `json.loads` of the gateway is given. -/
def jsonHooks : JsonHooks Json JsonError where
  null := .null
  bool := .bool
  string := .string
  array := .list
  integer := fun t => (parseJsonInteger t).map .int
  float := fun t => (parseExactJsonDecimal t.toDecimal).map .decimal
  constant := rejectJsonConstant
  objectPairs := parseJsonObjectPairs
  decodeError := .libraryValueError
  recursionError := .recursionError

/-- `json.loads` with the gateway's hooks; `recursionLimit` is how deep the interpreter goes. -/
def loads (recursionLimit : ℕ) (raw : Bytes) : Except JsonError Json :=
  jsonLoads jsonHooks .libraryValueError recursionLimit raw

/-- `except (UnicodeDecodeError, ValueError, RecursionError)`. -/
def JsonError.caught : JsonError → Bool
  | .overflow => false
  | _ => true

def parseJsonObject (recursionLimit : ℕ) (raw : Bytes) : Except JsonError Json :=
  match loads recursionLimit raw with
  | .error e => .error (if e.caught then .valueError "request body is not valid JSON" else e)
  | .ok value =>
    match value with
    | .dict fields => do
      validateJsonShape (.dict fields)
      return .dict fields
    | _ => .error (.valueError "request body must be a JSON object")

/-! Which values a parsed document holds, and when two of them are the same. -/

namespace Json

mutual

/-- Numbers as the parser accepts them, text that UTF-8 can carry, keys without repetition. -/
def Parsed : Json → Prop
  | .int n => (Decimal.ofInt n).magnitude ≤ acceptBound
  | .decimal d => d.Constructible ∧ d.magnitude ≤ acceptBound
  | .string s => Scalars s
  | .list items => ParsedItems items
  | .dict fields => (keys fields).Nodup ∧ ParsedFields fields
  | _ => True

def ParsedItems : List Json → Prop
  | [] => True
  | v :: vs => Parsed v ∧ ParsedItems vs

def ParsedFields : List (Str × Json) → Prop
  | [] => True
  | (key, v) :: fields => Scalars key ∧ Parsed v ∧ ParsedFields fields

end

mutual

def decParsed : (v : Json) → Decidable (Parsed v)
  | .null | .bool _ => .isTrue trivial
  | .int _ => inferInstanceAs (Decidable (_ ≤ _))
  | .decimal _ => inferInstanceAs (Decidable (_ ∧ _))
  | .string _ => inferInstanceAs (Decidable (Scalars _))
  | .list items => decParsedItems items
  | .dict fields => @instDecidableAnd _ _ inferInstance (decParsedFields fields)

def decParsedItems : (items : List Json) → Decidable (ParsedItems items)
  | [] => .isTrue trivial
  | v :: vs => @instDecidableAnd _ _ (decParsed v) (decParsedItems vs)

def decParsedFields : (fields : List (Str × Json)) → Decidable (ParsedFields fields)
  | [] => .isTrue trivial
  | (_, v) :: fields =>
    @instDecidableAnd _ _ inferInstance (@instDecidableAnd _ _ (decParsed v) (decParsedFields fields))

end

instance (v : Json) : Decidable (Parsed v) := decParsed v

/-- The rational a number denotes; nothing else has one. -/
def number? : Json → Option ℚ
  | .int n => some n
  | .decimal d => some d.toRat
  | _ => none

/-- Equal up to the order of object keys, with leaves related by `R`. -/
inductive Alike (R : Json → Json → Prop) : Json → Json → Prop
  | leaf {v w : Json} (h : R v w) : Alike R v w
  | list {vs ws : List Json} (h : List.Forall₂ (Alike R) vs ws) : Alike R (.list vs) (.list ws)
  | dict {fs gs gs' : List (Str × Json)} (hperm : gs'.Perm gs) (hkeys : keys fs = keys gs')
      (h : List.Forall₂ (Alike R) (fs.map Prod.snd) (gs'.map Prod.snd)) :
      Alike R (.dict fs) (.dict gs)

/-- Scalars of one kind and value; numbers by value, booleans never numbers. -/
inductive SameScalar : Json → Json → Prop
  | null : SameScalar .null .null
  | bool (b : Bool) : SameScalar (.bool b) (.bool b)
  | number {v w : Json} {q : ℚ} (hv : v.number? = some q) (hw : w.number? = some q) :
      SameScalar v w
  | string (s : Str) : SameScalar (.string s) (.string s)

/-- Equal up to the order of object keys and the spelling of numbers. -/
abbrev Same : Json → Json → Prop := Alike SameScalar

/-- Equal up to the order of object keys alone. -/
abbrev Reordered : Json → Json → Prop := Alike Eq

end Json

end Gateway
