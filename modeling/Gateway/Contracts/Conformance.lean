import Gateway.Contracts.Grammar

/-! Conformance of a value to a schema: Draft 2020-12 over the keywords an admitted schema uses. -/
namespace Gateway

open Json (get keys)

namespace Json

/-- The elements of an array; nothing else has any. -/
def elements : Json → List Json
  | .list items => items
  | _ => []

/-- The member of an object under a name. -/
def member? (v : Json) (key : Str) : Option Json := v.asDict?.bind (get · key)

/-- A number without a fractional part, however it is written. -/
def isWhole (v : Json) : Bool := v.number?.any (·.den = 1)

/-- JSON equality of scalars: numbers by value, and no number is a boolean. -/
def equalsScalar (v w : Json) : Bool :=
  match v, w with
  | .null, .null => true
  | .bool a, .bool b => a = b
  | .string s, .string t => s = t
  | v, w => v.number?.isSome && v.number? = w.number?

end Json

section Keywords

variable (isInteger : Json → Bool)

/-- `type`. -/
def hasType (name : Str) (v : Json) : Bool :=
  if name = str "integer" then isInteger v
  else match v with
    | .null => name = str "null"
    | .bool _ => name = str "boolean"
    | .int _ | .decimal _ => name = str "number"
    | .string _ => name = str "string"
    | .list _ => name = str "array"
    | .dict _ => name = str "object"

/-- A bound on a quantity; no quantity, or no number to bound it by, and nothing is asked. -/
def bounds (quantity : Option ℚ) (relation : ℚ → ℚ → Bool) (limit : Json) : Bool :=
  match quantity, limit.number? with
  | some q, some n => relation n q
  | _, _ => true

def textLength (v : Json) : Option ℚ := v.asString?.map (fun s => s.length)

def itemCount (v : Json) : Option ℚ := v.asList?.map (fun items => items.length)

/-- What one keyword asks that looks no deeper than the value; `fields` is the schema around it. -/
def satisfies (resolve : Str → Json → Bool) (fields : List (Str × Json)) (keyword : Str)
    (argument v : Json) : Bool :=
  if keyword = str "type" then argument.asString?.all (hasType isInteger · v)
  else if keyword = str "enum" then argument.asList?.all (·.any (Json.equalsScalar · v))
  else if keyword = str "minimum" then bounds v.number? (fun n q => n ≤ q) argument
  else if keyword = str "maximum" then bounds v.number? (fun n q => q ≤ n) argument
  else if keyword = str "minLength" then bounds (textLength v) (fun n q => n ≤ q) argument
  else if keyword = str "maxLength" then bounds (textLength v) (fun n q => q ≤ n) argument
  else if keyword = str "minItems" then bounds (itemCount v) (fun n q => n ≤ q) argument
  else if keyword = str "maxItems" then bounds (itemCount v) (fun n q => q ≤ n) argument
  else if keyword = str "required" then
    v.asDict?.all (fun members => (argument.elements.filterMap Json.asString?).all
      (fun name => (get members name).isSome))
  else if keyword = str "additionalProperties" then
    match argument with
    | .bool false => v.asDict?.all (fun members => (keys members).all
        (fun name => (((get fields (str "properties")).bind (·.member? name)).isSome)))
    | _ => true
  else if keyword = str "$ref" then argument.asString?.all (resolve · v)
  else true

end Keywords

section Conforms

variable (isInteger : Json → Bool) (resolve : Str → Json → Bool)

mutual

/-- The value is valid against the schema; `resolve` answers for references. -/
def conforms : Json → Json → Bool
  | .bool b, _ => b
  | .dict fields, v => conformsFields fields fields v
  | _, _ => true

/-- The keywords of a schema, one after the other; the first argument is the whole schema. -/
def conformsFields (schema : List (Str × Json)) : List (Str × Json) → Json → Bool
  | [], _ => true
  | (keyword, argument) :: fields, v =>
    (if keyword = str "properties" then conformsProperties argument v
      else if keyword = str "items" then v.elements.all (fun item => conforms argument item)
      else if keyword = str "anyOf" then conformsAnyOf argument v
      else satisfies isInteger resolve schema keyword argument v) &&
    conformsFields schema fields v

def conformsProperties : Json → Json → Bool
  | .dict properties, v => conformsMembers properties v
  | _, _ => true

def conformsMembers : List (Str × Json) → Json → Bool
  | [], _ => true
  | (name, schema) :: properties, v =>
    (v.member? name).all (fun member => conforms schema member) && conformsMembers properties v

def conformsAnyOf : Json → Json → Bool
  | .list branches, v => conformsBranches branches v
  | _, _ => true

def conformsBranches : List Json → Json → Bool
  | [], _ => false
  | branch :: branches, v => conforms branch v || conformsBranches branches v

end

end Conforms

/-- A reference into the schema's own definitions; one that leads nowhere is satisfied by nothing.
The definitions of an admitted schema hold no references themselves. -/
def resolveIn (isInteger : Json → Bool) (schema : List (Str × Json)) (reference : Str) (v : Json) :
    Bool :=
  ((get schema (str "$defs")).bind Json.asDict?).any (fun definitions =>
    definitions.any (fun definition => reference = referencePrefix ++ definition.1 &&
      conforms isInteger (fun _ _ => false) definition.2 v))

/-- Valid against the whole schema document. -/
def conformsTo (isInteger : Json → Bool) (schema : List (Str × Json)) (v : Json) : Bool :=
  conforms isInteger (resolveIn isInteger schema) (.dict schema) v

/-! What each keyword asks, wherever it stands in the schema. -/

section Reading

variable {isInteger : Json → Bool} {resolve : Str → Json → Bool}
  {schema fields : List (Str × Json)} {v : Json}

/-- What one field of a schema asks. -/
def Asks (isInteger : Json → Bool) (resolve : Str → Json → Bool) (schema : List (Str × Json))
    (field : Str × Json) (v : Json) : Prop :=
  if field.1 = str "properties" then conformsProperties isInteger resolve field.2 v = true
  else if field.1 = str "items" then ∀ item ∈ v.elements, conforms isInteger resolve field.2 item = true
  else if field.1 = str "anyOf" then conformsAnyOf isInteger resolve field.2 v = true
  else satisfies isInteger resolve schema field.1 field.2 v = true

theorem conformsFields_iff : conformsFields isInteger resolve schema fields v = true ↔
    ∀ field ∈ fields, Asks isInteger resolve schema field v := by
  induction fields with
  | nil => simp [conformsFields]
  | cons field fields ih =>
    rw [conformsFields, Bool.and_eq_true, ih, List.forall_mem_cons]
    refine and_congr_left fun _ => ?_
    unfold Asks
    split_ifs <;> simp

theorem asks_properties {argument : Json} :
    Asks isInteger resolve schema (str "properties", argument) v ↔
      conformsProperties isInteger resolve argument v = true := by
  rw [Asks, if_pos rfl]

theorem asks_items {argument : Json} :
    Asks isInteger resolve schema (str "items", argument) v ↔
      ∀ item ∈ v.elements, conforms isInteger resolve argument item = true := by
  rw [Asks, if_neg (show str "items" ≠ str "properties" by decide), if_pos rfl]

theorem asks_anyOf {argument : Json} :
    Asks isInteger resolve schema (str "anyOf", argument) v ↔
      conformsAnyOf isInteger resolve argument v = true := by
  rw [Asks, if_neg (show str "anyOf" ≠ str "properties" by decide),
    if_neg (show str "anyOf" ≠ str "items" by decide), if_pos rfl]

theorem conformsMembers_iff {properties : List (Str × Json)} :
    conformsMembers isInteger resolve properties v = true ↔
      ∀ p ∈ properties, ∀ member, v.member? p.1 = some member →
        conforms isInteger resolve p.2 member = true := by
  induction properties with
  | nil => simp [conformsMembers]
  | cons p properties ih =>
    rw [conformsMembers, Bool.and_eq_true, ih, List.forall_mem_cons, Option.all_eq_true]

theorem conformsBranches_iff {branches : List Json} :
    conformsBranches isInteger resolve branches v = true ↔
      ∃ branch ∈ branches, conforms isInteger resolve branch v = true := by
  induction branches with
  | nil => simp [conformsBranches]
  | cons branch branches ih => simp [conformsBranches, ih]

theorem conforms_dict : conforms isInteger resolve (.dict fields) v = true ↔
    ∀ field ∈ fields, Asks isInteger resolve fields field v := by
  rw [conforms, conformsFields_iff]

end Reading

end Gateway
