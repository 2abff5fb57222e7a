import Gateway.Contracts.RoundTrip

/-! The admission of a response schema: definitions, the recursive validator, the root. -/
namespace Gateway

open Json (get keys)

def maxSchemaBytes : ℕ := 250000
def maxSchemaEnumValues : ℕ := 100
def maxSchemaArrayItems : ℕ := 100
def maxSchemaObjectChoices : ℕ := 64
def maxPassageDefinitions : ℕ := 2
def maxPassageEnumValues : ℕ := 8192
def maxPassageCharacters : ℕ := 4096
def maxPassageReferences : ℕ := 16
def maxPassageValues : ℕ := 32

def supportedSchemaTypes : List Str :=
  [str "array", str "boolean", str "integer", str "null", str "number", str "object", str "string"]

def supportedSchemaKeywords : List Str :=
  [str "additionalProperties", str "anyOf", str "default", str "enum", str "items",
    str "maxLength", str "maxItems", str "maximum", str "minLength", str "minItems",
    str "minimum", str "properties", str "required", str "title", str "type"]

/-- `dict.get(key)` where an absent key and `None` are not told apart. -/
def getNonNull (fields : List (Str × Json)) (key : Str) : Option Json :=
  match get fields key with
  | some .null => none
  | value => value

def isIdentifierStart (c : ℕ) : Bool := (65 ≤ c && c ≤ 90) || (97 ≤ c && c ≤ 122) || c = 95

/-- `PASSAGE_NAME_RE.fullmatch`. -/
def passageName (name : Str) : Bool :=
  match name with
  | [] => false
  | c :: rest =>
    isIdentifierStart c && rest.all (fun c => isIdentifierStart c || JsonText.isDigit c) &&
      rest.length ≤ 63

namespace Json

def asString? : Json → Option Str
  | .string s => some s
  | _ => none

def asDict? : Json → Option (List (Str × Json))
  | .dict fields => some fields
  | _ => none

def asList? : Json → Option (List Json)
  | .list items => some items
  | _ => none

/-- `type(value) is int`. -/
def asInt? : Json → Option ℤ
  | .int n => some n
  | _ => none

def isBool : Json → Bool
  | .bool _ => true
  | _ => false

def isContainer : Json → Bool
  | .list _ => true
  | .dict _ => true
  | _ => false

/-- `item == {"type": "null"}`. -/
def isNullBranch : Json → Bool
  | .dict [(key, .string s)] => key = str "type" && s = str "null"
  | _ => false

end Json

/-- `schema.get(key) == text`. -/
def hasText (fields : List (Str × Json)) (key text : Str) : Bool :=
  (get fields key).bind Json.asString? = some text

/-- A dict of type `object` that is closed to further properties. -/
def closedObject (branch : Json) : Bool :=
  match branch with
  | .dict fields =>
    hasText fields (str "type") (str "object") &&
      (match get fields (str "additionalProperties") with
        | some (.bool b) => !b
        | _ => false)
  | _ => false

/-- `set(schema) == names`. -/
def keysAre (fields : List (Str × Json)) (names : List Str) : Bool :=
  (keys fields).all (· ∈ names) && names.all (· ∈ keys fields)

def isBoundedRootObjectChoice (schema : List (Str × Json)) : Bool :=
  keysAre (schema.filter (fun f => f.1 ≠ str "$defs")) [str "anyOf"] &&
    match get schema (str "anyOf") with
    | some (.list alternatives) =>
      2 ≤ alternatives.length && alternatives.length ≤ maxSchemaObjectChoices &&
        alternatives.all closedObject
    | _ => false

def usesPassageDefinitions (schema : List (Str × Json)) : Bool := (get schema (str "$defs")).isSome

/-- A list of bounded, distinct strings. -/
def boundedTexts (enum : Json) : Bool :=
  match enum with
  | .list values =>
    let texts := values.filterMap Json.asString?
    1 ≤ values.length ∧ values.length ≤ maxPassageEnumValues ∧ texts.length = values.length ∧
      (∀ s ∈ texts, 1 ≤ s.length ∧ s.length ≤ maxPassageCharacters) ∧ texts.Nodup
  | _ => false

/-- Exactly the type `string` and an `enum`. -/
def stringEnumLeaf (definition : Json) : Bool :=
  match definition with
  | .dict fields =>
    keysAre fields [str "type", str "enum"] && hasText fields (str "type") (str "string")
  | _ => false

/-- The checks on one definition, in the order they are made. -/
def checkDefinition (name : Str) (definition : Json) : Except JsonError Unit :=
  if !passageName name then
    .error (.valueError "response_schema passage name must be an ASCII identifier")
  else if !stringEnumLeaf definition then
    .error (.valueError "response_schema passage definitions must be string-enum leaves")
  else if !((definition.asDict?.bind (get · (str "enum"))).any boundedTexts) then
    .error (.valueError "response_schema passage enum must contain bounded unique strings")
  else .ok ()

def checkDefinitions : List (Str × Json) → Except JsonError Unit
  | [] => .ok ()
  | (name, definition) :: rest => do
    checkDefinition name definition
    checkDefinitions rest

/-- `_passage_definitions`; the names are all that is used of what it returns. -/
def passageDefinitions (schema : List (Str × Json)) : Except JsonError (Option (List Str)) :=
  match get schema (str "$defs") with
  | none => .ok none
  | some definitions =>
    let refused := .error (.valueError "response_schema requires bounded root passage definitions")
    if !hasText schema (str "type") (str "object") && !isBoundedRootObjectChoice schema then refused
    else
      match definitions with
      | .dict fields =>
        if 1 ≤ fields.length ∧ fields.length ≤ maxPassageDefinitions then do
          checkDefinitions fields
          return some (keys fields)
        else refused
      | _ => refused

/-- The validator's state is the reference counter. -/
abbrev Validation := StateT ℕ (Except JsonError)

def raise {α : Type} (error : JsonError) : Validation α := StateT.lift (.error error)

/-- `if not accepted: raise ValueError(message)`. -/
def ensure (accepted : Bool) (message : String) : Validation Unit :=
  if accepted then pure () else raise (.valueError message)

/-- A value that may be missing, and must pass where it is there. -/
def checkField (value : Option Json) (accepted : Json → Bool) (message : String) :
    Validation Unit :=
  ensure (value.all accepted) message

/-- The value a check has made sure of. -/
def demand {α : Type} (value : Option α) (message : String) : Validation α :=
  match value with
  | some a => pure a
  | none => raise (.valueError message)

/-- `"#/$defs/"`. -/
def referencePrefix : Str := str "#/$defs/"

/-- The definition a reference names. -/
def referenceTarget (reference : Str) : Option Str :=
  if referencePrefix.isPrefixOf reference then some (reference.drop referencePrefix.length) else none

/-- One more reference, up to the limit. -/
def countReference : Validation Unit := do
  let references ← getThe ℕ
  set (references + 1)
  ensure (references + 1 ≤ maxPassageReferences)
    "response_schema exceeds its passage reference limit"

/-- One `$ref` node: exact form, owned target, and one more towards the limit. -/
def validateReference (names : List Str) (schema : List (Str × Json)) (multiplicity : ℕ) :
    Validation ℕ := do
  let target := ((get schema (str "$ref")).bind Json.asString?).bind referenceTarget
  ensure (keysAre schema [str "$ref"] && target.any (· ∈ names))
    "response_schema reference must select one owned passage definition"
  countReference
  return multiplicity

/-- The values of the children in order, each of which must be a dict. -/
def validateChildren (validate : List (Str × Json) → Validation ℕ) (message : String) :
    List Json → Validation (List ℕ)
  | [] => return []
  | child :: rest => do
    let fields ← demand child.asDict? message
    let values ← validate fields
    let others ← validateChildren validate message rest
    return values :: others

/-- `sorted(unsupported)[0]`. -/
def firstUnsupported (schema : List (Str × Json)) : Option Str :=
  (((keys schema).filter (fun k => k ∉ supportedSchemaKeywords)).insertionSort (· ≤ ·)).head?

def validateKeywords (schema : List (Str × Json)) : Validation Unit :=
  match firstUnsupported schema with
  | some keyword => raise (.unsupportedKeyword keyword)
  | none => pure ()

def validateType (schema : List (Str × Json)) : Validation Unit :=
  checkField (getNonNull schema (str "type"))
    (fun value => value.asString?.any (· ∈ supportedSchemaTypes))
    "response_schema uses an unsupported type"

def validateAdditional (schema : List (Str × Json)) : Validation Unit :=
  checkField (getNonNull schema (str "additionalProperties")) Json.isBool
    "response_schema additionalProperties must be boolean"

/-- The item schema of an array and its `maxItems`. -/
def validateArrayBounds (schema : List (Str × Json)) : Validation (List (Str × Json) × ℕ) := do
  let itemSchema ← demand ((get schema (str "items")).bind Json.asDict?)
    "response_schema arrays must contain one item schema"
  let maxItems ← demand ((get schema (str "maxItems")).bind Json.asInt?)
    "response_schema arrays must have a bounded maxItems"
  ensure (0 ≤ maxItems && maxItems ≤ maxSchemaArrayItems)
    "response_schema arrays must have a bounded maxItems"
  checkField (getNonNull schema (str "minItems"))
    (fun value => value.asInt?.any (fun n => 0 ≤ n && n ≤ maxItems))
    "response_schema array minItems is invalid"
  return (itemSchema, maxItems.toNat)

def validateNoArray (schema : List (Str × Json)) : Validation Unit :=
  ensure ([str "items", str "minItems", str "maxItems"].all
    (fun keyword => (getNonNull schema keyword).isNone))
    "response_schema array keywords require array type"

def validateEnum (schema : List (Str × Json)) : Validation Unit :=
  checkField (getNonNull schema (str "enum"))
    (fun value => value.asList?.any (fun enum => 1 ≤ enum.length &&
      enum.length ≤ maxSchemaEnumValues && enum.all (fun item => !item.isContainer)))
    "response_schema enum must contain bounded scalar values"

def validateBound (schema : List (Str × Json)) (keyword : Str) : Validation Unit :=
  checkField (getNonNull schema keyword) (fun value => value.asInt?.isSome)
    "response_schema numeric bounds must be integers"

/-- The type of the first alternative that is not exactly null. -/
def branchType (branches : List Json) : Option Str :=
  ((branches.find? (fun item => !item.isNullBranch)).bind Json.asDict?).bind
    (fun fields => (get fields (str "type")).bind Json.asString?)

/-- The two alternatives of a nullable union, one of them exactly the null type. -/
def validateNullable (allowNullableAnyOf : Bool) (alternatives : Json) : Validation (List Json) := do
  let branches ← demand alternatives.asList?
    "response_schema anyOf must be one bounded nullable union"
  ensure (allowNullableAnyOf && branches.length = 2)
    "response_schema anyOf must be one bounded nullable union"
  ensure ((branches.filter Json.isNullBranch).length = 1)
    "response_schema anyOf must contain one null branch"
  ensure ((branchType branches).any (· ≠ str "null"))
    "response_schema anyOf must contain one typed non-null branch"
  return branches

/-- What a root choice needs before its branches are read. -/
def validateChoice (schema : List (Str × Json)) (alternatives : Json) : Validation (List Json) := do
  ensure (isBoundedRootObjectChoice schema)
    "response_schema root choice must contain 2 through 64 closed object branches"
  return alternatives.asList?.getD []

/-- A validator for subschemas: schema, multiplicity, nullable `anyOf`, root choice. -/
abbrev Validator := List (Str × Json) → ℕ → Bool → Bool → Validation ℕ

section Parts

variable (validate : Validator) (schema : List (Str × Json)) (multiplicity : ℕ)

def validateProperties (allowNullableAnyOf : Bool) : Validation (List ℕ) :=
  validateChildren (fun child => validate child multiplicity allowNullableAnyOf false)
    "response_schema properties must contain schemas"
    (match get schema (str "properties") with
      | some (.dict fields) => fields.map Prod.snd
      | _ => [])

def validateItems (allowNullableAnyOf : Bool) : Validation ℕ :=
  if hasText schema (str "type") (str "array") then do
    let (itemSchema, maxItems) ← validateArrayBounds schema
    validate itemSchema (multiplicity * maxItems) allowNullableAnyOf false
  else do
    validateNoArray schema
    return 0

/-- The values of the branches: of a root choice, or of a nullable union. -/
def validateAnyOf (allowNullableAnyOf allowRootObjectChoice : Bool) : Validation (List ℕ) :=
  match getNonNull schema (str "anyOf") with
  | none => return []
  | some alternatives => do
    let choice := allowRootObjectChoice && !(alternatives.asList?.any (·.any Json.isNullBranch))
    let branches ←
      if choice then validateChoice schema alternatives
      else validateNullable allowNullableAnyOf alternatives
    validateChildren (fun child => validate child multiplicity choice false)
      "response_schema anyOf must contain schemas" branches

/-- A schema that is no reference, its subschemas left to `validate`. -/
def validatePlain (allowNullableAnyOf allowRootObjectChoice : Bool) : Validation ℕ := do
  validateKeywords schema
  validateType schema
  let properties ← validateProperties validate schema multiplicity allowNullableAnyOf
  validateAdditional schema
  let items ← validateItems validate schema multiplicity allowNullableAnyOf
  validateEnum schema
  validateBound schema (str "minimum")
  validateBound schema (str "maximum")
  let branches ←
    validateAnyOf validate schema multiplicity allowNullableAnyOf allowRootObjectChoice
  return properties.sum + items + branches.foldr max 0

end Parts

/-- `_validate_supported_schema`; the fuel is the height of the tree, so it never runs out. -/
def validateSupportedSchema (names : Option (List Str)) : ℕ → Validator
  | 0, _, _, _, _ => raise .recursionError
  | fuel + 1, schema, multiplicity, allowNullableAnyOf, allowRootObjectChoice =>
    match names, get schema (str "$ref") with
    | some names, some _ => validateReference names schema multiplicity
    | _, _ =>
      validatePlain (validateSupportedSchema names fuel) schema multiplicity allowNullableAnyOf
        allowRootObjectChoice

/-- `if not accepted: raise ValueError(message)`, outside the validator. -/
def require (accepted : Bool) (message : String) : Except JsonError Unit :=
  if accepted then .ok () else .error (.valueError message)

/-- `Generation.validate_generation_shape` on the roles and the schema; `checkSchema` stands for
the metaschema check of the validation library. -/
def validateGenerationShape (checkSchema : Json → Bool) (roles : List Str)
    (schema : List (Str × Json)) : Except JsonError Unit := do
  require (roles = [str "system", str "user"])
    "messages must contain one system message followed by one user message"
  let schemaBytes ← encodeJsonBytes (.dict schema) true
  require (schemaBytes.length ≤ maxSchemaBytes) "response_schema exceeds its byte limit"
  validateJsonShape (.dict schema)
  let definitions ← passageDefinitions schema
  let root := schema.filter (fun f => f.1 ≠ str "$defs")
  let (passageValues, _) ←
    (validateSupportedSchema definitions (Json.height (.dict root)) root 1 true true).run 0
  require (passageValues ≤ maxPassageValues)
    "response_schema exceeds its passage comparison budget"
  require (checkSchema (.dict schema)) "response_schema is not valid JSON Schema"
  require (hasText schema (str "type") (str "object") || isBoundedRootObjectChoice schema)
    "response_schema root must be an object or one bounded closed-object choice"

end Gateway
