import Gateway.Contracts.Schema

/-! The grammar of admitted schemas, stated without any order of visits. -/
namespace Gateway

open Json (get keys)

variable {names : Option (List Str)} {fields : List (Str × Json)}

/-! Where a schema has subschemas. -/

def propertyChildren (fields : List (Str × Json)) : List Json :=
  match get fields (str "properties") with
  | some (.dict properties) => properties.map Prod.snd
  | _ => []

/-- `items` counts as a subschema in an array only. -/
def itemChildren (fields : List (Str × Json)) : List Json :=
  if hasText fields (str "type") (str "array") then (get fields (str "items")).toList else []

def branchChildren (fields : List (Str × Json)) : List Json :=
  match get fields (str "anyOf") with
  | some (.list branches) => branches
  | _ => []

/-- A reference node, where the document owns definitions. -/
def isReference (names : Option (List Str)) (fields : List (Str × Json)) : Bool :=
  names.isSome && (get fields (str "$ref")).isSome

theorem mem_of_get {key : Str} {v : Json} (h : get fields key = some v) : (key, v) ∈ fields := by
  obtain ⟨f, hf, rfl⟩ := Option.map_eq_some_iff.mp h
  obtain rfl : f.1 = key := by simpa using List.find?_some hf
  exact List.mem_of_find?_eq_some hf

/-- A subschema sits under a field of its node. -/
theorem child_below {c : Json}
    (h : c ∈ propertyChildren fields ∨ c ∈ itemChildren fields ∨ c ∈ branchChildren fields) :
    ∃ f ∈ fields, c = f.2 ∨ (∃ vs, f.2 = .list vs ∧ c ∈ vs) ∨
      ∃ fs, f.2 = .dict fs ∧ ∃ g ∈ fs, c = g.2 := by
  rcases h with h | h | h
  · unfold propertyChildren at h
    split at h
    · rename_i properties hget
      obtain ⟨g, hg, rfl⟩ := List.mem_map.mp h
      exact ⟨_, mem_of_get hget, .inr (.inr ⟨properties, rfl, g, hg, rfl⟩)⟩
    · simp at h
  · unfold itemChildren at h
    split_ifs at h
    · exact ⟨_, mem_of_get (Option.mem_toList.mp h), .inl rfl⟩
    · simp at h
  · unfold branchChildren at h
    split at h
    · rename_i branches hget
      exact ⟨_, mem_of_get hget, .inr (.inl ⟨branches, rfl, h⟩)⟩
    · simp at h

theorem sizeOf_child {c : Json}
    (h : c ∈ propertyChildren fields ∨ c ∈ itemChildren fields ∨ c ∈ branchChildren fields) :
    sizeOf c < sizeOf (Json.dict fields) := by
  obtain ⟨⟨key, v⟩, hf, h⟩ := child_below h
  have hv := List.sizeOf_lt_of_mem hf
  simp only [Prod.mk.sizeOf_spec] at hv
  rcases h with rfl | ⟨vs, hvs, hc⟩ | ⟨fs, hfs, ⟨k, w⟩, hg, rfl⟩
  · simp only [Json.dict.sizeOf_spec]
    omega
  · have hc' := List.sizeOf_lt_of_mem hc
    simp only at hvs
    rw [hvs] at hv
    simp only [Json.list.sizeOf_spec] at hv
    simp only [Json.dict.sizeOf_spec]
    omega
  · have hg' := List.sizeOf_lt_of_mem hg
    simp only at hfs
    rw [hfs] at hv
    simp only [Json.dict.sizeOf_spec, Prod.mk.sizeOf_spec] at hv hg' ⊢
    omega

/-- A number summed over the subschemas: one for a reference, items weighted, branches combined. -/
def tally (names : Option (List Str)) (weight : List (Str × Json) → ℕ) (combine : List ℕ → ℕ) :
    Json → ℕ
  | .dict fields =>
    if isReference names fields then 1
    else
      ((propertyChildren fields).attach.map (fun c => tally names weight combine c.1)).sum +
        weight fields *
          ((itemChildren fields).attach.map (fun c => tally names weight combine c.1)).sum +
        combine ((branchChildren fields).attach.map (fun c => tally names weight combine c.1))
  | _ => 0
termination_by v => sizeOf v
decreasing_by
  · exact sizeOf_child (.inl c.2)
  · exact sizeOf_child (.inr (.inl c.2))
  · exact sizeOf_child (.inr (.inr c.2))

theorem tally_dict (weight : List (Str × Json) → ℕ) (combine : List ℕ → ℕ) :
    tally names weight combine (.dict fields) =
      if isReference names fields then 1
      else
        ((propertyChildren fields).map (tally names weight combine)).sum +
          weight fields * ((itemChildren fields).map (tally names weight combine)).sum +
          combine ((branchChildren fields).map (tally names weight combine)) := by
  rw [tally]
  simp only [List.map_attach_eq_pmap, List.pmap_eq_map]

/-- Reference nodes, every physical one counted. -/
def referenceCount (names : Option (List Str)) : Json → ℕ := tally names (fun _ => 1) List.sum

/-- The `maxItems` of an array. -/
def arrayBound (fields : List (Str × Json)) : ℕ :=
  ((get fields (str "maxItems")).bind Json.asInt?).elim 0 Int.toNat

/-- Passages one answer can hold: properties together, array items often, the dearest branch. -/
def passageCost (names : Option (List Str)) : Json → ℕ :=
  tally names arrayBound (fun values => values.foldr max 0)

/-! The rules for one node. -/

/-- A closed object branch. -/
def ClosedObject (v : Json) : Prop :=
  ∃ fields, v = .dict fields ∧ get fields (str "type") = some (.string (str "object")) ∧
    get fields (str "additionalProperties") = some (.bool false)

/-- Nothing but `anyOf` with 2 to 64 closed object branches. -/
def ClosedChoice (fields : List (Str × Json)) : Prop :=
  (∀ k, k ∈ keys fields ↔ k = str "anyOf") ∧
    ∃ branches, get fields (str "anyOf") = some (.list branches) ∧
      2 ≤ branches.length ∧ branches.length ≤ maxSchemaObjectChoices ∧
      ∀ b ∈ branches, ClosedObject b

/-- The type `null` and nothing more. -/
def NullBranch (v : Json) : Prop := v = .dict [(str "type", .string (str "null"))]

/-- Two alternatives, one of them exactly null and the other of a type that is not. -/
def NullableUnion (v : Json) : Prop :=
  ∃ a b, (v = .list [a, b] ∨ v = .list [b, a]) ∧ NullBranch a ∧
    ∃ fields t, b = .dict fields ∧ get fields (str "type") = some (.string t) ∧ t ≠ str "null"

/-- An array states its item schema and its bounds. -/
structure ArrayRules (fields : List (Str × Json)) : Prop where
  items : ∃ item, get fields (str "items") = some (.dict item)
  bounds : ∃ n : ℕ, get fields (str "maxItems") = some (.int n) ∧ n ≤ maxSchemaArrayItems ∧
    ∀ v, getNonNull fields (str "minItems") = some v → ∃ m : ℕ, v = .int m ∧ m ≤ n

/-- What every schema node obeys that is no reference. -/
structure PlainNode (fields : List (Str × Json)) (nullable root : Bool) : Prop where
  keywords : ∀ k ∈ keys fields, k ∈ supportedSchemaKeywords
  type : ∀ v, getNonNull fields (str "type") = some v → ∃ t ∈ supportedSchemaTypes, v = .string t
  additional : ∀ v, getNonNull fields (str "additionalProperties") = some v → ∃ b, v = .bool b
  array : hasText fields (str "type") (str "array") → ArrayRules fields
  notArray : ¬ hasText fields (str "type") (str "array") →
    ∀ k ∈ [str "items", str "minItems", str "maxItems"], getNonNull fields k = none
  enum : ∀ v, getNonNull fields (str "enum") = some v → ∃ items, v = .list items ∧
    1 ≤ items.length ∧ items.length ≤ maxSchemaEnumValues ∧ ∀ i ∈ items, i.isContainer = false
  bounds : ∀ k ∈ [str "minimum", str "maximum"], ∀ v, getNonNull fields k = some v → ∃ n, v = .int n
  anyOf : ∀ v, getNonNull fields (str "anyOf") = some v →
    (root = true ∧ ClosedChoice fields) ∨ (nullable = true ∧ NullableUnion v)

/-- A reference is one key naming an owned definition. -/
def ReferenceNode (names : List Str) (fields : List (Str × Json)) : Prop :=
  (∀ k, k ∈ keys fields ↔ k = str "$ref") ∧
    ∃ name ∈ names, get fields (str "$ref") = some (.string (referencePrefix ++ name))

/-- A place in the schema, and which forms of `anyOf` it may hold. -/
structure Position where
  schema : Json
  nullable : Bool
  root : Bool

/-- From a node to its subschemas. -/
inductive Child : Position → Position → Prop
  | property {fields nullable root c} (h : c ∈ propertyChildren fields) :
      Child ⟨.dict fields, nullable, root⟩ ⟨c, nullable, false⟩
  | item {fields nullable root c} (h : c ∈ itemChildren fields) :
      Child ⟨.dict fields, nullable, root⟩ ⟨c, nullable, false⟩
  | choice {fields nullable c} (hc : ClosedChoice fields) (h : c ∈ branchChildren fields) :
      Child ⟨.dict fields, nullable, true⟩ ⟨c, true, false⟩
  | union {fields nullable root c} (hc : ¬ (root = true ∧ ClosedChoice fields))
      (h : c ∈ branchChildren fields) : Child ⟨.dict fields, nullable, root⟩ ⟨c, false, false⟩

/-- A node is an owned reference, or a schema within the supported keywords. -/
def NodeOk (names : Option (List Str)) (p : Position) : Prop :=
  ∃ fields, p.schema = .dict fields ∧
    if isReference names fields then ∃ owned, names = some owned ∧ ReferenceNode owned fields
    else PlainNode fields p.nullable p.root

/-- Every node reachable from this one obeys the rules. -/
def AllOk (names : Option (List Str)) (p : Position) : Prop :=
  ∀ q, Relation.ReflTransGen Child p q → NodeOk names q

theorem allOk_iff {p : Position} :
    AllOk names p ↔ NodeOk names p ∧ ∀ c, Child p c → AllOk names c := by
  constructor
  · intro h
    exact ⟨h p .refl, fun c hc q hq => h q (.head hc hq)⟩
  · rintro ⟨hp, hc⟩ q hq
    rcases Relation.ReflTransGen.cases_head hq with rfl | ⟨c, hpc, hcq⟩
    · exact hp
    · exact hc c hpc q hcq

/-! Definitions and the whole schema. -/

/-- A named leaf: the type `string` and an enumeration of bounded, distinct strings. -/
def PassageLeaf (v : Json) : Prop :=
  ∃ (fields : List (Str × Json)) (texts : List Str), v = .dict fields ∧
    (∀ k, k ∈ keys fields ↔ k = str "type" ∨ k = str "enum") ∧
    get fields (str "type") = some (.string (str "string")) ∧
    get fields (str "enum") = some (.list (texts.map Json.string)) ∧
    1 ≤ texts.length ∧ texts.length ≤ maxPassageEnumValues ∧
    (∀ s ∈ texts, 1 ≤ s.length ∧ s.length ≤ maxPassageCharacters) ∧ texts.Nodup

/-- One or two leaves under identifier names. -/
def PassageDefinitions (v : Json) : Prop :=
  ∃ leaves : List (Str × Json), v = .dict leaves ∧ 1 ≤ leaves.length ∧
    leaves.length ≤ maxPassageDefinitions ∧ ∀ f ∈ leaves, passageName f.1 ∧ PassageLeaf f.2

def withoutDefinitions (schema : List (Str × Json)) : List (Str × Json) :=
  schema.filter (fun f => f.1 ≠ str "$defs")

/-- The names the document owns, if it has definitions. -/
def ownedNames (schema : List (Str × Json)) : Option (List Str) :=
  (get schema (str "$defs")).map (fun v => keys (v.asDict?.getD []))

/-- The grammar of an admitted schema. -/
structure Admitted (schema : List (Str × Json)) : Prop where
  bytes : ∀ b, encodeJsonBytes (.dict schema) true = .ok b → b.length ≤ maxSchemaBytes
  nodes : Json.nodes (.dict schema) ≤ maxJsonNodes
  depth : Json.height (.dict schema) ≤ maxJsonDepth
  root : get schema (str "type") = some (.string (str "object")) ∨
    ClosedChoice (withoutDefinitions schema)
  definitions : ∀ v, get schema (str "$defs") = some v → PassageDefinitions v
  reachable : AllOk (ownedNames schema) ⟨.dict (withoutDefinitions schema), true, true⟩
  references : referenceCount (ownedNames schema) (.dict (withoutDefinitions schema)) ≤
    maxPassageReferences
  budget : passageCost (ownedNames schema) (.dict (withoutDefinitions schema)) ≤ maxPassageValues

end Gateway
