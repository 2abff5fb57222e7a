import Gateway.Contracts.Digest

/-! Decoder order: which schemas take it, and the projection that writes it. -/
namespace Gateway

open Json (get keys Parsed Same Alike FieldsRel)

/-! An admitted schema has dicts, lists and names where the metaschema asks for them; elsewhere
the readers below see nothing. -/

/-- `node.get("properties", {})`. -/
def nodeProperties (node : List (Str × Json)) : List (Str × Json) :=
  ((get node (str "properties")).bind Json.asDict?).getD []

/-- `node.get("required", [])`. -/
def requiredNames (node : List (Str × Json)) : List Str :=
  (((get node (str "required")).bind Json.asList?).getD []).filterMap Json.asString?

/-- `node.get("anyOf", [])`. -/
def nodeBranches (node : List (Str × Json)) : List Json :=
  ((get node (str "anyOf")).bind Json.asList?).getD []

/-- What a visit puts on the stack, in the order it is put there. -/
def nodeChildren (node : List (Str × Json)) : List Json :=
  (nodeProperties node).map Prod.snd ++ (get node (str "items")).toList ++ nodeBranches node

/-- `properties.keys() <= set(node.get("required", []))`. -/
def requiresAll (node : List (Str × Json)) : Bool :=
  (keys (nodeProperties node)).all (· ∈ requiredNames node)

/-- The loop over `pending`; the fuel is how many values are still below it. -/
def fieldOrderLoop : ℕ → List Json → Bool
  | 0, _ => true
  | _, [] => true
  | fuel + 1, .dict node :: pending =>
    if requiresAll node then fieldOrderLoop fuel ((nodeChildren node).reverse ++ pending) else false
  | fuel + 1, _ :: pending => fieldOrderLoop fuel pending

def usesDecoderFieldOrder (schema : List (Str × Json)) (task : Task) : Bool :=
  if usesPassageDefinitions schema then true
  else if task ≠ emailAnalyzeTask then false
  else fieldOrderLoop (Json.nodes (.dict schema)) [.dict schema]

/-- How a value is read: as data, as a schema, as the values of `properties` or `$defs` with the
names to put first, or as the alternatives of `anyOf`. -/
inductive Reading where
  | data
  | schema
  | members (required : List Str)
  | branches

/-- How the value under a key is read. -/
def Reading.field (r : Reading) (fields : List (Str × Json)) (key : Str) : Reading :=
  match r with
  | .schema =>
    if key = str "properties" then .members (requiredNames fields)
    else if key = str "$defs" then .members []
    else if key = str "items" then .schema
    else if key = str "anyOf" then .branches
    else .data
  | .members _ => .schema
  | _ => .data

def Reading.item (r : Reading) : Reading :=
  match r with
  | .branches => .schema
  | _ => .data

/-- The keys of the result in their order. -/
def Reading.names (r : Reading) (names : List Str) : List Str :=
  match r with
  | .members required => (required ++ names.insertionSort (· ≤ ·)).eraseDups
  | _ => names.insertionSort (· ≤ ·)

/-- `{name: fields[name] for name in names if name in fields}`. -/
def pick (names : List Str) (fields : List (Str × Json)) : List (Str × Json) :=
  names.filterMap (fun name => (get fields name).map (fun v => (name, v)))

mutual

/-- `ordered`, every branch of it under its reading. -/
def ordered (r : Reading) : Json → Json
  | .list items => .list (orderedItems r.item items)
  | .dict fields =>
    .dict (pick (r.names (keys fields)) (orderedFields (r.field fields) fields))
  | value => value

def orderedItems (r : Reading) : List Json → List Json
  | [] => []
  | v :: vs => ordered r v :: orderedItems r vs

def orderedFields (r : Str → Reading) : List (Str × Json) → List (Str × Json)
  | [] => []
  | (key, v) :: fields => (key, ordered (r key) v) :: orderedFields r fields

end

def decoderSchema (schema : List (Str × Json)) (task : Task) : Json :=
  if !usesDecoderFieldOrder schema task then .dict schema else ordered .schema (.dict schema)

theorem orderedItems_eq (r : Reading) (vs : List Json) : orderedItems r vs = vs.map (ordered r) := by
  induction vs with
  | nil => rfl
  | cons v vs ih => rw [orderedItems, ih, List.map_cons]

theorem orderedFields_eq (r : Str → Reading) (fs : List (Str × Json)) :
    orderedFields r fs = fs.map (fun f => (f.1, ordered (r f.1) f.2)) := by
  induction fs with
  | nil => rfl
  | cons f fs ih => rw [orderedFields, ih, List.map_cons]

end Gateway
