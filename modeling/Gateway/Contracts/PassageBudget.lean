import Gateway.Contracts.Conformance
import Gateway.Contracts.Validator

/-! The passage budget bounds how often any valid value is checked against a shared leaf. -/
namespace Gateway

open Json (get keys)

variable {names : Option (List Str)} {fields : List (Str × Json)} {nullable root : Bool}
  {isInteger : Json → Bool} {resolve : Str → Json → Bool} {v : Json}

/-- A step into a value. -/
inductive ValueStep where
  | member (name : Str)
  | element (index : ℕ)
deriving DecidableEq

/-- A step into a schema. -/
inductive SchemaStep where
  | property (name : Str)
  | items
  | branch (index : ℕ)
deriving DecidableEq

/-- A position in the value with the node of the schema it is checked against. -/
structure Visit where
  position : List ValueStep
  node : List SchemaStep
deriving DecidableEq

def Visit.start : Visit := ⟨[], []⟩

def Visit.down (visit : Visit) (value : List ValueStep) (schema : SchemaStep) : Visit :=
  ⟨visit.position ++ value, visit.node ++ [schema]⟩

/-- Which branch is taken at an `anyOf`, by the place it is met at. -/
abbrev Choice := Visit → List Json → Json → ℕ

/-- The choice takes a branch that the value there satisfies, whenever there is one. -/
def Choice.Satisfied (isInteger : Json → Bool) (resolve : Str → Json → Bool) (choice : Choice) :
    Prop :=
  ∀ visit branches v, (∃ b ∈ branches, conforms isInteger resolve b v = true) →
    ∃ b, branches[choice visit branches v]? = some b ∧ conforms isInteger resolve b v = true

/-- The named subschemas of `properties`. -/
def namedProperties (fields : List (Str × Json)) : List (Str × Json) :=
  ((get fields (str "properties")).bind Json.asDict?).getD []

/-- The subschema of `items`, where the keyword stands. -/
def itemSchema (fields : List (Str × Json)) : List Json := (get fields (str "items")).toList

theorem propertyChildren_eq : propertyChildren fields = (namedProperties fields).map Prod.snd := by
  unfold propertyChildren namedProperties
  split
  · rename_i h
    simp [h, Json.asDict?]
  · rename_i h
    cases hget : get fields (str "properties") with
    | none => simp
    | some w => cases w <;> simp_all [Json.asDict?]

theorem sizeOf_get {key : Str} {c : Json} (h : get fields key = some c) :
    sizeOf c < sizeOf (Json.dict fields) := by
  have hf := List.sizeOf_lt_of_mem (mem_of_get h)
  simp only [Prod.mk.sizeOf_spec] at hf
  simp only [Json.dict.sizeOf_spec]
  omega

/-- Where the value is checked against a shared leaf: every reference node with every position it
is reached at, one branch being taken at each `anyOf`. -/
def passages (names : Option (List Str)) (choice : Choice) : Json → Visit → Json → List Visit
  | .dict fields, visit, v =>
    if isReference names fields then [visit]
    else
      (namedProperties fields).attach.flatMap (fun p => (v.member? p.1.1).toList.flatMap
        (passages names choice p.1.2 (visit.down [.member p.1.1] (.property p.1.1)))) ++
      (itemSchema fields).attach.flatMap (fun s => v.elements.zipIdx.flatMap (fun item =>
        passages names choice s.1 (visit.down [.element item.2] .items) item.1)) ++
      (let index := choice visit (branchChildren fields) v
        if h : index < (branchChildren fields).length then
          passages names choice (branchChildren fields)[index] (visit.down [] (.branch index)) v
        else [])
  | _, _, _ => []
termination_by schema => sizeOf schema
decreasing_by
  · exact sizeOf_child (.inl (propertyChildren_eq ▸ List.mem_map_of_mem p.2))
  · exact sizeOf_get (Option.mem_toList.mp s.2)
  · exact sizeOf_child (.inr (.inr (List.getElem_mem h)))

theorem flatMap_attach {α β : Type*} {l : List α} (f : α → List β) :
    l.attach.flatMap (fun x => f x.1) = l.flatMap f := by
  conv_rhs => rw [← List.attach_map_subtype_val l, List.flatMap_map]

theorem passages_dict (choice : Choice) (visit : Visit) :
    passages names choice (.dict fields) visit v =
      if isReference names fields then [visit]
      else
        (namedProperties fields).flatMap (fun p => (v.member? p.1).toList.flatMap
          (passages names choice p.2 (visit.down [.member p.1] (.property p.1)))) ++
        (itemSchema fields).flatMap (fun s => v.elements.zipIdx.flatMap (fun item =>
          passages names choice s (visit.down [.element item.2] .items) item.1)) ++
        ((branchChildren fields)[choice visit (branchChildren fields) v]?.elim [] (fun b =>
          passages names choice b
            (visit.down [] (.branch (choice visit (branchChildren fields) v))) v)) := by
  rw [passages]
  have hbranch : ∀ (branches : List Json) (f : ℕ → Json → List Visit) (i : ℕ),
      (if h : i < branches.length then f i branches[i] else []) = branches[i]?.elim [] (f i) := by
    intro branches f i
    split_ifs with h
    · simp [h]
    · simp [List.getElem?_eq_none (not_lt.mp h)]
  simp only [flatMap_attach (fun p : Str × Json => (v.member? p.1).toList.flatMap
      (passages names choice p.2 (visit.down [.member p.1] (.property p.1)))),
    flatMap_attach (fun s : Json => v.elements.zipIdx.flatMap (fun item =>
      passages names choice s (visit.down [.element item.2] .items) item.1)),
    hbranch _ (fun i b => passages names choice b (visit.down [] (.branch i)) v)]

/-! What a valid value satisfies below a node. -/

theorem conforms_field {key : Str} {argument : Json} (hget : get fields key = some argument)
    (h : conforms isInteger resolve (.dict fields) v = true) :
    Asks isInteger resolve fields (key, argument) v :=
  conforms_dict.mp h _ (mem_of_get hget)

theorem conforms_property {p : Str × Json} {member : Json}
    (h : conforms isInteger resolve (.dict fields) v = true) (hp : p ∈ namedProperties fields)
    (hm : v.member? p.1 = some member) : conforms isInteger resolve p.2 member = true := by
  unfold namedProperties at hp
  cases hget : get fields (str "properties") with
  | none => simp [hget] at hp
  | some argument =>
    have hasks := conforms_field hget h
    cases argument <;> simp only [hget, Option.bind_some, Json.asDict?, Option.getD_none,
      Option.getD_some, List.not_mem_nil] at hp
    rw [asks_properties, conformsProperties, conformsMembers_iff] at hasks
    exact hasks p hp member hm

theorem conforms_item {s item : Json} (h : conforms isInteger resolve (.dict fields) v = true)
    (hs : s ∈ itemSchema fields) (hitem : item ∈ v.elements) :
    conforms isInteger resolve s item = true :=
  asks_items.mp (conforms_field (Option.mem_toList.mp hs) h) item hitem

theorem conforms_branch (h : conforms isInteger resolve (.dict fields) v = true)
    {branches : List Json} (hget : get fields (str "anyOf") = some (.list branches)) :
    ∃ b ∈ branches, conforms isInteger resolve b v = true := by
  have hasks := conforms_field hget h
  rw [asks_anyOf, conformsAnyOf, conformsBranches_iff] at hasks
  exact hasks

/-- A valid array has no more elements than `maxItems`. -/
theorem conforms_maxItems {n : ℕ} (h : conforms isInteger resolve (.dict fields) v = true)
    (hget : get fields (str "maxItems") = some (.int n)) : v.elements.length ≤ n := by
  have hasks := conforms_field hget h
  have hitems : bounds (itemCount v) (fun n q => q ≤ n) (.int n) = true := by
    simpa [Asks, satisfies, str] using hasks
  cases v with
  | list items => simpa [bounds, itemCount, Json.asList?, Json.number?, Json.elements] using hitems
  | _ => simp [Json.elements]

/-! The bound. -/

theorem passageCost_dict : passageCost names (.dict fields) =
    if isReference names fields then 1
    else
      ((namedProperties fields).map (fun p => passageCost names p.2)).sum +
        arrayBound fields * ((itemChildren fields).map (passageCost names)).sum +
        ((branchChildren fields).map (passageCost names)).foldr max 0 := by
  rw [passageCost, tally_dict, propertyChildren_eq, List.map_map]
  rfl

theorem le_foldr_max {xs : List ℕ} {x : ℕ} (h : x ∈ xs) : x ≤ xs.foldr max 0 := by
  induction xs with
  | nil => simp at h
  | cons y xs ih =>
    rcases List.mem_cons.mp h with rfl | h
    · exact le_max_left _ _
    · exact (ih h).trans (le_max_right _ _)

/-- Every subschema of an admitted node is admitted, in whichever place it stands. -/
theorem allOk_child {c : Json} (h : AllOk names ⟨.dict fields, nullable, root⟩)
    (hc : c ∈ propertyChildren fields ∨ c ∈ itemChildren fields ∨ c ∈ branchChildren fields) :
    ∃ nullable', AllOk names ⟨c, nullable', false⟩ := by
  have hchild := (allOk_iff.mp h).2
  rcases hc with hc | hc | hc
  · exact ⟨_, hchild _ (.property hc)⟩
  · exact ⟨_, hchild _ (.item hc)⟩
  · by_cases hchoice : root = true ∧ ClosedChoice fields
    · obtain ⟨rfl, hclosed⟩ := hchoice
      exact ⟨_, hchild _ (.choice hclosed hc)⟩
    · exact ⟨_, hchild _ (.union hchoice hc)⟩

/-- `items` stands in an array with a bound, or holds no schema. -/
theorem itemSchema_cases (h : PlainNode fields nullable root) :
    (∃ item n, itemSchema fields = [item] ∧ itemChildren fields = [item] ∧
      get fields (str "maxItems") = some (.int (n : ℕ)) ∧ arrayBound fields = n) ∨
    ∀ s ∈ itemSchema fields, s = .null := by
  by_cases harray : hasText fields (str "type") (str "array") = true
  · obtain ⟨⟨item, hitem⟩, n, hmax, -, -⟩ := h.array harray
    refine .inl ⟨.dict item, n, ?_, ?_, hmax, ?_⟩
    · simp [itemSchema, hitem]
    · simp [itemChildren, harray, hitem]
    · simp [arrayBound, hmax, Json.asInt?]
  · refine .inr fun s hs => ?_
    have hnone := h.notArray harray (str "items") (by simp)
    have hget : get fields (str "items") = some s := Option.mem_toList.mp hs
    unfold getNonNull at hnone
    rw [hget] at hnone
    cases s <;> simp_all

/-- However branches are chosen among those satisfied, a valid value has at most as many passages
as the schema costs. -/
theorem passages_length_le {choice : Choice} (hchoice : choice.Satisfied isInteger resolve)
    (schema : Json) : ∀ {nullable root visit v}, AllOk names ⟨schema, nullable, root⟩ →
      conforms isInteger resolve schema v = true →
      (passages names choice schema visit v).length ≤ passageCost names schema := by
  induction hsize : sizeOf schema using Nat.strong_induction_on generalizing schema with
  | _ size ih =>
    intro nullable root visit v hok hv
    obtain ⟨fields, hfields, hnode⟩ := (allOk_iff.mp hok).1
    simp only at hfields hnode
    subst hfields
    rw [passages_dict, passageCost_dict]
    split_ifs at hnode ⊢ with href
    · simp
    have hstep : ∀ {c w visit'}, c ∈ propertyChildren fields ∨ c ∈ itemChildren fields ∨
        c ∈ branchChildren fields → conforms isInteger resolve c w = true →
        (passages names choice c visit' w).length ≤ passageCost names c := by
      intro c w visit' hc hw
      obtain ⟨nullable', hcok⟩ := allOk_child hok hc
      exact ih (sizeOf c) (hsize ▸ sizeOf_child hc) c rfl hcok hw
    have hproperties : ((namedProperties fields).flatMap (fun p =>
        (v.member? p.1).toList.flatMap (passages names choice p.2
          (visit.down [.member p.1] (.property p.1))))).length ≤
          ((namedProperties fields).map (fun p => passageCost names p.2)).sum := by
      rw [List.length_flatMap]
      refine List.sum_le_sum fun p hp => ?_
      cases hm : v.member? p.1 with
      | none => simp
      | some member =>
        have hpc : p.2 ∈ propertyChildren fields := propertyChildren_eq ▸ List.mem_map_of_mem hp
        simpa using hstep (.inl hpc) (conforms_property hv hp hm)
    have hitems : ((itemSchema fields).flatMap (fun s => v.elements.zipIdx.flatMap (fun item =>
        passages names choice s (visit.down [.element item.2] .items) item.1))).length ≤
          arrayBound fields * ((itemChildren fields).map (passageCost names)).sum := by
      rcases itemSchema_cases hnode with ⟨item, n, hschema, hchildren, hmax, hbound⟩ | hnull
      · have hcount := conforms_maxItems hv hmax
        have heach : ∀ x ∈ v.elements.zipIdx.map (fun e => (passages names choice item
            (visit.down [.element e.2] .items) e.1).length), x ≤ passageCost names item := by
          intro x hx
          obtain ⟨e, he, rfl⟩ := List.mem_map.mp hx
          have hmem : e.1 ∈ v.elements := List.fst_mem_of_mem_zipIdx he
          exact hstep (.inr (.inl (by simp [hchildren])))
            (conforms_item hv (by simp [hschema]) hmem)
        have hsum := List.sum_le_card_nsmul _ _ heach
        rw [List.length_map, List.length_zipIdx, smul_eq_mul] at hsum
        rw [hschema, hchildren, hbound, List.flatMap_singleton, List.length_flatMap]
        simp only [List.map_cons, List.map_nil, List.sum_cons, List.sum_nil, Nat.add_zero]
        exact hsum.trans (Nat.mul_le_mul_right _ hcount)
      · rw [List.length_flatMap]
        refine le_of_eq_of_le (List.sum_eq_zero fun x hx => ?_) (Nat.zero_le _)
        obtain ⟨s, hs, rfl⟩ := List.mem_map.mp hx
        rw [hnull s hs]
        simp [passages]
    have hbranches : ((branchChildren fields)[choice visit (branchChildren fields) v]?.elim []
        (fun b => passages names choice b
          (visit.down [] (.branch (choice visit (branchChildren fields) v))) v)).length ≤
          ((branchChildren fields).map (passageCost names)).foldr max 0 := by
      cases hbranch : (branchChildren fields)[choice visit (branchChildren fields) v]? with
      | none => simp
      | some b =>
        have hmem := List.mem_of_getElem? hbranch
        have hsome : ∃ b ∈ branchChildren fields, conforms isInteger resolve b v = true := by
          unfold branchChildren at hmem ⊢
          split at hmem
          · rename_i branches hget
            exact conforms_branch hv hget
          · simp at hmem
        obtain ⟨b', hb', hvalid⟩ := hchoice visit (branchChildren fields) v hsome
        obtain rfl : b = b' := by simpa [hbranch] using hb'
        exact (hstep (.inr (.inr hmem)) hvalid).trans (le_foldr_max (List.mem_map_of_mem hmem))
    simp only [List.length_append]
    omega

/-! The whole document: its definitions are no keyword that asks or leads anywhere. -/

theorem asks_withoutDefinitions {field : Str × Json} :
    Asks isInteger resolve (withoutDefinitions fields) field v ↔
      Asks isInteger resolve fields field v := by
  have hproperties := @get_withoutDefinitions fields (str "properties") (by decide)
  simp only [Asks, satisfies, hproperties]

theorem conforms_withoutDefinitions (h : conforms isInteger resolve (.dict fields) v = true) :
    conforms isInteger resolve (.dict (withoutDefinitions fields)) v = true := by
  refine conforms_dict.mpr fun field hfield => asks_withoutDefinitions.mpr ?_
  exact conforms_dict.mp h field (List.mem_of_mem_filter hfield)

theorem passages_withoutDefinitions {choice : Choice} {visit : Visit} :
    passages names choice (.dict (withoutDefinitions fields)) visit v =
      passages names choice (.dict fields) visit v := by
  have hget := fun key (h : key ≠ str "$defs") => @get_withoutDefinitions fields key h
  have href : isReference names (withoutDefinitions fields) = isReference names fields := by
    rw [isReference, hget _ (by decide), isReference]
  have hproperties : namedProperties (withoutDefinitions fields) = namedProperties fields := by
    rw [namedProperties, hget _ (by decide), namedProperties]
  have hitems : itemSchema (withoutDefinitions fields) = itemSchema fields := by
    rw [itemSchema, hget _ (by decide), itemSchema]
  have hbranches : branchChildren (withoutDefinitions fields) = branchChildren fields := by
    rw [branchChildren, hget _ (by decide), branchChildren]
  rw [passages_dict, passages_dict, href, hproperties, hitems, hbranches]

/-- The cost `validate_generation_shape` gets from `_validate_supported_schema`. -/
def validatedCost (schema : List (Str × Json)) : Except JsonError ℕ := do
  let definitions ← passageDefinitions schema
  let root := schema.filter (fun f => f.1 ≠ str "$defs")
  let (passageValues, _) ←
    (validateSupportedSchema definitions (Json.height (.dict root)) root 1 true true).run 0
  return passageValues

theorem validatedCost_admitted (h : Admitted fields) :
    validatedCost fields =
      .ok (passageCost (ownedNames fields) (.dict (withoutDefinitions fields))) := by
  have hdefinitions := (passageDefinitions_eq_ok h.root).mpr ⟨h.definitions, rfl⟩
  have hmeets := validateSupportedSchema_meets (ownedNames fields)
    (Json.height (.dict (withoutDefinitions fields))) (withoutDefinitions fields) 1 true true le_rfl
  have hrun := (hmeets 0 _ _ (Nat.zero_le _)).mpr ⟨h.reachable, rfl, rfl, by
    rw [Nat.zero_add]
    exact h.references⟩
  rw [Nat.one_mul] at hrun
  unfold validatedCost
  rw [hdefinitions]
  change (validateSupportedSchema (ownedNames fields)
    (Json.height (.dict (withoutDefinitions fields))) (withoutDefinitions fields) 1 true true).run 0 >>=
      _ = _
  rw [hrun]
  rfl

/-- The first branch that is satisfied. -/
def firstSatisfied (isInteger : Json → Bool) (resolve : Str → Json → Bool) : Choice :=
  fun _ branches v => branches.findIdx (conforms isInteger resolve · v)

theorem firstSatisfied_satisfied : (firstSatisfied isInteger resolve).Satisfied isInteger resolve := by
  rintro visit branches v ⟨b, hb, hv⟩
  have hlt := List.findIdx_lt_length_of_exists (p := (conforms isInteger resolve · v)) ⟨b, hb, hv⟩
  exact ⟨_, List.getElem?_eq_getElem hlt, List.findIdx_getElem (p := (conforms isInteger resolve · v))⟩

/-- An admitted schema's cost is within the budget and bounds the passages of every valid value,
however branches are chosen; and the cost of any node is linear in its multiplicity. -/
theorem passage_budget (checkSchema : Json → Bool) (roles : List Str)
    (hparsed : Json.Parsed (.dict fields))
    (hok : validateGenerationShape checkSchema roles fields = .ok ()) :
    (∃ cost, validatedCost fields = .ok cost ∧ cost ≤ maxPassageValues ∧
      ∀ isInteger (choice : Choice) v, conformsTo isInteger fields v = true →
        choice.Satisfied isInteger (resolveIn isInteger fields) →
        (passages (ownedNames fields) choice (.dict fields) Visit.start v).length ≤ cost) ∧
    ∀ names fuel node m nullable root references cost references',
      Json.height (.dict node) ≤ fuel → references ≤ maxPassageReferences →
      ((validateSupportedSchema names fuel node m nullable root).run references =
          .ok (cost, references') ↔
        ∃ single, (validateSupportedSchema names fuel node 1 nullable root).run references =
          .ok (single, references') ∧ cost = m * single) := by
  have hadmitted := ((validateGenerationShape_eq_ok hparsed
    (validateGenerationShape_checked hok)).mp hok).2
  constructor
  · refine ⟨_, validatedCost_admitted hadmitted, hadmitted.budget, fun isInteger choice v hv hc => ?_⟩
    rw [← passages_withoutDefinitions]
    exact passages_length_le hc _ hadmitted.reachable (conforms_withoutDefinitions hv)
  · intro names fuel node m nullable root references cost references' hheight hreferences
    have hmany := validateSupportedSchema_meets names fuel node m nullable root hheight references
      cost references' hreferences
    have hone := fun single => validateSupportedSchema_meets names fuel node 1 nullable root hheight
      references single references' hreferences
    unfold Yields at hmany hone
    simp only [hmany, hone, Nat.one_mul]
    constructor
    · rintro ⟨hall, hcost, hcount⟩
      exact ⟨_, ⟨hall, rfl, hcount⟩, hcost⟩
    · rintro ⟨single, ⟨hall, rfl, hcount⟩, hcost⟩
      exact ⟨hall, hcost, hcount⟩

/-- Up to three quotes out of two passages. -/
def quotesSchema : List (Str × Json) :=
  let passage := [(str "type", Json.string (str "string")),
    (str "enum", .list [.string (str "a"), .string (str "b")])]
  let quotes := [(str "type", Json.string (str "array")), (str "maxItems", .int 3),
    (str "items", .dict [(str "$ref", .string (str "#/$defs/passage"))])]
  [(str "type", .string (str "object")), (str "$defs", .dict [(str "passage", .dict passage)]),
    (str "properties", .dict [(str "quotes", .dict quotes)])]

def quotesValue : Json :=
  .dict [(str "quotes", .list [.string (str "b"), .string (str "a"), .string (str "b")])]

theorem passage_budget_quotes :
    conformsTo Json.isWhole quotesSchema quotesValue = true ∧
    validatedCost quotesSchema = .ok 3 ∧
    (passages (ownedNames quotesSchema) (firstSatisfied Json.isWhole (resolveIn Json.isWhole
      quotesSchema)) (.dict quotesSchema) Visit.start quotesValue).length ∈ Set.Icc 1 3 := by
  have hparsed : Json.Parsed (.dict quotesSchema) := by decide +kernel
  have hvalid : conformsTo Json.isWhole quotesSchema quotesValue = true := by decide +kernel
  obtain ⟨cost, hcost, -, hbound⟩ := (passage_budget (fun _ => true)
    [str "system", str "user"] hparsed (by decide +kernel)).1
  have hthree : validatedCost quotesSchema = .ok 3 := by rfl
  obtain rfl : 3 = cost := by simpa [hthree] using hcost
  have hpositive : 1 ≤ (passages (ownedNames quotesSchema) (firstSatisfied Json.isWhole
      (resolveIn Json.isWhole quotesSchema)) (.dict quotesSchema) Visit.start quotesValue).length := by
    decide +kernel
  exact ⟨hvalid, hthree, hpositive, hbound _ _ _ hvalid firstSatisfied_satisfied⟩

end Gateway
