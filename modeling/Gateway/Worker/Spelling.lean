import Gateway.Contracts.Digest
import Gateway.Contracts.Spelling
import Gateway.Worker.Content

/-! The verdict on generated content, and what it makes of how the numbers in it are written. -/
namespace Gateway

open Json (get Alike Same)

/-- `isinstance(v, int)`, for the numbers of a parsed document. -/
def Json.isPythonInteger (v : Json) : Bool := v.asInt?.isSome

/-- The validation library checks the schema of an accepted request by Draft 2020-12, where Python's
integers are of the type `integer` and a `Decimal` is not. -/
def Library.Checks (library : Library) (checkSchema : Json → Bool) : Prop :=
  ∀ request : InferenceRequest, request.Accepted checkSchema → ∀ generated,
    library.validates request.generation.responseSchema generated =
      conformsTo Json.isPythonInteger request.generation.responseSchema (.dict generated)

section Written

variable (resolve : Str → Json → Bool)

mutual

/-- Wherever the schema asks for an integer the value has an integer literal; at `anyOf`, in a branch
it satisfies when whole numbers count as integers however they are written. -/
def integersWritten : Json → Json → Bool
  | .dict fields, v => integersWrittenFields fields v
  | _, _ => true

def integersWrittenFields : List (Str × Json) → Json → Bool
  | [], _ => true
  | (keyword, argument) :: fields, v =>
    (if keyword = str "properties" then integersWrittenProperties argument v
      else if keyword = str "items" then v.elements.all (fun item => integersWritten argument item)
      else if keyword = str "anyOf" then integersWrittenAnyOf argument v
      else if keyword = str "type" then argument.asString?.all (fun name =>
        name ≠ str "integer" || v.isPythonInteger)
      else true) &&
    integersWrittenFields fields v

def integersWrittenProperties : Json → Json → Bool
  | .dict properties, v => integersWrittenMembers properties v
  | _, _ => true

def integersWrittenMembers : List (Str × Json) → Json → Bool
  | [], _ => true
  | (name, schema) :: properties, v =>
    (v.member? name).all (fun member => integersWritten schema member) &&
      integersWrittenMembers properties v

def integersWrittenAnyOf : Json → Json → Bool
  | .list branches, v => integersWrittenBranches branches v
  | _, _ => true

def integersWrittenBranches : List Json → Json → Bool
  | [], _ => false
  | branch :: branches, v =>
    conforms Json.isWhole resolve branch v && integersWritten branch v ||
      integersWrittenBranches branches v

end

end Written

variable {resolve : Str → Json → Bool} {v w : Json} {schema : List (Str × Json)}

/-! The verdict, split into what values decide and what spellings decide. -/

theorem and_both {a b c d x y : Bool} (hab : a = (b && x)) (hcd : c = (d && y)) :
    (a && c) = ((b && d) && (x && y)) := by
  rw [hab, hcd, Bool.and_assoc, Bool.and_assoc, Bool.and_left_comm x d y]

/-- A branch that is valid and written as asked, or a later one. -/
theorem or_either {b d x y : Bool} (h : y = true → d = true) :
    (b && x || d && y) = ((b || d) && (b && x || y)) := by
  cases y with
  | false => cases b <;> cases x <;> simp
  | true => simp [h rfl]

theorem conformsBranches_of_written {branches : List Json}
    (h : integersWrittenBranches resolve branches v = true) :
    conformsBranches Json.isWhole resolve branches v = true := by
  induction branches with
  | nil => simp [integersWrittenBranches] at h
  | cons branch branches ih =>
    rw [integersWrittenBranches, Bool.or_eq_true, Bool.and_eq_true] at h
    rw [conformsBranches, Bool.or_eq_true]
    exact h.imp And.left ih

theorem isPythonInteger_eq : v.isPythonInteger = (v.isWhole && v.isPythonInteger) := by
  cases v <;> simp [Json.isPythonInteger, Json.asInt?, Json.isWhole, Json.number?]

theorem hasType_written (name : Str) : hasType Json.isPythonInteger name v =
    (hasType Json.isWhole name v && (name ≠ str "integer" || v.isPythonInteger)) := by
  unfold hasType
  by_cases hname : name = str "integer"
  · rw [if_pos hname, if_pos hname, isPythonInteger_eq]
    simp [hname]
  · rw [if_neg hname, if_neg hname]
    simp [hname]

/-- Only `type` asks for an integer. -/
theorem satisfies_written {keyword : Str} {argument : Json} :
    satisfies Json.isPythonInteger resolve schema keyword argument v =
      (satisfies Json.isWhole resolve schema keyword argument v &&
        if keyword = str "type" then argument.asString?.all (fun name =>
          name ≠ str "integer" || v.isPythonInteger) else true) := by
  unfold satisfies
  by_cases htype : keyword = str "type"
  · rw [if_pos htype, if_pos htype, if_pos htype]
    cases argument.asString? with
    | none => rfl
    | some name => exact hasType_written name
  · rw [if_neg htype, if_neg htype, if_neg htype, Bool.and_true]

mutual

theorem conforms_written : ∀ schema v, conforms Json.isPythonInteger resolve schema v =
    (conforms Json.isWhole resolve schema v && integersWritten resolve schema v)
  | .dict fields, v => by
    rw [conforms, conforms, integersWritten]
    exact conformsFields_written fields fields v
  | .bool b, v => by simp [conforms, integersWritten]
  | .null, v | .int _, v | .decimal _, v | .string _, v | .list _, v => by
    simp [conforms, integersWritten]

theorem conformsFields_written (schema : List (Str × Json)) : ∀ fields v,
    conformsFields Json.isPythonInteger resolve schema fields v =
      (conformsFields Json.isWhole resolve schema fields v && integersWrittenFields resolve fields v)
  | [], v => by simp [conformsFields, integersWrittenFields]
  | (keyword, argument) :: fields, v => by
    rw [conformsFields, conformsFields, integersWrittenFields]
    refine and_both ?_ (conformsFields_written schema fields v)
    by_cases hproperties : keyword = str "properties"
    · rw [if_pos hproperties, if_pos hproperties, if_pos hproperties]
      exact conformsProperties_written argument v
    by_cases hitems : keyword = str "items"
    · rw [if_neg hproperties, if_neg hproperties, if_neg hproperties, if_pos hitems, if_pos hitems,
        if_pos hitems, Bool.eq_iff_iff]
      simp only [Bool.and_eq_true, List.all_eq_true, conforms_written argument, imp_and, forall_and]
    by_cases hanyOf : keyword = str "anyOf"
    · simp only [if_neg hproperties, if_neg hitems, if_pos hanyOf]
      exact conformsAnyOf_written argument v
    simp only [if_neg hproperties, if_neg hitems, if_neg hanyOf]
    exact satisfies_written

theorem conformsProperties_written : ∀ properties v,
    conformsProperties Json.isPythonInteger resolve properties v =
      (conformsProperties Json.isWhole resolve properties v &&
        integersWrittenProperties resolve properties v)
  | .dict properties, v => by
    rw [conformsProperties, conformsProperties, integersWrittenProperties]
    exact conformsMembers_written properties v
  | .null, v | .bool _, v | .int _, v | .decimal _, v | .string _, v | .list _, v => by
    simp [conformsProperties, integersWrittenProperties]

theorem conformsMembers_written : ∀ properties v,
    conformsMembers Json.isPythonInteger resolve properties v =
      (conformsMembers Json.isWhole resolve properties v && integersWrittenMembers resolve properties v)
  | [], v => by simp [conformsMembers, integersWrittenMembers]
  | (name, schema) :: properties, v => by
    rw [conformsMembers, conformsMembers, integersWrittenMembers]
    refine and_both ?_ (conformsMembers_written properties v)
    cases v.member? name with
    | none => rfl
    | some member => exact conforms_written schema member

theorem conformsAnyOf_written : ∀ branches v,
    conformsAnyOf Json.isPythonInteger resolve branches v =
      (conformsAnyOf Json.isWhole resolve branches v && integersWrittenAnyOf resolve branches v)
  | .list branches, v => by
    rw [conformsAnyOf, conformsAnyOf, integersWrittenAnyOf]
    exact conformsBranches_written branches v
  | .null, v | .bool _, v | .int _, v | .decimal _, v | .string _, v | .dict _, v => by
    simp [conformsAnyOf, integersWrittenAnyOf]

theorem conformsBranches_written : ∀ branches v,
    conformsBranches Json.isPythonInteger resolve branches v =
      (conformsBranches Json.isWhole resolve branches v && integersWrittenBranches resolve branches v)
  | [], v => by simp [conformsBranches, integersWrittenBranches]
  | branch :: branches, v => by
    rw [conformsBranches, conformsBranches, integersWrittenBranches, conforms_written branch v,
      conformsBranches_written branches v]
    exact or_either conformsBranches_of_written

end

/-! The definitions of an admitted schema ask for no integer. -/

theorem passageLeaf_written (h : PassageLeaf w) (hw : w.Distinct) :
    integersWritten resolve w v = true := by
  obtain ⟨fields, texts, rfl, hkeys, htype, -⟩ := h
  have hfields : ∀ f ∈ fields, f = (str "type", .string (str "string")) ∨ f.1 = str "enum" := by
    intro f hf
    rcases (hkeys f.1).mp (List.mem_map_of_mem hf) with hkey | hkey
    · have hget := get_of_mem hw.keys hf
      rw [hkey, htype] at hget
      exact .inl (Prod.ext hkey (Option.some.inj hget).symm)
    · exact .inr hkey
  rw [integersWritten]
  clear hkeys htype hw
  induction fields with
  | nil => rw [integersWrittenFields]
  | cons f fields ih =>
    have hrest := ih (fun g hg => hfields g (List.mem_cons_of_mem _ hg))
    obtain ⟨keyword, argument⟩ := f
    rw [integersWrittenFields, hrest, Bool.and_true]
    rcases hfields _ (List.mem_cons_self ..) with hf | hkey
    · obtain ⟨rfl, rfl⟩ := Prod.mk.inj hf
      rfl
    · obtain rfl : keyword = str "enum" := hkey
      rfl

theorem resolveIn_written (h : Admitted schema) (hs : (Json.dict schema).Distinct) :
    resolveIn Json.isPythonInteger schema = resolveIn Json.isWhole schema := by
  funext reference v
  unfold resolveIn
  cases hget : get schema (str "$defs") with
  | none => rfl
  | some definitions =>
    obtain ⟨leaves, rfl, -, -, hall⟩ := h.definitions definitions hget
    have hleaves : (Json.dict leaves).Distinct := hs.field (mem_of_get hget)
    simp only [Option.bind_some, Json.asDict?, Option.any_some]
    rw [Bool.eq_iff_iff, List.any_eq_true, List.any_eq_true]
    refine exists_congr fun f => and_congr_right fun hf => ?_
    rw [conforms_written, passageLeaf_written (hall f hf).2 (hleaves.field hf), Bool.and_true]

/-- Integers are written as the whole schema document asks. -/
def integersWrittenTo (schema : List (Str × Json)) (v : Json) : Bool :=
  integersWritten (resolveIn Json.isWhole schema) (.dict schema) v

theorem conformsTo_written (h : Admitted schema) (hs : (Json.dict schema).Distinct) :
    conformsTo Json.isPythonInteger schema v =
      (conformsTo Json.isWhole schema v && integersWrittenTo schema v) := by
  rw [conformsTo, resolveIn_written h hs, conforms_written]
  rfl

/-! What respelling leaves alone. -/

theorem same_isWhole (h : Same v w) : v.isWhole = w.isWhole := by
  rw [Json.isWhole, Json.isWhole, alike_number? (fun _ _ h => h) h]

theorem kept_isPythonInteger (h : Alike Json.Kept v w) :
    v.isPythonInteger = w.isPythonInteger := by
  cases h with
  | leaf h => rw [h.1]
  | _ => rfl

theorem InferenceRequest.Accepted.admitted {checkSchema : Json → Bool} {request : InferenceRequest}
    (h : request.Accepted checkSchema) : Admitted request.generation.responseSchema :=
  ((validateGenerationShape_eq_ok h.schema (validateGenerationShape_checked h.shape)).mp h.shape).2

theorem validatedResult_iff {library : Library} {document generated : List (Str × Json)} {content : Str}
    (hoffers : Offers document content) (hread : generatedDocument library content = .ok generated) :
    (∃ result, validatedResult library schema document = .ok result) ↔
      library.validates schema generated = true := by
  obtain ⟨choice, message, hchoice, hfinish, hcontent⟩ := hoffers
  simp only [validatedResult, hchoice, hfinish, hcontent, hread, bind, Except.bind, pure, Except.pure]
  by_cases hvalid : library.validates schema generated = true
  · simp [hvalid]
  · simp [hvalid]

/-- Two contents of one value get one verdict, under either spelling of the schema, exactly where
they are both written as the schema asks for integers, or neither is, or the value is not valid. -/
theorem spelling_verdict {library : Library} {checkSchema : Json → Bool}
    (hlibrary : library.Checks checkSchema) {request request' : InferenceRequest}
    (hrequest : request.Accepted checkSchema) (hrequest' : request'.Accepted checkSchema)
    (hschema : Same (.dict request.generation.responseSchema)
      (.dict request'.generation.responseSchema))
    {document document' generated generated' : List (Str × Json)} {content content' : Str}
    (hoffers : Offers document content) (hoffers' : Offers document' content')
    (hread : generatedDocument library content = .ok generated)
    (hread' : generatedDocument library content' = .ok generated')
    (hsame : Same (.dict generated) (.dict generated')) :
    ((∃ result, validatedResult library request.generation.responseSchema document = .ok result) ↔
      ∃ result, validatedResult library request'.generation.responseSchema document' = .ok result) ↔
    (conformsTo Json.isWhole request.generation.responseSchema (.dict generated) = true →
      (integersWrittenTo request.generation.responseSchema (.dict generated) = true ↔
        integersWrittenTo request.generation.responseSchema (.dict generated') = true)) := by
  have hdistinct' : (Json.dict generated').Distinct :=
    Json.distinct_of_loads (generatedDocument_eq_ok.mp hread').2.2
  have hsplit := fun v => conformsTo_written (v := v) hrequest.admitted hrequest.schema.distinct
  -- The schema may be respelled under one content: nothing there is seen.
  have hrespelled : conformsTo Json.isPythonInteger request'.generation.responseSchema
        (.dict generated') =
      conformsTo Json.isPythonInteger request.generation.responseSchema (.dict generated') :=
    alike_conformsTo kept_respells.same (fun _ _ => kept_isPythonInteger) (same_symm hschema)
      hrequest.schema.distinct (kept_refl _) hdistinct'
  have hvalue : conformsTo Json.isWhole request.generation.responseSchema (.dict generated) =
      conformsTo Json.isWhole request.generation.responseSchema (.dict generated') :=
    alike_conformsTo (fun _ _ h => h) (fun _ _ => same_isWhole) (same_refl _)
      hrequest.schema.distinct hsame hdistinct'
  rw [validatedResult_iff hoffers hread, validatedResult_iff hoffers' hread',
    hlibrary request hrequest, hlibrary request' hrequest', hrespelled, hsplit, hsplit, ← hvalue,
    Bool.and_eq_true, Bool.and_eq_true]
  exact and_congr_right_iff

/-! A schema that asks for an integer and for a number. -/

def countSchema : List (Str × Json) :=
  let count := [(str "type", Json.string (str "integer")), (str "minimum", .int 1)]
  let share := [(str "type", Json.string (str "number")), (str "maximum", .int 1)]
  [(str "type", .string (str "object")),
    (str "properties", .dict [(str "count", .dict count), (str "share", .dict share)])]

def countRequest : InferenceRequest :=
  let request := sampleRequest false
  ⟨request.protocolVersion, request.requestId, request.requestExpiresAt, request.task,
    request.requirements, ⟨request.generation.messages, request.generation.temperature,
      request.generation.seed, countSchema⟩⟩

theorem countRequest_accepted : countRequest.Accepted (fun _ => true) :=
  let h := sampleRequest_accepted false
  ⟨h.protocol, h.requestId, h.taskId, h.taskVersion, h.modalities, h.mediaType, h.structured,
    h.outputTokens, h.contents, h.temperature, h.seed, by decide +kernel, by decide +kernel⟩

def draftLibrary : Library where
  recursionLimit := 100
  validates := fun schema generated => conformsTo Json.isPythonInteger schema (.dict generated)

def countContent (count share : String) : Str :=
  str "\x7b\"count\":" ++ str count ++ str ",\"share\":" ++ str share ++ str "\x7d"

def countGenerated (count share : Json) : List (Str × Json) :=
  [(str "count", count), (str "share", share)]

theorem countGenerated_same {count count' share share' : Json} (hcount : Same count count')
    (hshare : Same share share') :
    Same (.dict (countGenerated count share)) (.dict (countGenerated count' share')) :=
  .of_fields (List.Perm.refl _) (.cons ⟨rfl, hcount⟩ (.cons ⟨rfl, hshare⟩ .nil))

theorem one_same : Same (.decimal ⟨false, 10, -1⟩) (.int 1) :=
  .leaf (.number (q := 1) (by decide +kernel) (by decide +kernel))

/-- A share of one is accepted under either spelling. -/
theorem spelling_verdict_share :
    validatedResult draftLibrary countSchema (completionDocument (countContent "100" "1.0")) =
      .ok ⟨str "application/json", countContent "100" "1.0"⟩ ∧
    ∃ result, validatedResult draftLibrary countSchema
      (completionDocument (countContent "100" "1")) = .ok result := by
  have hfirst : validatedResult draftLibrary countSchema
      (completionDocument (countContent "100" "1.0")) =
        .ok ⟨str "application/json", countContent "100" "1.0"⟩ := by
    decide +kernel
  have hlibrary : draftLibrary.Checks (fun _ => true) := fun _ _ _ => rfl
  have hoffers : Offers (completionDocument (countContent "100" "1.0")) (countContent "100" "1.0") :=
    ⟨_, _, rfl, rfl, by decide +kernel⟩
  have hoffers' : Offers (completionDocument (countContent "100" "1")) (countContent "100" "1") :=
    ⟨_, _, rfl, rfl, by decide +kernel⟩
  have hread : generatedDocument draftLibrary (countContent "100" "1.0") =
      .ok (countGenerated (.int 100) (.decimal ⟨false, 10, -1⟩)) := by
    decide +kernel
  have hread' : generatedDocument draftLibrary (countContent "100" "1") =
      .ok (countGenerated (.int 100) (.int 1)) := by
    decide +kernel
  have hverdict := spelling_verdict hlibrary countRequest_accepted countRequest_accepted (same_refl _)
    hoffers hoffers' hread hread' (countGenerated_same (same_refl _) one_same)
  exact ⟨hfirst, (hverdict.mpr fun _ => by decide +kernel).mp ⟨_, hfirst⟩⟩

/-- A count of one hundred is accepted as `100`, and not as `100.0`. -/
theorem spelling_verdict_count :
    draftLibrary.Checks (fun _ => true) ∧ countRequest.Accepted (fun _ => true) ∧
    generatedDocument draftLibrary (countContent "100" "1") =
      .ok (countGenerated (.int 100) (.int 1)) ∧
    generatedDocument draftLibrary (countContent "100.0" "1") =
      .ok (countGenerated (.decimal ⟨false, 1000, -1⟩) (.int 1)) ∧
    Same (.dict (countGenerated (.int 100) (.int 1)))
      (.dict (countGenerated (.decimal ⟨false, 1000, -1⟩) (.int 1))) ∧
    ¬ ((∃ result, validatedResult draftLibrary countRequest.generation.responseSchema
          (completionDocument (countContent "100" "1")) = .ok result) ↔
        ∃ result, validatedResult draftLibrary countRequest.generation.responseSchema
          (completionDocument (countContent "100.0" "1")) = .ok result) := by
  have hhundred : Same (.int 100) (.decimal ⟨false, 1000, -1⟩) :=
    .leaf (.number (q := 100) (by decide +kernel) (by decide +kernel))
  refine ⟨fun _ _ _ => rfl, countRequest_accepted, by decide +kernel, by decide +kernel,
    countGenerated_same hhundred (same_refl _), fun hverdict => ?_⟩
  have hfirst : validatedResult draftLibrary countRequest.generation.responseSchema
      (completionDocument (countContent "100" "1")) =
        .ok ⟨str "application/json", countContent "100" "1"⟩ := by
    decide +kernel
  obtain ⟨result, hresult⟩ := hverdict.mp ⟨_, hfirst⟩
  have hrefused : validatedResult draftLibrary countRequest.generation.responseSchema
      (completionDocument (countContent "100.0" "1")) =
        .error (.invalidOutput "worker content does not match response schema") := by
    decide +kernel
  rw [hrefused] at hresult
  cases hresult

end Gateway
