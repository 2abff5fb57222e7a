import Gateway.Contracts.Projection

/-! The bytes a worker is sent: one body for every spelling of a request. -/
namespace Gateway

open Json (get keys Parsed Same FieldsRel)

/-- `request.task.id.replace(".", "_") + f"_v{request.task.version}"`. -/
def schemaName (task : TaskReference) : Str :=
  task.id.map (fun c => if c = 46 then 95 else c) ++ str "_v" ++ intText task.version

/-- `OllamaWorker._payload`, its fields in insertion order. -/
def ollamaPayload (model : Str) (request : InferenceRequest) : List (Str × Json) :=
  [(str "model", .string model),
    (str "messages", .list (request.generation.messages.map GenerationMessage.modelDump)),
    (str "temperature", .decimal request.generation.temperature),
    (str "max_tokens", .int request.requirements.maxOutputTokens),
    (str "stream", .bool false),
    (str "response_format", .dict [(str "type", .string (str "json_schema")),
      (str "json_schema", .dict [(str "name", .string (schemaName request.task)),
        (str "strict", .bool true),
        (str "schema", decoderSchema request.generation.responseSchema request.taskKey)])])] ++
    request.generation.seed.toList.map (fun n => (str "seed", Json.int n))

/-- `LMStudioWorker._payload`. -/
def lmStudioPayload (model : Str) (idleTtlSeconds : ℤ) (request : InferenceRequest) :
    List (Str × Json) :=
  ollamaPayload model request ++ [(str "ttl", .int idleTtlSeconds)]

/-- The content posted to `/v1/chat/completions`. -/
def completionBody (payload : InferenceRequest → List (Str × Json)) (request : InferenceRequest) :
    Except JsonError Bytes :=
  encodeJsonBytes (.dict (payload request))
    (!usesDecoderFieldOrder request.generation.responseSchema request.taskKey)

variable {checkSchema : Json → Bool} {request request' : InferenceRequest} {sortKeys : Bool}

theorem fieldsRel_refl (fs : List (Str × Json)) : FieldsRel (WrittenAlike sortKeys) fs fs :=
  List.forall₂_same.mpr fun _ _ => ⟨rfl, rfl⟩

/-- Requests that agree have payloads written alike once their schemas are. -/
theorem ollamaPayload_rel (model : Str) (h : request.Agree request')
    (ht : WrittenAlike sortKeys (.decimal request.generation.temperature)
      (.decimal request'.generation.temperature))
    (hs : WrittenAlike sortKeys (decoderSchema request.generation.responseSchema request.taskKey)
      (decoderSchema request'.generation.responseSchema request'.taskKey)) :
    FieldsRel (WrittenAlike sortKeys) (ollamaPayload model request)
      (ollamaPayload model request') := by
  have hformat : WrittenAlike sortKeys
      (.dict [(str "type", .string (str "json_schema")),
        (str "json_schema", .dict [(str "name", .string (schemaName request.task)),
          (str "strict", .bool true),
          (str "schema", decoderSchema request.generation.responseSchema request.taskKey)])])
      (.dict [(str "type", .string (str "json_schema")),
        (str "json_schema", .dict [(str "name", .string (schemaName request'.task)),
          (str "strict", .bool true),
          (str "schema", decoderSchema request'.generation.responseSchema request'.taskKey)])]) := by
    rw [h.task]
    refine writtenAlike_dict (.cons ⟨rfl, rfl⟩ (.cons ⟨rfl, writtenAlike_dict ?_⟩ .nil))
    exact .cons ⟨rfl, rfl⟩ (.cons ⟨rfl, rfl⟩ (.cons ⟨rfl, hs⟩ .nil))
  unfold ollamaPayload
  rw [h.messages, h.requirements, h.seed]
  refine List.rel_append ?_ (fieldsRel_refl _)
  exact .cons ⟨rfl, rfl⟩ (.cons ⟨rfl, rfl⟩ (.cons ⟨rfl, ht⟩ (.cons ⟨rfl, rfl⟩ (.cons ⟨rfl, rfl⟩
    (.cons ⟨rfl, hformat⟩ .nil)))))

theorem writtenAlike_sorted {v w : Json} (h : Same v w) (hv : Parsed v) (hw : Parsed w) :
    WrittenAlike true v w := by
  rw [WrittenAlike, Json.encodeJson_canonText hv, Json.encodeJson_canonText hw,
    Json.Same.canonText_eq h hv hw]

theorem agree_taskKey (h : request.Agree request') : request.taskKey = request'.taskKey := by
  rw [InferenceRequest.taskKey, InferenceRequest.taskKey, h.task]

theorem agree_decision (hr : request.Accepted checkSchema) (hr' : request'.Accepted checkSchema)
    (h : request.Agree request') :
    usesDecoderFieldOrder request.generation.responseSchema request.taskKey =
      usesDecoderFieldOrder request'.generation.responseSchema request'.taskKey := by
  rw [agree_taskKey h, usesDecoderFieldOrder_same h.schema hr.schema hr'.schema]

/-- The schema is written alike on the path its decision picks. -/
theorem agree_schema (hr : request.Accepted checkSchema) (hr' : request'.Accepted checkSchema)
    (h : request.Agree request') :
    WrittenAlike (!usesDecoderFieldOrder request.generation.responseSchema request.taskKey)
      (decoderSchema request.generation.responseSchema request.taskKey)
      (decoderSchema request'.generation.responseSchema request'.taskKey) := by
  have hdecision := agree_decision hr hr' h
  unfold decoderSchema
  rw [← hdecision]
  cases usesDecoderFieldOrder request.generation.responseSchema request.taskKey with
  | false => exact writtenAlike_sorted h.schema hr.schema hr'.schema
  | true => exact ordered_writtenAlike h.schema hr.schema hr'.schema .schema

theorem agree_temperature (hr : request.Accepted checkSchema) (hr' : request'.Accepted checkSchema)
    (h : request.Agree request') (sortKeys : Bool) :
    WrittenAlike sortKeys (.decimal request.generation.temperature)
      (.decimal request'.generation.temperature) := by
  have hparsed : ∀ {r : InferenceRequest}, r.Accepted checkSchema →
      Parsed (.decimal r.generation.temperature) := fun hr =>
    ⟨hr.temperature.2.2, magnitude_le_one hr.temperature.1 hr.temperature.2.1⟩
  exact writtenAlike_scalar sortKeys
    (.number (q := request.generation.temperature.toRat) rfl (congrArg some h.temperature.symm))
    (hparsed hr) (hparsed hr')

/-- A payload that agreeing requests fill alike makes one body of them. -/
theorem completionBody_eq {payload : InferenceRequest → List (Str × Json)}
    (hr : request.Accepted checkSchema) (hr' : request'.Accepted checkSchema)
    (h : request.Agree request')
    (hp : FieldsRel (WrittenAlike
        (!usesDecoderFieldOrder request.generation.responseSchema request.taskKey))
      (payload request) (payload request')) :
    completionBody payload request = completionBody payload request' := by
  unfold completionBody encodeJsonBytes
  rw [← agree_decision hr hr' h, writtenAlike_dict hp]

theorem ollamaPayload_agree (model : Str) (hr : request.Accepted checkSchema)
    (hr' : request'.Accepted checkSchema) (h : request.Agree request') :
    FieldsRel (WrittenAlike
        (!usesDecoderFieldOrder request.generation.responseSchema request.taskKey))
      (ollamaPayload model request) (ollamaPayload model request') :=
  ollamaPayload_rel model h (agree_temperature hr hr' h _) (agree_schema hr hr' h)

/-! Payloads of accepted requests can be written. -/

theorem intText_ascii (n : ℤ) : ∀ c ∈ intText n, c < 128 := by
  intro c hc
  unfold intText at hc
  rcases List.mem_append.mp hc with hc | hc
  · split_ifs at hc
    · have hminus : ∀ c ∈ str "-", c < 128 := by decide
      exact hminus c hc
    · simp at hc
  · obtain ⟨d, hd, rfl⟩ := List.mem_map.mp hc
    have hlt : d < 10 := by
      split_ifs at hd
      · simp at hd
        omega
      · exact Nat.digits_lt_base (by norm_num) (List.mem_reverse.mp hd)
    omega

theorem schemaName_ascii {task : TaskReference} (h : taskIdPattern task.id = true) :
    ∀ c ∈ schemaName task, c < 128 := by
  intro c hc
  simp only [schemaName, List.mem_append] at hc
  rcases hc with (hc | hc) | hc
  · obtain ⟨d, hd, rfl⟩ := List.mem_map.mp hc
    have := taskIdPattern_ascii h d hd
    split_ifs <;> omega
  · have hv : ∀ c ∈ str "_v", c < 128 := by decide
    exact hv c hc
  · exact intText_ascii _ c hc

theorem decoderSchema_parsed (hr : request.Accepted checkSchema) :
    Parsed (decoderSchema request.generation.responseSchema request.taskKey) := by
  unfold decoderSchema
  split_ifs
  · exact hr.schema
  · exact ordered_parsed hr.schema _

theorem messages_parsed (hr : request.Accepted checkSchema) :
    Parsed (.list (request.generation.messages.map GenerationMessage.modelDump)) := by
  have hgeneration : Parsed request.generation.modelDump :=
    Json.parsed_field (InferenceRequest.modelDump_parsed hr)
      (@mem_of_get _ (str "generation") _ rfl)
  exact Json.parsed_field hgeneration (@mem_of_get _ (str "messages") _ rfl)

/-- The names a payload has before those its worker adds. -/
def payloadNames (seeded : Bool) : List Str :=
  [str "model", str "messages", str "temperature", str "max_tokens", str "stream",
    str "response_format"] ++ if seeded then [str "seed"] else []

theorem keys_ollamaPayload (model : Str) (request : InferenceRequest) :
    keys (ollamaPayload model request) = payloadNames request.generation.seed.isSome := by
  cases h : request.generation.seed <;> simp [ollamaPayload, payloadNames, keys, h]

theorem ollamaPayload_parsed {model : Str} (hm : Scalars model) (hr : request.Accepted checkSchema) :
    ∀ f ∈ ollamaPayload model request, Parsed f.2 := by
  have hmodel : Parsed (.string model) := hm
  have htemperature : Parsed (.decimal request.generation.temperature) :=
    ⟨hr.temperature.2.2, magnitude_le_one hr.temperature.1 hr.temperature.2.1⟩
  have htokens : Parsed (.int request.requirements.maxOutputTokens) := by
    have := hr.outputTokens
    unfold Gateway.maxOutputTokens at this
    exact parsed_int (by omega)
  have hname : Parsed (.string (schemaName request.task)) :=
    scalars_of_range (schemaName_ascii hr.taskId.2.2)
  have hkind : Parsed (.string (str "json_schema")) := by
    unfold Parsed
    decide
  have hbool : ∀ b, Parsed (.bool b) := fun _ => trivial
  have hschema : Parsed (.dict [(str "name", .string (schemaName request.task)),
      (str "strict", .bool true),
      (str "schema", decoderSchema request.generation.responseSchema request.taskKey)]) :=
    parsed_dict [str "name", str "strict", str "schema"] rfl (by decide)
      (by simp [hname, hbool, decoderSchema_parsed hr])
  have hformat : Parsed (.dict [(str "type", .string (str "json_schema")),
      (str "json_schema", .dict [(str "name", .string (schemaName request.task)),
        (str "strict", .bool true),
        (str "schema", decoderSchema request.generation.responseSchema request.taskKey)])]) :=
    parsed_dict [str "type", str "json_schema"] rfl (by decide) (by simp [hkind, hschema])
  intro f hf
  rcases List.mem_append.mp hf with hf | hf
  · simp only [List.mem_cons, List.not_mem_nil, or_false] at hf
    rcases hf with rfl | rfl | rfl | rfl | rfl | rfl
    · exact hmodel
    · exact messages_parsed hr
    · exact htemperature
    · exact htokens
    · trivial
    · exact hformat
  · obtain ⟨n, hn, rfl⟩ := List.mem_map.mp hf
    have := hr.seed n (Option.mem_toList.mp hn)
    exact parsed_int (by omega)

/-- A payload whose names are known and whose values are parsed can be written. -/
theorem completionBody_ok {payload : InferenceRequest → List (Str × Json)} (added : List Str)
    (hk : keys (payload request) = payloadNames request.generation.seed.isSome ++ added)
    (hn : ∀ seeded, (payloadNames seeded ++ added).Nodup ∧
      ∀ n ∈ payloadNames seeded ++ added, Scalars n)
    (hp : ∀ f ∈ payload request, Parsed f.2) :
    ∃ b, completionBody payload request = .ok b :=
  encodeJsonBytes_ok _ (parsed_dict _ hk (hn _) hp)

theorem completionBody_ollama {model : Str} (hm : Scalars model) (hr : request.Accepted checkSchema) :
    ∃ b, completionBody (ollamaPayload model) request = .ok b := by
  refine completionBody_ok [] (by rw [keys_ollamaPayload, List.append_nil]) (fun seeded => ?_)
    (ollamaPayload_parsed hm hr)
  cases seeded <;> decide

theorem completionBody_lmStudio {model : Str} {ttl : ℤ} (hm : Scalars model) (h1 : 1 ≤ ttl)
    (h2 : ttl ≤ 3600) (hr : request.Accepted checkSchema) :
    ∃ b, completionBody (lmStudioPayload model ttl) request = .ok b := by
  refine completionBody_ok [str "ttl"] ?_ (fun seeded => ?_) (fun f hf => ?_)
  · rw [← keys_ollamaPayload model]
    simp [lmStudioPayload, keys]
  · cases seeded <;> decide
  · rcases List.mem_append.mp hf with hf | hf
    · exact ollamaPayload_parsed hm hr f hf
    · obtain rfl := List.mem_singleton.mp hf
      exact parsed_int (by omega)

/-- No body can be written that names a model with a lone surrogate. -/
theorem scalars_of_completionBody {payload : InferenceRequest → List (Str × Json)} {model : Str}
    {b : Bytes} (hm : (str "model", .string model) ∈ payload request)
    (h : completionBody payload request = .ok b) : Scalars model := by
  obtain ⟨text, htext, h⟩ := bind_eq_ok.mp h
  unfold encodeUtf8 at h
  split_ifs at h with hscalars
  obtain ⟨t, ht, hmem⟩ := encodeJson_field htext hm
  obtain rfl := Except.ok.inj ht
  exact scalars_quote fun c hc => hscalars c (hmem c (List.mem_append_right _ hc))

/-- Requests that agree, or that have one canonical encoding, are sent as one body. -/
theorem completionBody_agree (hr : request.Accepted checkSchema)
    (hr' : request'.Accepted checkSchema)
    (h : request.Agree request' ∨
      encodeJsonBytes request.modelDump true = encodeJsonBytes request'.modelDump true) :
    (∀ model, completionBody (ollamaPayload model) request =
      completionBody (ollamaPayload model) request') ∧
    (∀ model ttl, completionBody (lmStudioPayload model ttl) request =
      completionBody (lmStudioPayload model ttl) request') ∧
    ∀ model, Scalars model → (∃ b, completionBody (ollamaPayload model) request = .ok b) ∧
      ∀ ttl : ℤ, 1 ≤ ttl → ttl ≤ 3600 →
        ∃ b, completionBody (lmStudioPayload model ttl) request = .ok b := by
  have hagree : request.Agree request' := by
    rcases h with h | h
    · exact h
    · exact (InferenceRequest.same_modelDump hr' ((Json.encodeJsonBytes_eq_iff
        (InferenceRequest.modelDump_parsed hr) (InferenceRequest.modelDump_parsed hr')).mp h)).2.2
  refine ⟨fun model => ?_, fun model ttl => ?_, fun model hm =>
    ⟨completionBody_ollama hm hr, fun ttl h1 h2 => completionBody_lmStudio hm h1 h2 hr⟩⟩
  · exact completionBody_eq hr hr' hagree (ollamaPayload_agree model hr hr' hagree)
  · exact completionBody_eq hr hr' hagree
      (List.rel_append (ollamaPayload_agree model hr hr' hagree) (fieldsRel_refl _))

/-- The two orders of the sample's schema are sent as one body. -/
theorem completionBody_agree_sample :
    completionBody (ollamaPayload (str "llama3")) (sampleRequest false) =
      completionBody (ollamaPayload (str "llama3")) (sampleRequest true) ∧
    (sampleRequest false).generation.responseSchema ≠ (sampleRequest true).generation.responseSchema :=
  ⟨(completionBody_agree (sampleRequest_accepted false) (sampleRequest_accepted true)
    (.inl ⟨rfl, rfl, rfl, rfl, rfl, sampleSchema_same⟩)).1 _, by
      intro h
      have hkeys : keys (sampleSchema false) = keys (sampleSchema true) := congrArg keys h
      revert hkeys
      decide⟩

end Gateway
