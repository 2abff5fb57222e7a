import Gateway.Contracts.DecoderOrder
import Gateway.Worker.Payload

/-! Decoder order on the wire: the whole schema ordered, or the whole body sorted. -/
namespace Gateway

open Json (get Parsed)

variable {schema : List (Str × Json)} {payload : InferenceRequest → List (Str × Json)}
variable {request : InferenceRequest}

/-- The schema a payload asks its worker to decode under. -/
def carriedSchema (payload : List (Str × Json)) : Option Json := do
  let format ← (get payload (str "response_format")).bind Json.asDict?
  let named ← (get format (str "json_schema")).bind Json.asDict?
  get named (str "schema")

/-- The payloads of the two workers. -/
inductive WorkerPayload : (InferenceRequest → List (Str × Json)) → Prop
  | ollama (model : Str) : WorkerPayload (ollamaPayload model)
  | lmStudio (model : Str) (idleTtlSeconds : ℤ) : WorkerPayload (lmStudioPayload model idleTtlSeconds)

theorem carriedSchema_payload (h : WorkerPayload payload) (request : InferenceRequest) :
    carriedSchema (payload request) =
      some (decoderSchema request.generation.responseSchema request.taskKey) := by
  cases h <;> rfl

theorem completionBody_sorted (h : WorkerPayload payload)
    (huses : usesDecoderFieldOrder request.generation.responseSchema request.taskKey = false) :
    completionBody payload request = encodeJsonBytes (.dict (payload request)) true ∧
      carriedSchema (payload request) = some (.dict request.generation.responseSchema) := by
  refine ⟨by rw [completionBody, huses]; rfl, ?_⟩
  rw [carriedSchema_payload h, decoderSchema, huses]
  rfl

/-- A schema with definitions, or an email analysis all of whose nodes name their properties, is
sent in decoder order throughout; any other is sent sorted throughout. -/
theorem decoder_order (hs : Parsed (.dict schema)) (task : Task) :
    (usesDecoderFieldOrder schema task = true ↔
      (get schema (str "$defs")).isSome ∨ task = emailAnalyzeTask ∧ AllCovered (.dict schema)) ∧
    (usesDecoderFieldOrder schema task = true →
      ∃ fields, decoderSchema schema task = .dict fields ∧ DecoderOrdered schema task fields ∧
        ∀ payload request, WorkerPayload payload → request.generation.responseSchema = schema →
          request.taskKey = task → carriedSchema (payload request) = some (.dict fields) ∧
            completionBody payload request = encodeJsonBytes (.dict (payload request)) false) ∧
    (usesDecoderFieldOrder schema task = false →
      ∀ payload request, WorkerPayload payload → request.generation.responseSchema = schema →
        request.taskKey = task → carriedSchema (payload request) = some (.dict schema) ∧
          completionBody payload request = encodeJsonBytes (.dict (payload request)) true) := by
  refine ⟨usesDecoderFieldOrder_iff hs, fun huses => ?_, fun huses => ?_⟩
  · obtain ⟨fields, hfields, hordered⟩ := decoderSchema_ordered hs huses
    refine ⟨fields, hfields, hordered, ?_⟩
    rintro payload request h rfl rfl
    exact ⟨by rw [carriedSchema_payload h, hfields], by rw [completionBody, huses]; rfl⟩
  · rintro payload request h rfl rfl
    exact (completionBody_sorted h huses).symm

/-- The sample's schema for an email analysis is ordered; for its own task it is sent as it is. -/
theorem decoder_order_sample :
    (∃ fields, decoderSchema (sampleSchema true) emailAnalyzeTask = .dict fields ∧
      DecoderOrdered (sampleSchema true) emailAnalyzeTask fields) ∧
    carriedSchema (ollamaPayload (str "llama3") (sampleRequest true)) =
      some (.dict (sampleSchema true)) := by
  have hordered := (decoder_order (sampleSchema_parsed true) emailAnalyzeTask).2.1 (by decide)
  have hsorted := (decoder_order (sampleSchema_parsed true) (sampleRequest true).taskKey).2.2
    (by decide) _ (sampleRequest true) (.ollama (str "llama3")) rfl rfl
  obtain ⟨fields, hfields, h, -⟩ := hordered
  exact ⟨⟨fields, hfields, h⟩, hsorted.1⟩

end Gateway
