import Gateway.Foundation.Rfc3339
import Gateway.Contracts.Schema

/-! The inference request: its fields, the checks on each, its dump and its digest. -/
namespace Gateway

open Json (Parsed)

def protocolVersion : ℤ := 1
def maxMessageChars : ℕ := 500000
def maxOutputTokens : ℤ := 12288
def documentContextTokens : ℤ := 32768

/-! Texts with a pattern. -/

def isLowerHex (c : ℕ) : Bool := JsonText.isDigit c || (97 ≤ c && c ≤ 102)

/-- The pattern matches one character each. -/
def matchesAll : List (ℕ → Bool) → Str → Bool
  | [], [] => true
  | p :: ps, c :: s => p c && matchesAll ps s
  | _, _ => false

/-- `UUID_V4_RE.fullmatch`. -/
def uuidV4 (value : Str) : Bool :=
  let hex (n : ℕ) : List (ℕ → Bool) := List.replicate n isLowerHex
  let dash : List (ℕ → Bool) := [fun c => c = 45]
  let version : List (ℕ → Bool) := [fun c => c = 52]
  let variant : List (ℕ → Bool) := [fun c => c = 56 || c = 57 || c = 97 || c = 98]
  matchesAll (hex 8 ++ dash ++ hex 4 ++ dash ++ version ++ hex 3 ++ dash ++ variant ++ hex 3 ++
    dash ++ hex 12) value

/-- `^[a-z][a-z0-9_.-]*$`. -/
def taskIdPattern (value : Str) : Bool :=
  match value with
  | [] => false
  | c :: rest =>
    (97 ≤ c && c ≤ 122) && rest.all (fun c =>
      (97 ≤ c && c ≤ 122) || JsonText.isDigit c || c = 95 || c = 46 || c = 45)

/-! Expiry. -/

/-- An accepted expiry: the client's text and the time it names. -/
structure Expiry where
  text : Str
  time : Datetime
  parses : Datetime.strptime text = some time

/-- `RFC3339_UTC_RE.fullmatch`. -/
def rfc3339Utc (value : Str) : Bool := (Template.fullmatch Datetime.format value).isSome

/-- `InferenceRequest.validate_request_expiry`. -/
def validateRequestExpiry (value : Str) : Except JsonError Expiry :=
  if !rfc3339Utc value then
    .error (.valueError "request_expires_at must be whole-second RFC3339 UTC text")
  else
    match h : Datetime.strptime value with
    | none => .error (.valueError "request_expires_at must be a valid timestamp")
    | some time => .ok ⟨value, time, h⟩

theorem validateRequestExpiry_eq_ok {value : Str} {e : Expiry} :
    validateRequestExpiry value = .ok e ↔ e.text = value := by
  unfold validateRequestExpiry
  constructor
  · intro h
    split_ifs at h
    split at h
    · cases h
    · obtain rfl := Except.ok.inj h
      rfl
  · rintro rfl
    have hm : rfc3339Utc e.text = true := by
      rw [rfc3339Utc, (Datetime.strptime_eq_some e.parses).1, Option.isSome_some]
    rw [hm, Bool.not_true, if_neg Bool.false_ne_true]
    split
    · rename_i hn
      simp [e.parses] at hn
    · rename_i time ht
      obtain rfl : e.time = time := Option.some.inj (e.parses.symm.trans ht)
      rfl

/-! The request. -/

structure TaskReference where
  id : Str
  version : ℤ

structure Requirements where
  inputModalities : List Str
  outputMediaType : Str
  structuredOutput : Bool
  maxOutputTokens : ℤ

structure GenerationMessage where
  role : Str
  content : Str

/-- `temperature` is kept as the decimal its `str` spells. -/
structure Generation where
  messages : List GenerationMessage
  temperature : Decimal
  seed : Option ℤ
  responseSchema : List (Str × Json)

structure InferenceRequest where
  protocolVersion : ℤ
  requestId : Str
  requestExpiresAt : Expiry
  task : TaskReference
  requirements : Requirements
  generation : Generation

def InferenceRequest.expiresAt (request : InferenceRequest) : Datetime := request.requestExpiresAt.time

/-- `(request.task.id, request.task.version)`. -/
abbrev Task := Str × ℤ

instance : LawfulBEq Task := inferInstance

def InferenceRequest.taskKey (request : InferenceRequest) : Task :=
  (request.task.id, request.task.version)

def documentTaskV2 : Task := (str "document.summary.step", 2)

def emailAnalyzeTask : Task := (str "email.analyze", 1)

def requiredContextTokens (task : Option Task) : ℤ :=
  if task = some documentTaskV2 then documentContextTokens else 0

/-- What construction of the model guarantees of a request. -/
structure InferenceRequest.Accepted (checkSchema : Json → Bool) (request : InferenceRequest) :
    Prop where
  protocol : request.protocolVersion = Gateway.protocolVersion
  requestId : uuidV4 request.requestId
  taskId : 1 ≤ request.task.id.length ∧ request.task.id.length ≤ 128 ∧ taskIdPattern request.task.id
  taskVersion : 1 ≤ request.task.version ∧ request.task.version ≤ 2147483647
  modalities : request.requirements.inputModalities = [str "text"]
  mediaType : request.requirements.outputMediaType = str "application/json"
  structured : request.requirements.structuredOutput = true
  outputTokens : 1 ≤ request.requirements.maxOutputTokens ∧
    request.requirements.maxOutputTokens ≤ maxOutputTokens
  contents : ∀ m ∈ request.generation.messages,
    1 ≤ m.content.length ∧ m.content.length ≤ maxMessageChars ∧ Scalars m.content
  temperature : 0 ≤ request.generation.temperature.toRat ∧ request.generation.temperature.toRat ≤ 1 ∧
    request.generation.temperature.Constructible
  seed : ∀ n ∈ request.generation.seed, 0 ≤ n ∧ n ≤ 9223372036854775807
  shape : validateGenerationShape checkSchema (request.generation.messages.map GenerationMessage.role)
    request.generation.responseSchema = .ok ()
  schema : Parsed (.dict request.generation.responseSchema)

/-! Dump and digest. -/

def GenerationMessage.modelDump (m : GenerationMessage) : Json :=
  .dict [(str "role", .string m.role), (str "content", .string m.content)]

def Generation.modelDump (g : Generation) : Json :=
  .dict ([(str "messages", .list (g.messages.map GenerationMessage.modelDump)),
    (str "temperature", .decimal g.temperature)] ++
    g.seed.toList.map (fun n => (str "seed", Json.int n)) ++
    [(str "response_schema", .dict g.responseSchema)])

/-- `model_dump(mode="python", exclude_none=True)`; an absent seed leaves no field. -/
def InferenceRequest.modelDump (request : InferenceRequest) : Json :=
  .dict [(str "protocol_version", .int request.protocolVersion),
    (str "request_id", .string request.requestId),
    (str "request_expires_at", .string request.requestExpiresAt.text),
    (str "task", .dict [(str "id", .string request.task.id),
      (str "version", .int request.task.version)]),
    (str "requirements", .dict [
      (str "input_modalities", .list (request.requirements.inputModalities.map Json.string)),
      (str "output_media_type", .string request.requirements.outputMediaType),
      (str "structured_output", .bool request.requirements.structuredOutput),
      (str "max_output_tokens", .int request.requirements.maxOutputTokens)]),
    (str "generation", request.generation.modelDump)]

/-- `InferenceRequest.canonical_digest`, over any hash. -/
def InferenceRequest.canonicalDigest (sha256 : Bytes → Str) (request : InferenceRequest) :
    Except JsonError Str := do
  let encoded ← encodeJsonBytes request.modelDump true
  return sha256 encoded

end Gateway
