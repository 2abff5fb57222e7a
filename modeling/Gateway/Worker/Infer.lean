import Gateway.Worker.Availability

/-! Inference on one worker: the completion, and what is made of its response. -/
namespace Gateway

open Json (get)

def maxOutputContentBytes : ℕ := 750000

structure WorkerResult where
  mediaType : Str
  content : Str
deriving DecidableEq

/-- What is outside the gateway: how deep the interpreter goes, and whether the validation library
finds no fault with a document under a schema. -/
structure Library where
  recursionLimit : ℕ
  validates : List (Str × Json) → List (Str × Json) → Bool

/-! The response of a completion. -/

/-- Python's truth of a value. -/
def Json.truthy : Json → Bool
  | .null => false
  | .bool b => b
  | .int n => n ≠ 0
  | .decimal d => d.coefficient ≠ 0
  | .string s => s ≠ []
  | .list items => !items.isEmpty
  | .dict fields => !fields.isEmpty

/-- `message.get(key) or otherwise`. -/
def getOr (message : List (Str × Json)) (key : Str) (otherwise : Json) : Json :=
  match get message key with
  | some v => if v.truthy then v else otherwise
  | none => otherwise

/-- `isinstance(content, str) and content.strip()`. -/
def writtenText (content : Json) : Option Str :=
  content.asString?.filter (fun s => strip s ≠ [])

/-- The content of a message, or else what it reasoned. -/
def messageContent (message : List (Str × Json)) : Option Str :=
  (writtenText (getOr message (str "content") (.string []))).or
    (writtenText (getOr message (str "reasoning_content")
      (getOr message (str "reasoning") (.string []))))

/-- `finish_reason not in {None, "stop"}`; a list or a dict cannot be looked up in a set. -/
def checkFinish (choice : List (Str × Json)) : Except WorkerRaised Unit :=
  match get choice (str "finish_reason") with
  | none | some .null => .ok ()
  | some (.string reason) =>
    if reason = str "stop" then .ok ()
    else .error (.invalidOutput "worker completion did not finish normally")
  | some (.list _) | some (.dict _) => .error .typeError
  | some _ => .error (.invalidOutput "worker completion did not finish normally")

/-- The first choice and its message. -/
def firstChoice (document : List (Str × Json)) :
    Except WorkerRaised (List (Str × Json) × List (Str × Json)) :=
  match get document (str "choices") with
  | some (.list (.dict choice :: _)) =>
    match get choice (str "message") with
    | some (.dict message) => .ok (choice, message)
    | _ => .error (.invalidOutput "worker response has no completion message")
  | _ => .error (.invalidOutput "worker response has no completion message")

/-- The document a content holds, read from its UTF-8 octets. -/
def generatedDocument (library : Library) (content : Str) :
    Except WorkerRaised (List (Str × Json)) :=
  if ¬ Scalars content then .error (.invalidOutput "worker content is not valid UTF-8")
  else if maxOutputContentBytes < (utf8 content).length then
    .error (.invalidOutput "worker content exceeds its byte limit")
  else
    match loads library.recursionLimit (utf8 content) with
    | .error e =>
      .error (if e.caught then .invalidOutput "worker content is not valid JSON" else .json e)
    | .ok (.dict generated) => .ok generated
    | .ok _ => .error (.invalidOutput "worker content must be a JSON object")

/-- `_validated_result`; `normalize_json_numbers` leaves a schema without floats as it is. -/
def validatedResult (library : Library) (schema document : List (Str × Json)) :
    Except WorkerRaised WorkerResult := do
  let (choice, message) ← firstChoice document
  checkFinish choice
  match messageContent message with
  | none => .error (.invalidOutput "worker response has no generated content")
  | some content =>
    let generated ← generatedDocument library content
    if library.validates schema generated then
      return ⟨str "application/json", content⟩
    else .error (.invalidOutput "worker content does not match response schema")

/-! The dispatch. -/

def Worker.payload : Worker → InferenceRequest → List (Str × Json)
  | .ollama worker => ollamaPayload worker.model
  | .lmStudio worker => lmStudioPayload worker.model worker.idleTtlSeconds

/-- `_dispatch_timeout`. -/
def dispatchTimeout (timeout : ℚ) (deadline : Option ℚ) : Work ℚ :=
  match deadline with
  | none => pure timeout
  | some deadline => do
    let now ← Work.clock
    if deadline - now ≤ 0 then
      Program.throw (.unavailable "worker routing deadline expired before dispatch")
    else return min timeout (deadline - now)

/-- What comes before the submission. -/
def checkCapacity (library : Library) (worker : Worker) (request : InferenceRequest) (timeout : ℚ)
    (deadline : Option ℚ) : Work Unit := do
  let _ ← dispatchTimeout timeout deadline
  let capacity ← contextAvailability library.recursionLimit worker
    (requiredContextTokens (some request.taskKey))
  if capacity ≠ .available then
    Program.throw (.unavailable "worker task context capacity is not established")
  else return ()

/-- The block on the response of a completion. -/
def readCompletion (library : Library) (response : HttpResponse) :
    Except WorkerRaised (List (Str × Json)) :=
  if response.statusCode = 404 ∨ response.statusCode = 429 ∨
      500 ≤ response.statusCode ∧ response.statusCode ≤ 599 then
    .error (.unavailable "worker rejected admission while unavailable")
  else if 400 ≤ response.statusCode then
    .error (.invalidOutput "worker rejected the gateway request")
  else boundedJson library.recursionLimit response

/-- The submission: once its content is encoded it is sent. -/
def submit (library : Library) (worker : Worker) (request : InferenceRequest) :
    Work (List (Str × Json)) :=
  match completionBody worker.payload request with
  | .error e => Program.throw (.json e)
  | .ok content => Work.stream ⟨worker, .completion content⟩ (readCompletion library)

/-- The inside of `async with self._client(...)`, with the flag `submitted`. -/
def exchange (library : Library) (worker : Worker) (request : InferenceRequest) (timeout : ℚ)
    (deadline : Option ℚ) : Work (Bool × Except WorkerRaised (List (Str × Json))) := do
  match ← (checkCapacity library worker request timeout deadline).attempt with
  | .error e => return (false, .error e)
  | .ok () => return (true, ← (submit library worker request).attempt)

/-- The same between opening and closing the client. -/
def clientExchange (library : Library) (worker : Worker) (request : InferenceRequest) (timeout : ℚ)
    (deadline : Option ℚ) : Work (Bool × Except WorkerRaised (List (Str × Json))) := do
  match ← Work.awaitClient.attempt with
  | .error e => return (false, .error e)
  | .ok () =>
    let (submitted, outcome) ← exchange library worker request timeout deadline
    match ← Work.awaitClient.attempt with
    | .error e => return (submitted, .error e)
    | .ok () => return (submitted, outcome)

/-- The `except` clauses of `_infer`. -/
def classify (submitted : Bool) : WorkerRaised → WorkerRaised
  | .fault .connectError | .fault .connectTimeout => .unavailable "worker connection was unavailable"
  | .invalidOutput message =>
    if submitted then .invalidOutput message
    else .unavailable "worker capacity check failed before dispatch"
  | .fault .httpError | .fault .timeoutError =>
    if submitted then .outcomeAmbiguous "worker outcome is unknown"
    else .unavailable "worker capacity check failed before dispatch"
  | e => e

/-- `infer`. -/
def inferOn (library : Library) (worker : Worker) (request : InferenceRequest) (timeout : ℚ)
    (deadline : Option ℚ) : Work WorkerResult := do
  let (submitted, outcome) ← clientExchange library worker request timeout deadline
  match outcome with
  | .error e => Program.throw (classify submitted e)
  | .ok document => .done (validatedResult library request.generation.responseSchema document)

end Gateway
