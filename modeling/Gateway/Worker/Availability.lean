import Gateway.Worker.Http

/-! Whether a worker is available: its models, its configured context, its resident models. -/
namespace Gateway

open Json (get)

def maxWorkerContextTokens : ℕ := 1048576

inductive WorkerAvailability where
  | available
  | unavailable
  | unknown
deriving DecidableEq

/-- `async with self._client(...) as client`: the client is closed however the block ends. -/
def Work.withClient {α : Type} (block : Work α) : Work α := do
  Work.awaitClient
  let outcome ← block.attempt
  Work.awaitClient
  Program.done outcome

/-- A request whose response is read when its status is 200. -/
def Work.probe (recursionLimit : ℕ) (request : HttpRequest) : Work (Option (List (Str × Json))) :=
  Work.stream request (fun response =>
    if response.statusCode ≠ 200 then .ok none
    else (boundedJson recursionLimit response).map some)

/-! The configured context. -/

def numCtx : Str := str "num_ctx"

/-- `[fields for fields in settings if fields[0] == "num_ctx"]`. -/
def contextSettings (parameters : Str) : List (List Str) :=
  (((splitLines parameters).filter (fun line => strip line ≠ [])).map split).filter
    (fun fields => fields.head? = some numCtx)

/-- `value.isascii() and value.isdigit()`. -/
def asciiDigits (value : Str) : Bool := value ≠ [] && value.all JsonText.isDigit

/-- `int` of ASCII digits. -/
def digitsInt (value : Str) : ℕ := digitsValue (value.map (· - 48))

/-- The context the parameters configure, where they configure exactly one. -/
def configuredContext (parameters : Str) : Option ℕ :=
  match contextSettings parameters with
  | [[_, value]] =>
    if asciiDigits value && value.length ≤ 7 && 1 ≤ digitsInt value &&
        digitsInt value ≤ maxWorkerContextTokens then some (digitsInt value) else none
  | _ => none

/-- The verdict on `/api/show`, unless the resident models are to be looked at. -/
def configurationVerdict (minimum : ℤ) (document : List (Str × Json)) : Option WorkerAvailability :=
  match ((get document (str "parameters")).bind Json.asString?).bind configuredContext with
  | none => some .unknown
  | some configured => if configured < minimum then some .unavailable else none

/-! The resident models. -/

/-- `[item[key] for key in ("name", "model") if key in item]`. -/
def identities (item : List (Str × Json)) : List Json :=
  [str "name", str "model"].filterMap (get item)

/-- `not isinstance(v, str) or not v`. -/
def namesNothing (v : Json) : Bool := v.asString?.all (· = [])

/-- The loop over the resident models; `matched` is whether one was the configured model. -/
def residentVerdict (model : Str) (minimum : ℤ) : Bool → List Json → WorkerAvailability
  | _, [] => .available
  | matched, .dict item :: items =>
    if identities item = [] || (identities item).any namesNothing then .unknown
    else if .string model ∉ identities item then residentVerdict model minimum matched items
    else if matched || (identities item).any (· ≠ .string model) then .unknown
    else
      match get item (str "context_length") with
      | some (.int context) =>
        if ¬ (1 ≤ context ∧ context ≤ maxWorkerContextTokens) then .unknown
        else if context < minimum then .unavailable
        else residentVerdict model minimum true items
      | _ => .unknown
  | _, _ :: _ => .unknown

def residentsVerdict (model : Str) (minimum : ℤ) (document : List (Str × Json)) :
    WorkerAvailability :=
  match (get document (str "models")).bind Json.asList? with
  | none => .unknown
  | some models => residentVerdict model minimum false models

/-! The probes. -/

/-- `_context_availability`, which `LMStudioWorker` overrides. -/
def contextAvailability (recursionLimit : ℕ) (worker : Worker) (minimum : ℤ) :
    Work WorkerAvailability :=
  match worker with
  | .lmStudio _ => pure (if minimum = 0 then .available else .unavailable)
  | .ollama ollama =>
    if minimum = 0 then pure .available
    else do
      match ← Work.probe recursionLimit ⟨worker, .show ollama.model⟩ with
      | none => pure .unknown
      | some configuration =>
        match configurationVerdict minimum configuration with
        | some verdict => pure verdict
        | none =>
          match ← Work.probe recursionLimit ⟨worker, .residents⟩ with
          | none => pure .unknown
          | some resident => pure (residentsVerdict ollama.model minimum resident)

/-- The `id` of every listed model, if each has one. -/
def modelIds (document : List (Str × Json)) : Option (List Str) :=
  ((get document (str "data")).bind Json.asList?).bind (fun models =>
    models.mapM (fun item => (item.asDict?.bind (get · (str "id"))).bind Json.asString?))

/-- `_availability`. -/
def availabilityProbe (recursionLimit : ℕ) (worker : Worker) (minimum : ℤ) :
    Work WorkerAvailability :=
  Work.withClient do
    match ← Work.probe recursionLimit ⟨worker, .models⟩ with
    | none => pure .unknown
    | some document =>
      match modelIds document with
      | none => pure .unknown
      | some ids =>
        if worker.model ∉ ids then pure .unavailable
        else contextAvailability recursionLimit worker minimum

/-- `except (TimeoutError, httpx.HTTPError, InvalidWorkerOutput)`. -/
def WorkerRaised.failsProbe : WorkerRaised → Bool
  | .fault _ | .invalidOutput _ => true
  | _ => false

/-- `availability`. -/
def availability (recursionLimit : ℕ) (worker : Worker) (task : Option Task) :
    Work WorkerAvailability :=
  (availabilityProbe recursionLimit worker (requiredContextTokens task)).handle (fun e =>
    if e.failsProbe then pure .unknown else Program.throw e)

/-- `health`. -/
def health (recursionLimit : ℕ) (worker : Worker) (task : Option Task) : Work Bool := do
  return (← availability recursionLimit worker task) = .available

/-- `document.get("models") == []`. -/
def listsNoModels (document : List (Str × Json)) : Bool :=
  (get document (str "models")).any (· = .list [])

/-- `fallback_capacity_available`; a worker of LM Studio has none. -/
def fallbackCapacityAvailable (recursionLimit : ℕ) (worker : Worker) : Work Bool :=
  match worker with
  | .lmStudio _ => pure false
  | .ollama _ =>
    (Work.withClient do
      let document ← Work.probe recursionLimit ⟨worker, .residents⟩
      return document.any listsNoModels).handle (fun e =>
        if e.failsProbe then pure false else Program.throw e)

end Gateway
