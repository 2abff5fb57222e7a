import Gateway.Foundation.Interaction
import Gateway.Foundation.Lines
import Gateway.Worker.Payload

/-! What a worker asks over HTTP, what it may be answered, and how a body is read. -/
namespace Gateway

def maxWorkerResponseBytes : ℕ := 1000000

/-- What `httpx` and `asyncio.timeout` raise. -/
inductive Fault where
  | connectError
  | connectTimeout
  /-- Every other `httpx.HTTPError`. -/
  | httpError
  | timeoutError
deriving DecidableEq

/-- What leaves a method of a worker. -/
inductive WorkerRaised where
  | unavailable (message : String)
  | outcomeAmbiguous (message : String)
  | invalidOutput (message : String)
  | fault (f : Fault)
  /-- `unhashable type`. -/
  | typeError
  /-- What a JSON function of the gateway raises and nothing here catches. -/
  | json (e : JsonError)
deriving DecidableEq

structure OllamaWorker where
  baseUrl : Str
  model : Str
deriving DecidableEq

structure LMStudioWorker extends OllamaWorker where
  token : Str
  idleTtlSeconds : ℤ
deriving DecidableEq

/-- `LMStudioWorker` is a subclass of `OllamaWorker`. -/
inductive Worker where
  | ollama (worker : OllamaWorker)
  | lmStudio (worker : LMStudioWorker)
deriving DecidableEq

def Worker.baseUrl : Worker → Str
  | .ollama worker => worker.baseUrl
  | .lmStudio worker => worker.baseUrl

def Worker.model : Worker → Str
  | .ollama worker => worker.model
  | .lmStudio worker => worker.model

/-- The requests a worker makes: `GET /v1/models`, `POST /api/show`, `GET /api/ps` and
`POST /v1/chat/completions`. -/
inductive Call where
  | models
  | show (model : Str)
  | residents
  | completion (content : Bytes)
deriving DecidableEq

/-- A call on the endpoint of a worker, with that worker's headers. -/
structure HttpRequest where
  worker : Worker
  call : Call
deriving DecidableEq

def HttpRequest.authorization (request : HttpRequest) : Option Str :=
  match request.worker with
  | .ollama _ => none
  | .lmStudio worker => some (str "Bearer " ++ worker.token)

def HttpRequest.IsCompletion (request : HttpRequest) : Bool :=
  match request.call with
  | .completion _ => true
  | _ => false

/-- A response as far as it is read: the raw chunks, what cuts them off, and what closing raises. -/
structure HttpResponse where
  statusCode : ℕ
  contentEncoding : Option Str
  contentLength : Option Str
  chunks : List Bytes
  cut : Option Fault
  closing : Option Fault
deriving DecidableEq

/-- What a worker asks of the world: requests, the clock, and to wait for a client. -/
inductive Query where
  | send (request : HttpRequest)
  | monotonic
  | client
deriving DecidableEq

/-- A request is answered or fails before its response; opening or closing a client may fail. -/
def Query.Answer : Query → Type
  | .send _ => Except Fault HttpResponse
  | .monotonic => ℚ
  | .client => Option Fault

abbrev Work (α : Type) := Program Query Query.Answer WorkerRaised α

namespace Work

def clock : Work ℚ := .ask .monotonic (fun now => .done (.ok (now : ℚ)))

/-- What an `await` on a client ends with. -/
def settleClient : Option Fault → Except WorkerRaised Unit
  | none => .ok ()
  | some f => .error (.fault f)

/-- An `await` on a client that is opened or closed. -/
def awaitClient : Work Unit := .ask .client (fun answer => .done (settleClient answer))

/-- What a block on a response ends with; what closing raises replaces what the block does. -/
def settle {α : Type} (block : HttpResponse → Except WorkerRaised α) :
    Except Fault HttpResponse → Except WorkerRaised α
  | .error f => .error (.fault f)
  | .ok response =>
    match response.closing with
    | some f => .error (.fault f)
    | none => block response

/-- `async with client.stream(...) as response`. -/
def stream {α : Type} (request : HttpRequest) (block : HttpResponse → Except WorkerRaised α) :
    Work α :=
  .ask (.send request) (fun answer => .done (settle block answer))

end Work

/-! The body of a response. -/

/-- Case folding as far as two ASCII words can tell: nothing else folds into their letters. -/
def casefold (s : Str) : Str := s.map (fun c => if 65 ≤ c && c ≤ 90 then c + 32 else c)

/-- The white space `int` skips. -/
def skipsInt (s : Str) (c : ℕ) : Bool :=
  if s.all (· < 128) then (9 ≤ c && c ≤ 13) || c = 32 else isWhite c

/-- Decimal digits, single underscores allowed between them. -/
def groupDigits : Str → Option (List ℕ)
  | [] => none
  | [c] => (decimalDigit? c).map ([·])
  | c :: 95 :: s => do
    let d ← decimalDigit? c
    let ds ← groupDigits s
    return d :: ds
  | c :: s => do
    let d ← decimalDigit? c
    let ds ← groupDigits s
    return d :: ds

/-- `int` on a text; `ValueError` is `none`. -/
def parseInt (s : Str) : Option ℤ :=
  let text := ((s.dropWhile (skipsInt s)).reverse.dropWhile (skipsInt s)).reverse
  let magnitude (digits : Str) : Option ℤ :=
    (groupDigits digits).bind (fun ds =>
      if ds.length ≤ intMaxStrDigits then some (digitsValue ds : ℤ) else none)
  match text with
  | 45 :: digits => (magnitude digits).map (- ·)
  | 43 :: digits => magnitude digits
  | digits => magnitude digits

/-- The loop over `aiter_raw`; `body` is what has been read. -/
def readChunks (cut : Option Fault) (body : Bytes) : List Bytes → Except WorkerRaised Bytes
  | [] => match cut with
    | none => .ok body
    | some f => .error (.fault f)
  | chunk :: chunks =>
    if maxWorkerResponseBytes < body.length + chunk.length then
      .error (.invalidOutput "worker response encoding or size is unsupported")
    else readChunks cut (body ++ chunk) chunks

/-- What the headers are checked for before the body is read. -/
def checkHeaders (response : HttpResponse) : Except WorkerRaised Unit :=
  if casefold (strip (response.contentEncoding.getD (str "identity"))) ∉ [[], str "identity"] then
    .error (.invalidOutput "worker response encoding or size is unsupported")
  else
    match response.contentLength with
    | none => .ok ()
    | some text =>
      match parseInt text with
      | none => .error (.invalidOutput "worker response content length is invalid")
      | some length =>
        if maxWorkerResponseBytes < length then
          .error (.invalidOutput "worker response encoding or size is unsupported")
        else .ok ()

/-- `_bounded_json`. -/
def boundedJson (recursionLimit : ℕ) (response : HttpResponse) :
    Except WorkerRaised (List (Str × Json)) := do
  checkHeaders response
  let body ← readChunks response.cut [] response.chunks
  match loads recursionLimit body with
  | .error e => .error (if e.caught then .invalidOutput "worker response is not valid JSON" else .json e)
  | .ok (.dict document) => .ok document
  | .ok _ => .error (.invalidOutput "worker response must be a JSON object")

end Gateway
