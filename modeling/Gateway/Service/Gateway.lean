import Gateway.Service.Policy
import Gateway.Store.Effects
import Gateway.Worker.Infer

/-! The running service: calls of `infer` cut into their atomic steps, on one lane and one file. -/
namespace Gateway

/-- `_ActiveAttempt`; its event is set when the call that made it has ended. -/
structure ActiveAttempt where
  requestId : Str
  owner : ℕ
deriving DecidableEq

/-- Where a call of `infer` stands. -/
inductive Pc where
  | arrived
  /-- The policy has been checked at this time. -/
  | policed (now : Datetime)
  /-- `admit` has returned a record that answers nothing yet. -/
  | admitted (record : RequestRecord)
  | waiting (active : ActiveAttempt)
  | reloading
  /-- From here on the call owns the lane. -/
  | claimed (attemptId : Str)
  | marked (attemptId : Str)
  | dispatched (attemptId : Str)
  | settling (attemptId : Str) (outcome : Except WorkerRaised WorkerResult)
  | stored (attemptId : Str)
  | recovering (attemptId : Str)
  | leaving (result : Except Escape Response)
  | done (result : Except Escape Response)

/-- One call, its request's digest, and when its last step was. -/
structure InferCall where
  credential : Credential
  request : InferenceRequest
  digest : Str
  since : Datetime
  pc : Pc

/-- What a call has ended in. -/
def InferCall.result? (call : InferCall) : Option (Except Escape Response) :=
  match call.pc with
  | .done result => some result
  | _ => none

theorem InferCall.result?_eq_some {call : InferCall} {result : Except Escape Response} :
    call.result? = some result ↔ call.pc = .done result := by
  unfold InferCall.result?
  split <;> simp_all

/-- One process of the gateway with its file and the clock; calls are numbered. -/
structure GatewayService where
  settings : Settings
  taskPolicyVersion : ℤ
  db : Database
  clock : Datetime
  active : Option ActiveAttempt
  calls : ℕ → Option InferCall

/-- What one call does next, with what it reads or is given there. -/
inductive Action where
  /-- `_validate_policy`. -/
  | policy (now : Datetime)
  /-- `store.admit`, and `_existing_response` of its record. -/
  | admission
  /-- `_claim_lane` or `_join_active`. -/
  | lane (attemptId : Str)
  /-- `active.finished.wait` returns. -/
  | wake
  | timeout
  /-- `_reload_after_attempt`. -/
  | reload (now : Datetime)
  | mark (now : Datetime)
  /-- The second look at the clock, and the call of the worker. -/
  | dispatch (now : Datetime)
  | outcome (outcome : Except WorkerRaised WorkerResult)
  /-- The transaction that closes the attempt. -/
  | close (now : Datetime) (nonce : Bytes)
  /-- The read after a completion. -/
  | finish (now : Datetime)
  /-- `except StoreError`. -/
  | recover (now : Datetime)
  /-- `finally`. -/
  | release

def Action.now? : Action → Option Datetime
  | .policy now => some now
  | .reload now => some now
  | .mark now => some now
  | .dispatch now => some now
  | .close now _ => some now
  | .finish now => some now
  | .recover now => some now
  | _ => none

/-- What happens next in the process or to it. -/
inductive Event where
  | tick (now : Datetime)
  | arrive (c : ℕ) (credential : Credential) (request : InferenceRequest)
  | act (c : ℕ) (action : Action)
  | acknowledge (credential : Credential) (requestId disposition : Str) (now : Datetime)
  | maintain (now : Datetime)
  /-- A crash, at any point, and the next process on the same file. -/
  | restart (settings : Settings) (taskPolicyVersion : ℤ) (now : Datetime)

/-! What is made of each result. -/

/-- `raise GatewayFailure(code, True, status_code, self.settings.retry_after_seconds)`. -/
def failLater {α : Type} (settings : Settings) (code : String) (statusCode : ℕ) : Except Escape α :=
  .error (.failure ⟨str code, true, statusCode, some settings.retryAfterSeconds⟩)

def afterPolicy (now : Datetime) : Except Escape Unit → Pc
  | .error e => .done (.error e)
  | .ok () => .policed now

def afterAdmission (settings : Settings) (cipher : Cipher) : Except Raised RequestRecord → Pc
  | .error e => .done (.error (admitFailure settings e))
  | .ok record =>
    match existingResponse cipher record with
    | .error e => .done (.error e)
    | .ok (some response) => .done (.ok response)
    | .ok none => .admitted record

/-- Nothing in `_reload_after_attempt` takes what `get_owned` raises. -/
def afterReload (settings : Settings) (cipher : Cipher) :
    Except Raised RequestRecord → Except Escape Response
  | .error e => .error (.raised e)
  | .ok record =>
    match existingResponse cipher record with
    | .error e => .error e
    | .ok (some response) => .ok response
    | .ok none =>
      if record.state = .reserved then failLater settings "worker_unavailable" 503
      else failLater settings "inference_timeout" 504

/-- Where an admitted record leads, and the lane after it. -/
def afterLane (settings : Settings) (active : Option ActiveAttempt) (c : ℕ) (record : RequestRecord)
    (attemptId : Str) : Pc × Option ActiveAttempt :=
  match record.state with
  | .inProgress =>
    match active with
    | some attempt =>
      if attempt.requestId = record.requestId then (.waiting attempt, active) else (.reloading, active)
    | none => (.reloading, active)
  | .ambiguous => (.done (failLater settings "inference_timeout" 504), active)
  | .reserved =>
    match active with
    | some attempt =>
      if attempt.requestId = record.requestId then (.waiting attempt, active)
      else (.done (failLater settings "capacity_limited" 429), active)
    | none => (.claimed attemptId, some ⟨record.requestId, c⟩)
  | _ => (.done (fail "invalid_request" false 409), active)

/-- A `StoreError` in the owner's block is recovered from; anything else leaves it. -/
def ownerStep {α : Type} (attemptId : Str) (next : α → Pc) : Except Raised α → Pc
  | .ok a => next a
  | .error e => if e.isStoreError then .recovering attemptId else .leaving (.error (.raised e))

/-- The read after a completion that was stored. -/
def afterFinish (cipher : Cipher) (record : RequestRecord) : Except Escape Response :=
  match existingResponse cipher record with
  | .error e => .error e
  | .ok (some response) => .ok response
  | .ok none => fail "invalid_worker_output" false 500

/-- After the recovery the call ends, unless the recovery itself has raised. -/
def afterRecovery (settings : Settings) : Except Raised Unit → Except Escape Response
  | .error e => .error (.raised e)
  | .ok () => failLater settings "inference_timeout" 504

section Steps

variable (cipher : Cipher) (s : GatewayService) (call : InferCall)

/-- `store.get_owned` with the call's identity. -/
def InferCall.getOwned (now : Datetime) : Except Raised RequestRecord × Database :=
  transaction (Gateway.getOwned s.settings.store now call.request.requestId
    call.credential.identityHash (some call.digest)) s.db

/-- `if request.expires_at <= now`: a read of the record, then the failure; else what comes next. -/
def InferCall.unlessExpired (attemptId : Str) (now : Datetime) (next : Pc × Database) :
    Pc × Database :=
  if call.request.expiresAt ≤ now then
    let read := call.getOwned s now
    (ownerStep attemptId (fun _ => .leaving (fail "request_expired" false 409)) read.1, read.2)
  else next

/-- What closes an attempt, after each outcome of the worker. -/
def InferCall.closing (attemptId : Str) (now : Datetime) (nonce : Bytes) :
    Except WorkerRaised WorkerResult → Pc × Database
  | .ok result =>
    let completed := transaction (complete s.settings.store now cipher nonce
      call.request.requestId attemptId result.mediaType result.content s.settings.deploymentId
      s.taskPolicyVersion) s.db
    (ownerStep attemptId (fun done =>
      if done then .stored attemptId else .leaving (fail "request_expired" false 409)) completed.1,
      completed.2)
  | .error (.unavailable _) =>
    let reset := transaction (resetReserved now call.request.requestId attemptId) s.db
    (ownerStep attemptId (fun _ => .leaving (failLater s.settings "worker_unavailable" 503)) reset.1,
      reset.2)
  | .error (.invalidOutput _) =>
    let failed := transaction (markFailed now call.request.requestId attemptId
      (str "invalid_worker_output") false none) s.db
    (ownerStep attemptId (fun _ => .leaving (fail "invalid_worker_output" false 502)) failed.1,
      failed.2)
  | .error _ =>
    let marked := transaction (markAmbiguous now call.request.requestId attemptId) s.db
    (ownerStep attemptId (fun _ => .leaving (failLater s.settings "inference_timeout" 504)) marked.1,
      marked.2)

/-- A step that leaves the lane as it is. -/
def GatewayService.keepsLane (next : Pc × Database) : Pc × Database × Option ActiveAttempt :=
  (next.1, next.2, s.active)

/-- The call's step, if it stands where the action is taken: its next place, the file, the lane. -/
def InferCall.step (c : ℕ) : Pc → Action → Option (Pc × Database × Option ActiveAttempt)
  | .arrived, .policy now =>
    some (s.keepsLane
      (afterPolicy now (validatePolicy s.settings call.credential call.request now), s.db))
  | .policed now, .admission =>
    let admitted := transaction (admitRequest s.settings.store now call.request
      call.credential.identityHash call.digest) s.db
    some (s.keepsLane (afterAdmission s.settings cipher admitted.1, admitted.2))
  | .admitted record, .lane attemptId =>
    let lane := afterLane s.settings s.active c record attemptId
    some (lane.1, s.db, lane.2)
  | .waiting active, .wake =>
    if ((s.calls active.owner).bind InferCall.result?).isSome then
      some (s.keepsLane (.reloading, s.db))
    else none
  | .waiting _, .timeout =>
    some (s.keepsLane (.done (failLater s.settings "inference_timeout" 504), s.db))
  | .reloading, .reload now =>
    let read := call.getOwned s now
    some (s.keepsLane (.done (afterReload s.settings cipher read.1), read.2))
  | .claimed attemptId, .mark now =>
    let marked := transaction (markInProgress s.settings.store now call.request.requestId
      attemptId) s.db
    some (s.keepsLane (call.unlessExpired s attemptId now
      (ownerStep attemptId (fun _ => .marked attemptId) marked.1, marked.2)))
  | .marked attemptId, .dispatch now =>
    some (s.keepsLane (call.unlessExpired s attemptId now (.dispatched attemptId, s.db)))
  | .dispatched attemptId, .outcome outcome => some (s.keepsLane (.settling attemptId outcome, s.db))
  | .settling attemptId outcome, .close now nonce =>
    some (s.keepsLane (call.closing cipher s attemptId now nonce outcome))
  | .stored attemptId, .finish now =>
    let read := call.getOwned s now
    some (s.keepsLane
      (ownerStep attemptId (fun record => .leaving (afterFinish cipher record)) read.1, read.2))
  | .recovering attemptId, .recover now =>
    let marked := transaction (markAmbiguous now call.request.requestId attemptId) s.db
    some (s.keepsLane (.leaving (afterRecovery s.settings marked.1), marked.2))
  | .leaving result, .release => some (.done result, s.db, none)
  | _, _ => none

end Steps

section Service

variable (cipher : Cipher) (sha256 : Bytes → Str) (s : GatewayService)

/-- A clock is read between the call's last step and now. -/
def GatewayService.reads (call : InferCall) (action : Action) : Bool :=
  action.now?.all (fun now => call.since ≤ now && now ≤ s.clock)

/-- The state after an event that is possible. -/
def GatewayService.next : Event → Option GatewayService
  | .tick now => if s.clock ≤ now then some { s with clock := now } else none
  | .arrive c credential request =>
    match s.calls c, request.canonicalDigest sha256 with
    | none, .ok digest =>
      some { s with
        calls := Function.update s.calls c (some ⟨credential, request, digest, s.clock, .arrived⟩) }
    | _, _ => none
  | .act c action =>
    match s.calls c with
    | none => none
    | some call =>
      if s.reads call action then
        (call.step cipher s c call.pc action).map (fun (pc, db, active) =>
          { s with
            db := db, active := active
            calls := Function.update s.calls c (some { call with since := s.clock, pc := pc }) })
      else none
  | .acknowledge credential requestId disposition now =>
    if now ≤ s.clock then
      some { s with db := ((StoreCall.acknowledge requestId credential.identityHash disposition now).run
        s.settings.store cipher s.db).2 }
    else none
  | .maintain now =>
    if now ≤ s.clock then
      some { s with db := ((StoreCall.maintain now).run s.settings.store cipher s.db).2 }
    else none
  | .restart settings taskPolicyVersion now =>
    if now ≤ s.clock then
      match initializeStore settings.store now s.db with
      | (.ok (), db) => some ⟨settings, taskPolicyVersion, db, s.clock, none, fun _ => none⟩
      | (.error _, _) => none
    else none

/-- The first process on an empty file. -/
def GatewayService.initial (settings : Settings) (taskPolicyVersion : ℤ) (now : Datetime) :
    Option GatewayService :=
  match initializeStore settings.store now Database.empty with
  | (.ok (), db) => some ⟨settings, taskPolicyVersion, db, now, none, fun _ => none⟩
  | (.error _, _) => none

end Service

end Gateway
