import Gateway.Store.Row

/-! The ten operations of the store, each one transaction that commits or rolls back. -/
namespace Gateway

structure StoreSettings where
  maxOpenTotal : ℕ
  maxOpenPerCredential : ℕ
  tombstoneRetentionSeconds : ℤ

/-- The database file: no tables yet, or the supported ones and the version in the metadata. -/
structure Database where
  version : Option ℤ
  requests : Table
  created : version = none → requests = KeyedTable.empty

def schemaVersion : ℤ := 1

def Database.empty : Database := ⟨none, KeyedTable.empty, fun _ => rfl⟩

/-! Conditions and assignments of the statements. -/

/-- `_timestamp`. -/
def timestamp (now : Datetime) : Str := now.strftime

/-- `state IN ('reserved', 'in_progress', 'completed', 'ambiguous')`. -/
def Row.isOpen (row : Row) : Bool :=
  row.state ∈ [.reserved, .inProgress, .completed, .ambiguous]

/-- `state IN ('acknowledged', 'expired')`. -/
def Row.isClosed (row : Row) : Bool := row.state ∈ [.acknowledged, .expired]

/-- `expires_at <= ?` on TEXT. -/
def Row.isDue (row : Row) (now : Datetime) : Bool := utf8 row.expiresAt.text ≤ utf8 (timestamp now)

def Row.expire (row : Row) (now : Datetime) : Row :=
  { row with state := .expired, outputMediaType := none, outputNonce := none,
             outputCiphertext := none, updatedAt := timestamp now }

/-- `request_id = ? AND state = 'in_progress' AND attempt_id = ?`. -/
def Row.isAttempt (row : Row) (requestId attemptId : Str) : Bool :=
  row.requestId = requestId && (row.state = .inProgress && row.attemptId = some attemptId)

/-- The row `admitRequest` inserts. -/
def reservedRow (request : InferenceRequest) (credentialHash requestDigest : Str) (now : Datetime) :
    Row where
  requestId := request.requestId
  credentialHash := credentialHash
  requestDigest := requestDigest
  taskId := request.task.id
  taskVersion := request.task.version
  expiresAt := request.requestExpiresAt
  state := .reserved
  attemptId := none
  outputMediaType := none
  outputNonce := none
  outputCiphertext := none
  producingDeploymentId := none
  producingTaskPolicyVersion := none
  errorCode := none
  errorRetryable := none
  errorRetryAfterSeconds := none
  acknowledgementDisposition := none
  createdAt := timestamp now
  updatedAt := timestamp now
  acknowledgedAt := none

/-! Statements inside a transaction: a table in, a result and the new table out, or a raise. -/

/-- What `admitRequest` counts, over all credentials or over one. -/
def openTotal (t : Table) : ℕ := t.count Row.isOpen

def openPerCredential (t : Table) (credentialHash : Str) : ℕ :=
  t.count (fun row => row.credentialHash = credentialHash && row.isOpen)

/-- `_authorize_existing`. -/
def authorizeExisting (record : RequestRecord) (credentialHash : Str) (requestDigest : Option Str) :
    Except Raised Unit :=
  if record.credentialHash ≠ credentialHash then .error .requestForbidden
  else if requestDigest.any (record.requestDigest ≠ ·) then .error .requestIdentityConflict
  else .ok ()

/-- The first statement of `_cleanup`. -/
def expireDue (now : Datetime) (t : Table) : Table :=
  t.update (fun row => !row.isClosed && row.isDue now) (fun row => row.expire now) (fun _ => rfl)

/-- The second statement: closed rows last touched before the cutoff go. -/
def purge (cutoff : Datetime) (t : Table) : Table :=
  t.delete (fun row => row.isClosed && utf8 row.updatedAt < utf8 (timestamp cutoff))

theorem select_expireDue (now : Datetime) (t : Table) (k : Str) :
    (expireDue now t).select k =
      (t.select k).map (fun row => if !row.isClosed && row.isDue now then row.expire now else row) :=
  KeyedTable.select_update _

theorem select_purge (cutoff : Datetime) (t : Table) (k : Str) :
    (purge cutoff t).select k = (t.select k).filter
      (fun row => !(row.isClosed && utf8 row.updatedAt < utf8 (timestamp cutoff))) :=
  KeyedTable.select_delete

section Operations

variable (settings : StoreSettings) (now : Datetime)

/-- `_cleanup`. -/
def cleanup (t : Table) : Except Raised Table :=
  match now.addSeconds (-settings.tombstoneRetentionSeconds) with
  | none => .error .overflowError
  | some cutoff => .ok (purge cutoff (expireDue now t))

/-- `initialize` on tables that are there. -/
def recover (t : Table) : Except Raised Table :=
  cleanup settings now (t.update (fun row => row.state = .inProgress)
    (fun row => { row with state := .ambiguous, updatedAt := timestamp now }) (fun _ => rfl))

def admitRequest (request : InferenceRequest) (credentialHash requestDigest : Str) (t : Table) :
    Except Raised (RequestRecord × Table) := do
  let t ← cleanup settings now t
  match h : t.select request.requestId with
  | some existing => do
    authorizeExisting existing.record credentialHash (some requestDigest)
    return (existing.record, t)
  | none =>
    if request.expiresAt ≤ now then .error .requestExpired
    else if settings.maxOpenTotal ≤ openTotal t ∨
        settings.maxOpenPerCredential ≤ openPerCredential t credentialHash then
      .error .requestCapacityLimited
    else
      let row := reservedRow request credentialHash requestDigest now
      .ok (row.record, t.insert row h)

def getOwned (requestId credentialHash : Str) (requestDigest : Option Str) (t : Table) :
    Except Raised (RequestRecord × Table) := do
  let t ← cleanup settings now t
  match t.select requestId with
  | none => .error .requestUnknown
  | some row => do
    authorizeExisting row.record credentialHash requestDigest
    return (row.record, t)

def markInProgress (requestId attemptId : Str) (t : Table) :
    Except Raised (RequestRecord × Table) := do
  let t ← cleanup settings now t
  let reserved (row : Row) : Bool := row.requestId = requestId && row.state = .reserved
  let marked := t.update reserved (fun row =>
    { row with state := .inProgress, attemptId := some attemptId, updatedAt := timestamp now })
    (fun _ => rfl)
  if t.matched reserved ≠ 1 then .error (.storeError "request is not reserved for dispatch")
  else
    match marked.select requestId with
    | none => .error .requestUnknown
    | some row => .ok (row.record, marked)

/-- `UPDATE ... WHERE` the attempt, as four operations have it. -/
def updateAttempt (requestId attemptId : Str) (f : Row → Row)
    (hf : ∀ row, (f row).requestId = row.requestId) (t : Table) : Table :=
  t.update (fun row => row.isAttempt requestId attemptId) f hf

def resetReserved (requestId attemptId : Str) (t : Table) : Except Raised (Unit × Table) :=
  .ok ((), updateAttempt requestId attemptId
    (fun row => { row with state := .reserved, attemptId := none, updatedAt := timestamp now })
    (fun _ => rfl) t)

def markAmbiguous (requestId attemptId : Str) (t : Table) : Except Raised (Unit × Table) :=
  .ok ((), updateAttempt requestId attemptId
    (fun row => { row with state := .ambiguous, updatedAt := timestamp now }) (fun _ => rfl) t)

def markFailed (requestId attemptId code : Str) (retryable : Bool) (retryAfterSeconds : Option ℤ)
    (t : Table) : Except Raised (Unit × Table) :=
  .ok ((), updateAttempt requestId attemptId
    (fun row => { row with state := .failed, errorCode := some code,
                           errorRetryable := some retryable,
                           errorRetryAfterSeconds := retryAfterSeconds,
                           updatedAt := timestamp now }) (fun _ => rfl) t)

/-- `complete`, for the nonce that was drawn. SQLite binds a text in UTF-8, which can raise, before the
check on the column of the policy version. -/
def complete (cipher : Cipher) (nonce : Bytes) (requestId attemptId mediaType content : Str)
    (deploymentId : Str) (taskPolicyVersion : ℤ) (t : Table) : Except Raised (Bool × Table) := do
  let t ← cleanup settings now t
  match t.select requestId with
  | none => .ok (false, t)
  | some row =>
    if row.state = .expired then .ok (false, t)
    else if row.state ≠ .inProgress ∨ row.attemptId ≠ some attemptId then
      .error (.storeError "worker completion does not own the active attempt")
    else do
      let (nonce, ciphertext) ← row.record.encrypt cipher nonce content
      if ¬ (Scalars mediaType ∧ Scalars deploymentId) then .error .unicodeError
      else if taskPolicyVersion < 1 then .error .integrityError
      else
        .ok (t.matched (fun row => row.isAttempt requestId attemptId) = 1,
          updateAttempt requestId attemptId
            (fun row => { row with state := .completed, outputMediaType := some mediaType,
                                   outputNonce := some nonce, outputCiphertext := some ciphertext,
                                   producingDeploymentId := some deploymentId,
                                   producingTaskPolicyVersion := some taskPolicyVersion,
                                   updatedAt := timestamp now }) (fun _ => rfl) t)

def maintain (t : Table) : Except Raised (Unit × Table) := do
  let t ← cleanup settings now t
  return ((), t)

/-- A row at its acknowledgement. -/
def Row.acknowledge (row : Row) (disposition : Str) (now : Datetime) : Row :=
  { row with state := .acknowledged, acknowledgementDisposition := some disposition,
             outputMediaType := none, outputNonce := none, outputCiphertext := none,
             updatedAt := timestamp now, acknowledgedAt := some (timestamp now) }

def acknowledge (requestId credentialHash disposition : Str) (t : Table) :
    Except Raised (RequestRecord × Table) := do
  let t ← cleanup settings now t
  match t.select requestId with
  | none => .error .requestUnknown
  | some row => do
    authorizeExisting row.record credentialHash none
    match row.state with
    | .acknowledged =>
      if row.acknowledgementDisposition ≠ some disposition then .error .acknowledgementConflict
      else .ok (row.record, t)
    | .expired => .error .requestExpired
    | .completed =>
      let acknowledged := t.update
        (fun row => row.requestId = requestId && row.state = .completed)
        (fun row => row.acknowledge disposition now) (fun _ => rfl)
      match acknowledged.select requestId with
      | none => .error .requestUnknown
      | some row => .ok (row.record, acknowledged)
    | _ => .error (.requestNotTerminal "request result is not terminal")

end Operations

/-- `RequestStore.output`. -/
def output (cipher : Cipher) (record : RequestRecord) : Except Raised Str :=
  if record.state ≠ .completed then
    .error (.requestNotTerminal "request does not have a completed result")
  else record.decrypt cipher

/-! Whole transactions. -/

/-- `_Transaction`: commit what the body leaves, or roll back when it raises. -/
def transaction {α : Type} (body : Table → Except Raised (α × Table)) (db : Database) :
    Except Raised α × Database :=
  match db.version with
  | none => (.error .operationalError, db)
  | some version =>
    match body db.requests with
    | .error e => (.error e, db)
    | .ok (a, requests) => (.ok a, ⟨some version, requests, by simp⟩)

/-- `initialize`: create the tables where there are none, recover what a crash left. -/
def initializeStore (settings : StoreSettings) (now : Datetime) (db : Database) :
    Except Raised Unit × Database :=
  let version := db.version.getD schemaVersion
  if version ≠ schemaVersion then
    (.error (.storeError s!"database schema version {version} is not supported by {schemaVersion}"),
      db)
  else
    match recover settings now db.requests with
    | .error e => (.error e, db)
    | .ok requests => (.ok (), ⟨some version, requests, by simp⟩)

end Gateway
