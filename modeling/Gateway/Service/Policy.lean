import Gateway.Foundation.Calendar
import Gateway.Store.Statements

/-! What the service raises, its task policies, and the responses it makes of a record. -/
namespace Gateway

/-- `GatewayFailure`. -/
structure GatewayFailure where
  code : Str
  retryable : Bool
  statusCode : ℕ
  retryAfterSeconds : Option ℤ
deriving DecidableEq

/-- What leaves a call of the service: its own failure, or what nothing caught. -/
inductive Escape where
  | failure (f : GatewayFailure)
  | raised (e : Raised)
deriving DecidableEq

/-- `raise GatewayFailure(code, retryable, status_code)`. -/
def fail {α : Type} (code : String) (retryable : Bool) (statusCode : ℕ) : Except Escape α :=
  .error (.failure ⟨str code, retryable, statusCode, none⟩)

/-- The settings the service reads, as `__post_init__` lets them be built. -/
structure Settings where
  deploymentId : Str
  requestMaxLifetimeSeconds : ℤ
  retryAfterSeconds : ℤ
  maxOpenTotal : ℕ
  maxOpenPerCredential : ℕ
  tombstoneRetentionSeconds : ℤ
  deploymentId_length : 1 ≤ deploymentId.length ∧ deploymentId.length ≤ 128
  lifetime_range : 1 ≤ requestMaxLifetimeSeconds ∧ requestMaxLifetimeSeconds ≤ 86400
  retryAfter_range : 1 ≤ retryAfterSeconds ∧ retryAfterSeconds ≤ 86400
  limits_range : 1 ≤ maxOpenPerCredential ∧ maxOpenPerCredential ≤ maxOpenTotal ∧
    maxOpenTotal ≤ 10000
  retention_range : 1 ≤ tombstoneRetentionSeconds ∧ tombstoneRetentionSeconds ≤ 31536000

/-- What `create_app` hands to the store. -/
def Settings.store (settings : Settings) : StoreSettings :=
  ⟨settings.maxOpenTotal, settings.maxOpenPerCredential, settings.tombstoneRetentionSeconds⟩

/-- An authenticated caller. -/
structure Credential where
  identityHash : Str
  tasks : List Task

def taskPolicyVersion : ℤ := 2

def documentMaxOutputTokens : ℤ := 4096

structure TaskPolicy where
  temperature : Decimal
  maxOutputTokens : ℤ
  allowRootObjectChoice : Bool
  allowPassageDefinitions : Bool

/-- `TASK_POLICIES`. -/
def taskPolicies : List (Task × TaskPolicy) :=
  [((str "document.summary.step", 1), ⟨⟨false, 0, -1⟩, documentMaxOutputTokens, true, false⟩),
    (documentTaskV2, ⟨⟨false, 0, -1⟩, documentMaxOutputTokens, true, true⟩),
    (emailAnalyzeTask, ⟨⟨false, 1, -1⟩, 1500, false, false⟩),
    ((str "email.schedule.extract", 1), ⟨⟨false, 1, -1⟩, 1500, false, false⟩),
    ((str "invoice.extract.batch", 1), ⟨⟨false, 0, -1⟩, 12288, false, false⟩)]

/-- `TASK_POLICIES.get(task)`. -/
def taskPolicy? (task : Task) : Option TaskPolicy :=
  (taskPolicies.find? (fun p => p.1 = task)).map Prod.snd

/-- `now + timedelta(seconds=...)`, rounded up to a whole second. -/
def maximumExpiry (settings : Settings) (now : Datetime) : Option Datetime :=
  match now.addSeconds settings.requestMaxLifetimeSeconds with
  | none => none
  | some maximum =>
    if maximum.microsecond ≠ 0 then maximum.replaceMicrosecond.addSeconds 1 else some maximum

/-- `_validate_policy`. -/
def validatePolicy (settings : Settings) (credential : Credential) (request : InferenceRequest)
    (now : Datetime) : Except Escape Unit :=
  if request.taskKey ∉ credential.tasks then fail "forbidden" false 403
  else
    match taskPolicy? request.taskKey with
    | none => fail "unsupported_task" false 422
    | some policy =>
      if request.expiresAt ≤ now then fail "request_expired" false 409
      else
        match maximumExpiry settings now with
        | none => .error (.raised .overflowError)
        | some maximum =>
          if maximum < request.expiresAt then fail "invalid_request" false 422
          else if request.generation.temperature.toRat ≠ policy.temperature.toRat then
            fail "unsupported_task" false 422
          else if policy.maxOutputTokens < request.requirements.maxOutputTokens then
            fail "unsupported_task" false 422
          else if usesPassageDefinitions request.generation.responseSchema &&
              !policy.allowPassageDefinitions then
            fail "unsupported_task" false 422
          else if isBoundedRootObjectChoice request.generation.responseSchema &&
              !policy.allowRootObjectChoice then
            fail "unsupported_task" false 422
          else .ok ()

/-- The body of a completed response; `protocol_version` and `status` are the same in all. -/
structure Response where
  requestId : Str
  mediaType : Option Str
  content : Str
  taskPolicyVersion : ℤ
  deploymentId : Str
deriving DecidableEq

/-- `_existing_response`. -/
def existingResponse (cipher : Cipher) (record : RequestRecord) : Except Escape (Option Response) :=
  match record.state with
  | .completed =>
    match record.producingDeploymentId, record.producingTaskPolicyVersion with
    | some deploymentId, some version =>
      match output cipher record with
      | .error _ => fail "invalid_worker_output" false 500
      | .ok content =>
        .ok (some ⟨record.requestId, record.outputMediaType, content, version, deploymentId⟩)
    | _, _ => fail "invalid_worker_output" false 500
  | .failed =>
    .error (.failure ⟨if record.errorCode.getD [] = [] then str "invalid_worker_output"
      else record.errorCode.getD [], record.errorRetryable.getD false, 502,
      record.errorRetryAfterSeconds⟩)
  | .expired => fail "request_expired" false 409
  | .acknowledged => fail "unknown_request" false 410
  | _ => .ok none

/-- What `infer` raises when `admitRequest` raises. -/
def admitFailure (settings : Settings) : Raised → Escape
  | .requestCapacityLimited =>
    .failure ⟨str "capacity_limited", true, 429, some settings.retryAfterSeconds⟩
  | .requestExpired => .failure ⟨str "request_expired", false, 409, none⟩
  | .requestForbidden => .failure ⟨str "forbidden", false, 403, none⟩
  | .requestIdentityConflict => .failure ⟨str "invalid_request", false, 409, none⟩
  | e => .raised e

/-- `infer` up to the answer it takes from the stored record, if there is one. -/
def inferStored (settings : Settings) (cipher : Cipher) (credential : Credential)
    (request : InferenceRequest) (digest : Str) (now : Datetime) (db : Database) :
    Except Escape (RequestRecord × Option Response) × Database :=
  match validatePolicy settings credential request now with
  | .error e => (.error e, db)
  | .ok () =>
    match transaction (admitRequest settings.store now request credential.identityHash digest) db with
    | (.error e, db) => (.error (admitFailure settings e), db)
    | (.ok record, db) => ((existingResponse cipher record).map (fun r => (record, r)), db)

section Policy

variable {settings : Settings} {credential : Credential} {request : InferenceRequest}
variable {now later : Datetime}

/-- What passes has not expired, and expires no later than the maximum. -/
theorem validatePolicy_ok (h : validatePolicy settings credential request now = .ok ()) :
    request.taskKey ∈ credential.tasks ∧ (∃ policy, taskPolicy? request.taskKey = some policy) ∧
      now < request.expiresAt ∧
      ∃ maximum, maximumExpiry settings now = some maximum ∧ request.expiresAt ≤ maximum := by
  unfold validatePolicy at h
  split at h
  · cases h
  · rename_i htask
    split at h
    · cases h
    · rename_i policy hpolicy
      split at h
      · cases h
      · rename_i hexpired
        split at h
        · cases h
        · rename_i maximum hmaximum
          split at h
          · cases h
          · rename_i hlate
            exact ⟨not_not.mp htask, ⟨policy, hpolicy⟩, not_le.mp hexpired, maximum, hmaximum,
              not_lt.mp hlate⟩

/-- What passed before is refused as expired from its instant on. -/
theorem validatePolicy_expired (h : validatePolicy settings credential request now = .ok ())
    (hlater : request.expiresAt ≤ later) :
    validatePolicy settings credential request later = fail "request_expired" false 409 := by
  obtain ⟨htask, ⟨policy, hpolicy⟩, -, -⟩ := validatePolicy_ok h
  rw [validatePolicy, if_neg (not_not.mpr htask), hpolicy]
  exact if_pos hlater

/-- What passed before passes until its expiry, as long as the maximum is in the calendar. -/
theorem validatePolicy_again (h : validatePolicy settings credential request now = .ok ())
    (hexpired : later < request.expiresAt) {maximum : Datetime}
    (hmaximum : maximumExpiry settings later = some maximum) (hle : request.expiresAt ≤ maximum) :
    validatePolicy settings credential request later = .ok () := by
  obtain ⟨htask, ⟨policy, hpolicy⟩, hnow, first, hfirst, hfirst'⟩ := validatePolicy_ok h
  simp only [validatePolicy, htask, not_true_eq_false, if_false, hpolicy, not_le.mpr hnow, hfirst,
    not_lt.mpr hfirst'] at h
  simp only [validatePolicy, htask, not_true_eq_false, if_false, hpolicy, not_le.mpr hexpired,
    hmaximum, not_lt.mpr hle]
  exact h

/-- The maximum in whole seconds: the lifetime from the first whole second not before `now`. -/
theorem maximumExpiry_seconds {maximum : Datetime} (h : maximumExpiry settings now = some maximum) :
    maximum.seconds = now.seconds + settings.requestMaxLifetimeSeconds +
      (if now.microsecond = 0 then 0 else 1) ∧ maximum.microsecond = 0 := by
  unfold maximumExpiry at h
  split at h
  · cases h
  · rename_i sum hsum
    obtain ⟨hseconds, hmicro⟩ := Datetime.addSeconds_seconds hsum
    split_ifs at h with hzero
    · obtain ⟨hnext, hmicro'⟩ := Datetime.addSeconds_seconds h
      have hfloor : sum.replaceMicrosecond.seconds = sum.seconds := by
        rw [Datetime.seconds, Datetime.replaceMicrosecond_absolute]
        omega
      rw [if_neg (by rwa [← hmicro])]
      exact ⟨by omega, hmicro'⟩
    · obtain rfl := Option.some.inj h
      rw [not_not] at hzero
      rw [if_pos (by rwa [← hmicro])]
      exact ⟨by omega, hzero⟩

end Policy

end Gateway
