import Gateway.Service.Refusals

/-! Calls of one request on one service: one of them dispatches, and all return its result. -/
namespace Gateway

open Template (Ascii)
open Transition (Run)

variable {cipher : Cipher} {sha256 : Bytes → Str} {checkSchema : Json → Bool}
variable {credential : Credential} {request : InferenceRequest} {digest : Str} {s₀ s t : GatewayService}
variable {call : InferCall} {c : ℕ} {pc : Pc} {action : Action} {db : Database}
variable {active : Option ActiveAttempt} {now : Datetime} {row : Row}

/-- Only calls of one request, before it expires; no wait times out and the worker has a result. -/
def Event.Shares (credential : Credential) (request : InferenceRequest) : Event → Prop
  | .tick now => now < request.expiresAt
  | .arrive _ credential' request' => credential' = credential ∧ request' = request
  | .act _ .timeout => False
  | .act _ (.outcome (.error _)) => False
  | .act _ _ => True
  | .maintain _ => True
  | _ => False

structure SharedStep (checkSchema : Json → Bool) (cipher : Cipher) (sha256 : Bytes → Str)
    (credential : Credential) (request : InferenceRequest) (s : GatewayService) (e : Event)
    (t : GatewayService) : Prop where
  happens : Happens checkSchema cipher sha256 s e t
  shares : e.Shares credential request

/-- A free lane is claimed for a row that is still reserved, and the policy finds its maximum. -/
def ClaimsReserved (s : GatewayService) : Event → Prop
  | .act c (.policy now) => ∀ call, s.calls c = some call → MaximumExists s.settings call now
  | .act c (.lane _) => ∀ call record, s.calls c = some call → call.pc = .admitted record →
      record.state = .reserved → s.active = none →
      ∃ row, s.db.requests.select record.requestId = some row ∧ row.state = .reserved
  | _ => True

/-- Whether the event is the call of the worker. -/
def Event.dispatches : Event → Bool
  | .act _ (.dispatch _) => true
  | _ => false

/-- No call is on its way and the lane is free. -/
structure Idle (s : GatewayService) : Prop where
  version : s.db.version = some schemaVersion
  policyVersion : 1 ≤ s.taskPolicyVersion
  cutoff : HasCutoff s.settings.store s.clock
  lane : s.active = none
  calls : ∀ c call, s.calls c = some call → ∃ result, call.pc = .done result

/-- A new request that the policy and the limits let in. -/
structure Admissible (credential : Credential) (request : InferenceRequest) (s : GatewayService) :
    Prop where
  policy : validatePolicy s.settings credential request s.clock = .ok ()
  owner : Ascii credential.identityHash
  new : s.db.requests.select request.requestId = none
  total : openTotal s.db.requests < s.settings.maxOpenTotal
  perCredential : openPerCredential s.db.requests credential.identityHash <
    s.settings.maxOpenPerCredential

/-! How far the one attempt has come. -/

inductive Stage where
  | absent
  | reserved
  | claimed (owner : ℕ) (attemptId : Str)
  | marked (owner : ℕ) (attemptId : Str)
  | dispatched (owner : ℕ) (attemptId : Str)
  | completed (owner : ℕ) (response : Response)
  | released (owner : ℕ) (response : Response)

namespace Stage

def level : Stage → ℕ
  | absent => 0
  | reserved => 1
  | claimed _ _ => 2
  | marked _ _ => 3
  | dispatched _ _ => 4
  | completed _ _ => 5
  | released _ _ => 6

def owner : Stage → Option ℕ
  | absent => none
  | reserved => none
  | claimed o _ => some o
  | marked o _ => some o
  | dispatched o _ => some o
  | completed o _ => some o
  | released o _ => some o

def response : Stage → Option Response
  | completed _ r => some r
  | released _ r => some r
  | _ => none

/-- The lane is held from the claim to the release. -/
def lane (requestId : Str) : Stage → Option ActiveAttempt
  | claimed o _ => some ⟨requestId, o⟩
  | marked o _ => some ⟨requestId, o⟩
  | dispatched o _ => some ⟨requestId, o⟩
  | completed o _ => some ⟨requestId, o⟩
  | _ => none

/-- How often the worker has been called. -/
def dispatches (stage : Stage) : ℕ := if 4 ≤ stage.level then 1 else 0

/-- What the row has become. -/
def Keeps (cipher : Cipher) : Stage → Row → Prop
  | absent, _ => False
  | reserved, row => row.state = .reserved
  | claimed _ _, row => row.state = .reserved
  | marked _ a, row => row.state = .inProgress ∧ row.attemptId = some a
  | dispatched _ a, row => row.state = .inProgress ∧ row.attemptId = some a
  | completed _ r, row => row.state = .completed ∧ existingResponse cipher row.record = .ok (some r)
  | released _ r, row => row.state = .completed ∧ existingResponse cipher row.record = .ok (some r)

/-- Where the call stands that has claimed the lane. -/
def OwnerAt : Stage → Pc → Prop
  | claimed _ a, pc => pc = .claimed a
  | marked _ a, pc => pc = .marked a
  | dispatched _ a, pc => pc = .dispatched a ∨
      ∃ result : WorkerResult, pc = .settling a (.ok result) ∧ result.Encodes
  | completed _ r, pc => (∃ a, pc = .stored a) ∨ pc = .leaving (.ok r)
  | released _ r, pc => pc = .done (.ok r)
  | _, _ => False

/-- Where another call may stand. -/
def OtherAt (request : InferenceRequest) (first : Datetime) (stage : Stage) : Pc → Prop
  | .arrived => True
  | .policed now => first ≤ now ∧ now < request.expiresAt
  | .admitted record => record.requestId = request.requestId ∧
      (record.state = .reserved ∧ 1 ≤ stage.level ∨ record.state = .inProgress ∧ 3 ≤ stage.level)
  | .waiting attempt => attempt.requestId = request.requestId ∧ stage.owner = some attempt.owner
  | .reloading => ∃ r, stage.response = some r
  | .done result => ∃ r, stage.response = some r ∧ result = .ok r
  | _ => False

def CallAt (request : InferenceRequest) (first : Datetime) (stage : Stage) (c : ℕ) (pc : Pc) : Prop :=
  stage.owner = some c ∧ stage.OwnerAt pc ∨ stage.owner ≠ some c ∧ stage.OtherAt request first pc

/-- Whoever is on the lane holds it for the request. -/
theorem holder_of_lane {stage : Stage} {attempt : ActiveAttempt} {requestId : Str}
    (h : some attempt = stage.lane requestId) :
    attempt.requestId = requestId ∧ stage.owner = some attempt.owner := by
  cases stage <;> simp_all [lane, owner]

/-- A free lane beside a reserved row is not claimed yet. -/
theorem eq_reserved {stage : Stage} {requestId : Str} {row : Row} (h : none = stage.lane requestId)
    (hkeeps : stage.Keeps cipher row) (hstate : row.state = .reserved) : stage = .reserved := by
  cases stage <;> simp_all [lane, Keeps]

/-- A lane that is free again leaves a response behind. -/
theorem response_of_free {stage : Stage} {requestId : Str} (h : none = stage.lane requestId)
    (hlevel : 3 ≤ stage.level) : ∃ r, stage.response = some r := by
  cases stage <;> simp_all [lane, level, response]

/-- The places of the holder. -/
theorem ownerAt_cases {stage : Stage} (h : stage.OwnerAt pc) :
    (∃ o a, stage = .claimed o a ∧ pc = .claimed a) ∨ (∃ o a, stage = .marked o a ∧ pc = .marked a) ∨
    (∃ o a, stage = .dispatched o a ∧ pc = .dispatched a) ∨
    (∃ (o : ℕ) (a : Str) (result : WorkerResult), stage = .dispatched o a ∧
      pc = .settling a (.ok result) ∧ result.Encodes) ∨
    (∃ o r a, stage = .completed o r ∧ pc = .stored a) ∨
    (∃ o r, stage = .completed o r ∧ pc = .leaving (.ok r)) ∨
    (∃ o r, stage = .released o r ∧ pc = .done (.ok r)) := by
  cases stage <;> simp_all [OwnerAt]

/-- The holder has ended when there is a response. -/
theorem response_of_done {stage : Stage} {result : Except Escape Response}
    (h : stage.OwnerAt (.done result)) : ∃ r, stage.response = some r := by
  cases stage <;> simp_all [OwnerAt, response]

/-- A later stage of the same attempt. -/
structure Before (stage stage' : Stage) : Prop where
  level : stage.level ≤ stage'.level
  owner : ∀ o, stage.owner = some o → stage'.owner = some o
  response : ∀ r, stage.response = some r → stage'.response = some r

theorem OtherAt.later {first : Datetime} {stage stage' : Stage} (h : stage.OtherAt request first pc)
    (hb : Before stage stage') : stage'.OtherAt request first pc := by
  cases pc with
  | arrived => trivial
  | policed now => exact h
  | admitted record =>
    obtain ⟨hid, hstate⟩ := h
    refine ⟨hid, hstate.imp ?_ ?_⟩
    · exact fun hr => ⟨hr.1, hr.2.trans hb.level⟩
    · exact fun hr => ⟨hr.1, hr.2.trans hb.level⟩
  | waiting attempt => exact ⟨h.1, hb.owner _ h.2⟩
  | reloading =>
    obtain ⟨r, hr⟩ := h
    exact ⟨r, hb.response r hr⟩
  | done result =>
    obtain ⟨r, hr, rfl⟩ := h
    exact ⟨r, hb.response r hr, rfl⟩
  | _ => exact h.elim

/-- What no call but `c` does not disturb where the others stand. -/
theorem CallAt.later {first : Datetime} {stage stage' : Stage} {c' : ℕ} (hne : c' ≠ c)
    (howner : stage'.owner = none ∨ stage'.owner = some c) (hb : Before stage stage')
    (h : stage.CallAt request first c' pc) : stage'.CallAt request first c' pc := by
  rcases h with ⟨hown, -⟩ | ⟨-, hother⟩
  · have hlater := hb.owner _ hown
    rcases howner with hnone | hsome
    · rw [hnone] at hlater
      cases hlater
    · rw [hsome] at hlater
      exact absurd (Option.some.inj hlater).symm hne
  · refine .inr ⟨?_, hother.later hb⟩
    rcases howner with hnone | hsome
    · rw [hnone]
      simp
    · rw [hsome]
      exact fun he => hne (Option.some.inj he).symm

end Stage

/-! What holds in every state. -/

/-- The row that belongs to the request. -/
structure OwnRow (credential : Credential) (request : InferenceRequest) (digest : Str) (row : Row) :
    Prop where
  requestId : row.requestId = request.requestId
  credentialHash : row.credentialHash = credential.identityHash
  requestDigest : row.requestDigest = digest
  expiresAt : row.expiresAt = request.requestExpiresAt

/-- The row as the stage has it, and room for it while it is not there. -/
def RowAt (cipher : Cipher) (credential : Credential) (request : InferenceRequest) (digest : Str)
    (settings : Settings) (stage : Stage) (t : Table) : Prop :=
  (stage = .absent ∧ t.select request.requestId = none ∧ openTotal t < settings.maxOpenTotal ∧
    openPerCredential t credential.identityHash < settings.maxOpenPerCredential) ∨
  ∃ row, t.select request.requestId = some row ∧ OwnRow credential request digest row ∧
    stage.Keeps cipher row

structure IsCall (credential : Credential) (request : InferenceRequest) (digest : Str)
    (first : Datetime) (stage : Stage) (c : ℕ) (call : InferCall) : Prop where
  credential_eq : call.credential = credential
  request_eq : call.request = request
  digest_eq : call.digest = digest
  since : first ≤ call.since
  pc : stage.CallAt request first c call.pc

structure SharedAt (cipher : Cipher) (credential : Credential) (request : InferenceRequest)
    (digest : Str) (s₀ : GatewayService) (stage : Stage) (s : GatewayService) : Prop where
  version : s.db.version = some schemaVersion
  policyVersion : s.taskPolicyVersion = s₀.taskPolicyVersion
  settings : s.settings = s₀.settings
  clock : s₀.clock ≤ s.clock
  live : s.clock < request.expiresAt
  lane : s.active = stage.lane request.requestId
  row : RowAt cipher credential request digest s₀.settings stage s.db.requests
  calls : ∀ c call, s.calls c = some call → s₀.calls c = none →
    IsCall credential request digest s₀.clock stage c call
  ended : ∀ c, s₀.calls c ≠ none → s.calls c = s₀.calls c
  owner : ∀ o, stage.owner = some o → s₀.calls o = none ∧ (s.calls o).isSome

/-! The policy and the row before the expiry. -/

/-- What the policy let in first it lets in until the expiry, if it can look. -/
theorem policy_shared {settings : Settings} {first : Datetime}
    (h : validatePolicy settings credential request first = .ok ()) (hle : first ≤ now)
    (hlive : now < request.expiresAt) (hcall : call.credential = credential ∧ call.request = request)
    (hmaximum : MaximumExists settings call now) :
    validatePolicy settings credential request now = .ok () := by
  obtain ⟨rfl, rfl⟩ := hcall
  obtain ⟨htask, ⟨policy, hpolicy⟩, -, -⟩ := validatePolicy_ok h
  obtain ⟨maximum, hmax⟩ := Option.isSome_iff_exists.mp (hmaximum htask (by simp [hpolicy]) hlive)
  refine validatePolicy_again h hlive hmax ?_
  obtain ⟨hseconds, hmicro⟩ := maximumExpiry_seconds hmax
  have hhorizon := (policy_horizon h).trans (horizon_mono hle)
  have hexpiry : call.request.expiresAt.microsecond = 0 := expiry_microsecond _
  rw [horizon, ← hseconds] at hhorizon
  rw [← Datetime.absolute_le_iff, Datetime.absolute_eq, Datetime.absolute_eq maximum, hmicro, hexpiry]
  omega

section Row

variable {settings : Settings} {stage : Stage} {t₁ : Table}

theorem Stage.Keeps.open {stage : Stage} (h : stage.Keeps cipher row) : row.isClosed = false := by
  cases stage <;> simp_all [Stage.Keeps, Row.isClosed]

/-- A cleanup before the expiry leaves the row to its stage. -/
theorem rowAt_cleanup (h : RowAt cipher credential request digest settings stage t.db.requests)
    (hclean : cleanup settings.store now t.db.requests = .ok t₁) (hlive : now < request.expiresAt) :
    RowAt cipher credential request digest settings stage t₁ := by
  rcases h with ⟨hstage, hnone, htotal, howner⟩ | ⟨row, hrow, hown, hkeeps⟩
  · obtain ⟨hless, hless'⟩ := @statements_open settings.store now t.db.requests t₁
      credential.identityHash (statements_cleanup hclean)
    exact .inl ⟨hstage, cleanup_none hclean hnone, hless.trans_lt htotal, hless'.trans_lt howner⟩
  · refine .inr ⟨row, cleanup_live hclean hrow hkeeps.open ?_, hown, hkeeps⟩
    rw [hown.expiresAt]
    exact hlive

end Row

/-! One step of one call. -/

/-- What a step of call `c` makes of the stage. -/
structure Moves (cipher : Cipher) (credential : Credential) (request : InferenceRequest)
    (digest : Str) (s₀ : GatewayService) (stage : Stage) (c : ℕ) (action : Action) (pc : Pc)
    (db : Database) (active : Option ActiveAttempt) (stage' : Stage) : Prop where
  next : stage' = stage ∨ stage.Before stage' ∧ (stage'.owner = none ∨ stage'.owner = some c)
  lane : active = stage'.lane request.requestId
  row : RowAt cipher credential request digest s₀.settings stage' db.requests
  pc : stage'.CallAt request s₀.clock c pc
  count : stage'.dispatches = stage.dispatches + if (Event.act c action).dispatches then 1 else 0

section Step

variable {stage stage' : Stage} (hs : SharedAt cipher credential request digest s₀ stage s)
include hs

theorem shared_after (hget : s.calls c = some call) (hnew : s₀.calls c = none)
    (hversion : db.version = s.db.version)
    (hm : Moves cipher credential request digest s₀ stage c action pc db active stage') :
    SharedAt cipher credential request digest s₀ stage' (s.after c call pc db active) := by
  have hcall := hs.calls c call hget hnew
  refine ⟨hversion.trans hs.version, hs.policyVersion, hs.settings, hs.clock, hs.live, hm.lane, hm.row,
    ?_, ?_, ?_⟩
  · intro c' call' hget' hnew'
    simp only [GatewayService.after, Function.update_apply] at hget'
    split_ifs at hget' with hc
    · obtain rfl := Option.some.inj hget'
      subst hc
      exact ⟨hcall.credential_eq, hcall.request_eq, hcall.digest_eq, hs.clock, hm.pc⟩
    · have hother := hs.calls c' call' hget' hnew'
      refine ⟨hother.credential_eq, hother.request_eq, hother.digest_eq, hother.since, ?_⟩
      rcases hm.next with rfl | ⟨hb, howner⟩
      · exact hother.pc
      · exact hother.pc.later hc howner hb
  · intro c' hold
    have hc : c' ≠ c := fun he => hold (he ▸ hnew)
    simp only [GatewayService.after, Function.update_apply, hc, if_false]
    exact hs.ended c' hold
  · intro o ho
    simp only [GatewayService.after, Function.update_apply]
    split_ifs with hoc
    · exact ⟨hoc ▸ hnew, rfl⟩
    · rcases hm.next with rfl | ⟨-, hnone | hsome⟩
      · exact hs.owner o ho
      · rw [ho] at hnone
        cases hnone
      · rw [ho] at hsome
        exact absurd (Option.some.inj hsome) hoc

/-- A step that leaves the stage, the lane and the file as they are. -/
theorem moves_same (hcount : (Event.act c action).dispatches = false)
    (hpc : stage.CallAt request s₀.clock c pc) :
    Moves cipher credential request digest s₀ stage c action pc s.db s.active stage :=
  ⟨.inl rfl, hs.lane, hs.row, hpc, by simp [hcount]⟩

/-- The row, once it is there. -/
theorem shared_row (hlevel : 1 ≤ stage.level) : ∃ row,
    s.db.requests.select request.requestId = some row ∧ OwnRow credential request digest row ∧
      stage.Keeps cipher row := by
  rcases hs.row with ⟨rfl, -⟩ | hrow
  · simp [Stage.level] at hlevel
  · exact hrow

theorem live_of_le (hle : now ≤ s.clock) : now < request.expiresAt := hle.trans_lt hs.live

/-- The cleanup of a transaction now, and the row after it. -/
theorem shared_cleanup (hidle : Idle s₀) (hfirst : s₀.clock ≤ now) (hlive : now < request.expiresAt) :
    ∃ t₁, cleanup s.settings.store now s.db.requests = .ok t₁ ∧
      RowAt cipher credential request digest s₀.settings stage t₁ := by
  have hcutoff : HasCutoff s.settings.store now := by
    rw [hs.settings]
    exact hidle.cutoff.later hfirst
  obtain ⟨t₁, hclean⟩ := hasCutoff_iff.mp hcutoff
  rw [hs.settings] at hclean ⊢
  exact ⟨t₁, hclean, rowAt_cleanup hs.row hclean hlive⟩

end Step

/-! What is made of the row at each stage. -/

/-- A row that is not completed answers nothing; a completed one answers the stage's response. -/
theorem Stage.Keeps.answer {stage : Stage} (h : stage.Keeps cipher row) :
    (existingResponse cipher row.record = .ok none ∧
      (row.state = .reserved ∧ 1 ≤ stage.level ∨ row.state = .inProgress ∧ 3 ≤ stage.level)) ∨
    ∃ r, stage.response = some r ∧ existingResponse cipher row.record = .ok (some r) := by
  cases stage with
  | absent => exact h.elim
  | reserved => exact .inl ⟨existingResponse_open (.inl h), .inl ⟨h, le_rfl⟩⟩
  | claimed o a => exact .inl ⟨existingResponse_open (.inl h), .inl ⟨h, by simp [Stage.level]⟩⟩
  | marked o a => exact .inl ⟨existingResponse_open (.inr h.1), .inr ⟨h.1, le_rfl⟩⟩
  | dispatched o a => exact .inl ⟨existingResponse_open (.inr h.1), .inr ⟨h.1, by simp [Stage.level]⟩⟩
  | completed o r => exact .inr ⟨r, rfl, h.2⟩
  | released o r => exact .inr ⟨r, rfl, h.2⟩

theorem afterAdmission_none {settings : Settings} {record : RequestRecord}
    (h : existingResponse cipher record = .ok none) :
    afterAdmission settings cipher (.ok record) = .admitted record := by
  simp [afterAdmission, h]

theorem afterAdmission_some {settings : Settings} {record : RequestRecord} {r : Response}
    (h : existingResponse cipher record = .ok (some r)) :
    afterAdmission settings cipher (.ok record) = .done (.ok r) := by
  simp [afterAdmission, h]

theorem afterReload_some {settings : Settings} {record : RequestRecord} {r : Response}
    (h : existingResponse cipher record = .ok (some r)) :
    afterReload settings cipher (.ok record) = .ok r := by
  simp [afterReload, h]

theorem afterFinish_some {record : RequestRecord} {r : Response}
    (h : existingResponse cipher record = .ok (some r)) : afterFinish cipher record = .ok r := by
  simp [afterFinish, h]

/-- Where the lane leads a record that is in progress or reserved. -/
theorem afterLane_waiting {settings : Settings} {record : RequestRecord} {attempt : ActiveAttempt}
    {attemptId : Str} (hid : attempt.requestId = record.requestId)
    (h : record.state = .reserved ∨ record.state = .inProgress) :
    afterLane settings (some attempt) c record attemptId = (.waiting attempt, some attempt) := by
  rcases h with h | h <;> simp [afterLane, h, hid]

theorem afterLane_claims {settings : Settings} {record : RequestRecord} {attemptId : Str}
    (h : record.state = .reserved) : afterLane settings none c record attemptId =
      (.claimed attemptId, some ⟨record.requestId, c⟩) := by
  simp [afterLane, h]

theorem afterLane_reloads {settings : Settings} {record : RequestRecord} {attemptId : Str}
    (h : record.state = .inProgress) :
    afterLane settings none c record attemptId = (.reloading, none) := by
  simp [afterLane, h]

section Others

variable {stage stage' : Stage} (hs : SharedAt cipher credential request digest s₀ stage s)
variable (hidle : Idle s₀)
variable (hcall : IsCall credential request digest s₀.clock stage c call)
variable (hother : stage.owner ≠ some c)

include hs hidle hcall hother

/-- An admission reserves the row or returns it as it is. -/
theorem moves_admission (hfirst : s₀.clock ≤ now) (hlive : now < request.expiresAt)
    {r : Except Raised RequestRecord × Database}
    (hr : transaction (admitRequest s.settings.store now call.request
      call.credential.identityHash call.digest) s.db = r) :
    ∃ stage', Moves cipher credential request digest s₀ stage c .admission
      (afterAdmission s.settings cipher r.1) r.2 s.active stage' := by
  subst hr
  obtain ⟨rfl, rfl, rfl⟩ : call.credential = credential ∧ call.request = request ∧
    call.digest = digest := ⟨hcall.credential_eq, hcall.request_eq, hcall.digest_eq⟩
  obtain ⟨t₁, hclean, hrow⟩ := shared_cleanup hs hidle hfirst hlive
  rcases hrow with ⟨rfl, hnone, htotal, howner⟩ | ⟨row, hselect, hown, hkeeps⟩
  · have hadmit : admitRequest s.settings.store now call.request call.credential.identityHash
        call.digest s.db.requests = _ := admit_new hclean hnone
    have hroom : ¬ (s.settings.store.maxOpenTotal ≤ openTotal t₁ ∨
        s.settings.store.maxOpenPerCredential ≤
          openPerCredential t₁ call.credential.identityHash) := by
      rw [hs.settings]
      exact not_or.mpr ⟨not_le.mpr htotal, not_le.mpr howner⟩
    rw [if_neg (not_le.mpr hlive), if_neg hroom] at hadmit
    rw [transaction_of_ok hs.version hadmit]
    refine ⟨.reserved, .inr ⟨⟨by decide, by simp [Stage.owner], by simp [Stage.response]⟩, .inl rfl⟩,
      hs.lane, .inr ⟨reservedRow call.request call.credential.identityHash call.digest now, ?_,
        ⟨rfl, rfl, rfl, rfl⟩, rfl⟩, ?_, rfl⟩
    · rw [select_reserved hnone, if_pos rfl]
    · rw [afterAdmission_none (existingResponse_open (.inl rfl))]
      exact .inr ⟨by simp [Stage.owner], rfl, .inl ⟨rfl, le_rfl⟩⟩
  · have hauth : authorizeExisting row.record call.credential.identityHash (some call.digest) =
        .ok () :=
      authorizeExisting_ok.mpr ⟨hown.credentialHash, fun d hd => hown.requestDigest.trans (by simpa using hd)⟩
    have hadmit : admitRequest s.settings.store now call.request call.credential.identityHash
        call.digest s.db.requests = _ := admit_retained hclean hselect
    rw [hauth] at hadmit
    rw [transaction_of_ok hs.version hadmit]
    refine ⟨stage, .inl rfl, hs.lane, .inr ⟨row, hselect, hown, hkeeps⟩, .inr ⟨hother, ?_⟩, by
      simp [Event.dispatches]⟩
    rcases hkeeps.answer with ⟨hnone, hstate⟩ | ⟨r, hresponse, hsome⟩
    · rw [afterAdmission_none hnone]
      exact ⟨hown.requestId, hstate⟩
    · rw [afterAdmission_some hsome]
      exact ⟨r, hresponse, rfl⟩

/-- A reload returns the response of the completed row. -/
theorem moves_reload (hfirst : s₀.clock ≤ now) (hlive : now < request.expiresAt) {response : Response}
    (hresponse : stage.response = some response) {r : Except Raised RequestRecord × Database}
    (hr : call.getOwned s now = r) :
    Moves cipher credential request digest s₀ stage c (.reload now)
      (.done (afterReload s.settings cipher r.1)) r.2 s.active stage := by
  subst hr
  obtain ⟨t₁, hclean, hrow⟩ := shared_cleanup hs hidle hfirst hlive
  rcases hrow with ⟨rfl, -⟩ | ⟨row, hselect, hown, hkeeps⟩
  · cases hresponse
  · obtain ⟨rfl, rfl, rfl⟩ : call.credential = credential ∧ call.request = request ∧
      call.digest = digest := ⟨hcall.credential_eq, hcall.request_eq, hcall.digest_eq⟩
    have howned := getOwned_of_row hclean hselect hown.credentialHash hown.requestDigest
    rw [InferCall.getOwned, transaction_of_ok hs.version howned]
    refine ⟨.inl rfl, hs.lane, .inr ⟨row, hselect, hown, hkeeps⟩, .inr ⟨hother, ?_⟩, by
      simp [Event.dispatches]⟩
    rcases hkeeps.answer with ⟨-, hstate⟩ | ⟨r, hr, hsome⟩
    · rcases hstate with ⟨hstate, -⟩ | ⟨hstate, -⟩
      all_goals
        cases stage <;> simp_all [Stage.response, Stage.Keeps]
    · exact ⟨r, hr, by rw [afterReload_some hsome]⟩

omit hidle hcall in
/-- An admitted record claims the free lane, waits for its holder, or reloads what is completed. -/
theorem moves_lane {record : RequestRecord} {attemptId : Str}
    (hat : stage.OtherAt request s₀.clock (.admitted record))
    (hclaims : record.state = .reserved → s.active = none →
      ∃ row, s.db.requests.select record.requestId = some row ∧ row.state = .reserved) :
    ∃ stage', Moves cipher credential request digest s₀ stage c (.lane attemptId)
      (afterLane s.settings s.active c record attemptId).1 s.db
      (afterLane s.settings s.active c record attemptId).2 stage' := by
  obtain ⟨hid, hstate⟩ := hat
  have hlane := hs.lane
  cases hactive : s.active with
  | some attempt =>
    rw [hactive] at hlane
    have hattempt := Stage.holder_of_lane hlane
    rw [afterLane_waiting (hattempt.1.trans hid.symm) (hstate.imp And.left And.left)]
    exact ⟨stage, .inl rfl, hlane, hs.row, .inr ⟨hother, hattempt⟩, by simp [Event.dispatches]⟩
  | none =>
    rw [hactive] at hlane
    rcases hstate with ⟨hstate, hlevel⟩ | ⟨hstate, hlevel⟩
    · obtain ⟨row, hrow, hreserved⟩ := hclaims hstate hactive
      obtain ⟨row', hrow', hown, hkeeps⟩ := shared_row hs hlevel
      rw [hid, hrow'] at hrow
      obtain rfl := Option.some.inj hrow
      obtain rfl := Stage.eq_reserved hlane hkeeps hreserved
      rw [afterLane_claims hstate, hid]
      exact ⟨.claimed c attemptId, .inr ⟨⟨by simp [Stage.level], by simp [Stage.owner],
        by simp [Stage.response]⟩, .inr rfl⟩, rfl, .inr ⟨row', hrow', hown, hkeeps⟩,
        .inl ⟨rfl, rfl⟩, by simp [Event.dispatches, Stage.dispatches, Stage.level]⟩
    · have hresponse := Stage.response_of_free hlane hlevel
      rw [afterLane_reloads hstate]
      exact ⟨stage, .inl rfl, hlane, hs.row, .inr ⟨hother, hresponse⟩, by simp [Event.dispatches]⟩

omit hidle hcall in
/-- A call wakes when its holder has ended, so the row is completed. -/
theorem moves_wake {attempt : ActiveAttempt} {owner : InferCall} {result : Except Escape Response}
    (hat : stage.OtherAt request s₀.clock (.waiting attempt))
    (howner : s.calls attempt.owner = some owner) (hdone : owner.pc = .done result) :
    Moves cipher credential request digest s₀ stage c .wake .reloading s.db s.active stage := by
  obtain ⟨-, hholder⟩ := hat
  obtain ⟨hnew, -⟩ := hs.owner _ hholder
  have hresponse : ∃ r, stage.response = some r := by
    rcases (hs.calls _ owner howner hnew).pc with ⟨-, hown⟩ | ⟨hne, -⟩
    · rw [hdone] at hown
      exact Stage.response_of_done hown
    · exact absurd hholder hne
  exact moves_same hs rfl (.inr ⟨hother, hresponse⟩)

/-- The step of a call that does not hold the lane. -/
theorem moves_other (hadmissible : Admissible credential request s₀)
    (hstep : CallStep cipher s call c call.pc action pc db active) (hget : s.calls c = some call)
    (hat : stage.OtherAt request s₀.clock call.pc)
    (hreads : ∀ now, action.now? = some now → call.since ≤ now ∧ now ≤ s.clock)
    (hshares : (Event.act c action).Shares credential request)
    (hclaims : ClaimsReserved s (.act c action)) :
    ∃ stage', Moves cipher credential request digest s₀ stage c action pc db active stage' := by
  have htime : ∀ now, action.now? = some now → s₀.clock ≤ now ∧ now ≤ s.clock := fun now hnow =>
    ⟨hcall.since.trans (hreads now hnow).1, (hreads now hnow).2⟩
  generalize hpc : call.pc = pc₀ at hstep hat
  cases hstep with
  | policy now =>
    obtain ⟨hfirst, hle⟩ := htime now rfl
    have hmaximum := hclaims call hget
    rw [hs.settings] at hmaximum
    have hpolicy := policy_shared hadmissible.policy hfirst (live_of_le hs hle)
      ⟨hcall.credential_eq, hcall.request_eq⟩ hmaximum
    rw [hs.settings, hcall.credential_eq, hcall.request_eq, hpolicy]
    exact ⟨stage, moves_same hs rfl (.inr ⟨hother, hfirst, live_of_le hs hle⟩)⟩
  | admission now r hr => exact moves_admission hs hidle hcall hother hat.1 hat.2 hr
  | lane record attemptId =>
    exact moves_lane hs hother hat fun hstate hfree => hclaims call record hget hpc hstate hfree
  | wake attempt howner hdone => exact ⟨stage, moves_wake hs hother hat howner hdone⟩
  | timeout attempt => exact hshares.elim
  | reload now r hr =>
    obtain ⟨hfirst, hle⟩ := htime now rfl
    obtain ⟨response, hresponse⟩ := hat
    exact ⟨stage, moves_reload hs hidle hcall hother hfirst (live_of_le hs hle) hresponse hr⟩
  | late attemptId now r hwhere hexpired hr =>
    rcases hwhere with ⟨rfl, -⟩ | ⟨rfl, -⟩ <;> exact hat.elim
  | _ => exact hat.elim

end Others

section Owner

variable {o : ℕ} {attemptId : Str} {stage : Stage} {response : Response}
variable (hidle : Idle s₀) (hown : call.credential = credential ∧ call.request = request ∧ call.digest = digest)
variable (htime : ∀ now, action.now? = some now → s₀.clock ≤ now ∧ now ≤ s.clock)

include hidle hown htime

/-- The claim is marked in progress. -/
theorem moves_claimed
    (hs : SharedAt cipher credential request digest s₀ (.claimed c attemptId) s)
    (hstep : CallStep cipher s call c (.claimed attemptId) action pc db active) :
    Moves cipher credential request digest s₀ (.claimed c attemptId) c action pc db active
      (.marked c attemptId) := by
  cases hstep with
  | late a now r hwhere hexpired hr =>
    rcases hwhere with ⟨he, rfl⟩ | ⟨he, -⟩
    · rw [hown.2.1] at hexpired
      exact absurd (live_of_le hs (htime now rfl).2) (not_lt.mpr hexpired)
    · cases he
  | mark a now r hlive hr =>
    subst hr
    rw [hown.2.1] at hlive ⊢
    obtain ⟨t₁, hclean, hrow⟩ := shared_cleanup hs hidle (htime now rfl).1 hlive
    obtain ⟨hstage, -⟩ | ⟨row, hselect, hrows, hreserved⟩ := hrow
    · cases hstage
    · obtain ⟨t', hmark, hset⟩ := @markInProgress_reserved _ _ _ _ _ request.requestId attemptId hclean
        hselect hreserved
      rw [transaction_of_ok hs.version hmark]
      refine ⟨.inr ⟨⟨by simp [Stage.level], by simp [Stage.owner], by simp [Stage.response]⟩, .inr rfl⟩,
        hs.lane, .inr ⟨row.mark attemptId now, ?_, ⟨hrows.1, hrows.2, hrows.3, hrows.4⟩, rfl, rfl⟩,
        .inl ⟨rfl, rfl⟩, by simp [Event.dispatches, Stage.dispatches, Stage.level]⟩
      rw [hset, if_pos rfl]

omit hidle in
/-- The mark is dispatched. -/
theorem moves_marked
    (hs : SharedAt cipher credential request digest s₀ (.marked c attemptId) s)
    (hstep : CallStep cipher s call c (.marked attemptId) action pc db active) :
    Moves cipher credential request digest s₀ (.marked c attemptId) c action pc db active
      (.dispatched c attemptId) := by
  cases hstep with
  | late a now r hwhere hexpired hr =>
    rcases hwhere with ⟨he, -⟩ | ⟨he, rfl⟩
    · cases he
    · rw [hown.2.1] at hexpired
      exact absurd (live_of_le hs (htime now rfl).2) (not_lt.mpr hexpired)
  | dispatch a now hlive =>
    obtain ⟨hstage, -⟩ | ⟨row, hselect, hrows, hkeeps⟩ := hs.row
    · cases hstage
    · exact ⟨.inr ⟨⟨by simp [Stage.level], by simp [Stage.owner], by simp [Stage.response]⟩, .inr rfl⟩,
        hs.lane, .inr ⟨row, hselect, hrows, hkeeps⟩, .inl ⟨rfl, .inl rfl⟩, by
        simp [Event.dispatches, Stage.dispatches, Stage.level]⟩

/-- The worker's result is stored. -/
theorem moves_settling {result : WorkerResult} (hcipher : cipher.Inverts)
    (hpolicyVersion : 1 ≤ s₀.taskPolicyVersion) (hdeployment : Scalars s₀.settings.deploymentId)
    (hascii : Ascii request.requestId ∧ Ascii credential.identityHash ∧ Ascii digest)
    (hencodes : result.Encodes)
    (hs : SharedAt cipher credential request digest s₀ (.dispatched c attemptId) s)
    (hstep : CallStep cipher s call c (.settling attemptId (.ok result)) action pc db active) :
    ∃ response, Moves cipher credential request digest s₀ (.dispatched c attemptId) c action pc db
      active (.completed c response) := by
  cases hstep with
  | late a now r hwhere hexpired hr => rcases hwhere with ⟨he, -⟩ | ⟨he, -⟩ <;> cases he
  | close a outcome now nonce r hr =>
    subst hr
    obtain ⟨hfirst, hle⟩ := htime now rfl
    obtain ⟨t₁, hclean, hrow⟩ := shared_cleanup hs hidle hfirst (live_of_le hs hle)
    obtain ⟨hstage, -⟩ | ⟨row, hselect, hrows, hstate, hattempt⟩ := hrow
    · cases hstage
    · have hidentity : AsciiIdentity row := by
        rw [AsciiIdentity, hrows.requestId, hrows.credentialHash, hrows.requestDigest]
        exact hascii
      obtain ⟨sealed, hseal⟩ := @encrypt_ok cipher row nonce result.content hidentity hencodes.content
      obtain ⟨aad, haad, -, rfl⟩ := encrypt_eq_ok hseal
      rw [← hs.policyVersion] at hpolicyVersion
      rw [← hs.settings] at hdeployment
      obtain ⟨t', hcomplete, hset⟩ := @complete_attempt s.settings.store cipher now s.db.requests t₁ row
        request.requestId attemptId hclean nonce _ result.mediaType result.content
        s.settings.deploymentId s.taskPolicyVersion hselect hstate hattempt hseal
        ⟨hencodes.mediaType, hdeployment⟩ hpolicyVersion
      have hresponse := @existingResponse_complete cipher row now nonce result.content result.mediaType
        s.settings.deploymentId s.taskPolicyVersion _ hcipher hseal
      rw [← hown.2.1] at hcomplete
      simp only [InferCall.closing, transaction_of_ok hs.version hcomplete]
      refine ⟨_, .inr ⟨⟨by simp [Stage.level], by simp [Stage.owner], by simp [Stage.response]⟩,
        .inr rfl⟩, hs.lane, .inr ⟨row.complete result.mediaType nonce
          (cipher.encrypt nonce (utf8 result.content) aad) s.settings.deploymentId
          s.taskPolicyVersion now, ?_, ⟨hrows.1, hrows.2, hrows.3, hrows.4⟩, rfl, hresponse⟩,
        .inl ⟨rfl, .inl ⟨attemptId, rfl⟩⟩, by
        simp [Event.dispatches, Stage.dispatches, Stage.level]⟩
      rw [hset, if_pos rfl]

/-- The completed row is read back. -/
theorem moves_stored
    (hs : SharedAt cipher credential request digest s₀ (.completed c response) s)
    (hstep : CallStep cipher s call c (.stored attemptId) action pc db active) :
    Moves cipher credential request digest s₀ (.completed c response) c action pc db active
      (.completed c response) := by
  cases hstep with
  | late a now r hwhere hexpired hr => rcases hwhere with ⟨he, -⟩ | ⟨he, -⟩ <;> cases he
  | finish a now r hr =>
    subst hr
    obtain ⟨hfirst, hle⟩ := htime now rfl
    obtain ⟨t₁, hclean, hrow⟩ := shared_cleanup hs hidle hfirst (live_of_le hs hle)
    obtain ⟨hstage, -⟩ | ⟨row, hselect, hrows, hstate, hanswer⟩ := hrow
    · cases hstage
    · obtain ⟨rfl, rfl, rfl⟩ := hown
      have howned := getOwned_of_row hclean hselect hrows.credentialHash hrows.requestDigest
      rw [InferCall.getOwned, transaction_of_ok hs.version howned]
      refine ⟨.inl rfl, hs.lane, .inr ⟨row, hselect, hrows, hstate, hanswer⟩, .inl ⟨rfl, .inr ?_⟩, by
        simp [Event.dispatches]⟩
      simp [ownerStep, afterFinish_some hanswer]

end Owner

section Run

variable {stage : Stage} (hidle : Idle s₀) (hadmissible : Admissible credential request s₀)
variable (hdeployment : Scalars s₀.settings.deploymentId)
variable (hcipher : cipher.Inverts) (hsha : ∀ b, Ascii (sha256 b))
variable (haccepted : request.Accepted checkSchema) (hdigest : request.canonicalDigest sha256 = .ok digest)

include hidle hadmissible hdeployment hcipher hsha haccepted hdigest

/-- A step of one of the calls. -/
theorem shared_act (hs : SharedAt cipher credential request digest s₀ stage s)
    (hget : s.calls c = some call)
    (hreads : ∀ now, action.now? = some now → call.since ≤ now ∧ now ≤ s.clock)
    (hstep : CallStep cipher s call c call.pc action pc db active)
    (hpromised : (Event.act c action).Promised checkSchema)
    (hshares : (Event.act c action).Shares credential request)
    (hclaims : ClaimsReserved s (.act c action)) :
    ∃ stage', SharedAt cipher credential request digest s₀ stage' (s.after c call pc db active) ∧
      stage'.dispatches = stage.dispatches + if (Event.act c action).dispatches then 1 else 0 := by
  have hascii : Ascii request.requestId ∧ Ascii credential.identityHash ∧ Ascii digest := by
    obtain ⟨encoded, -, he⟩ := bind_eq_ok.mp hdigest
    obtain rfl := Except.ok.inj he
    exact ⟨uuidV4_ascii haccepted.requestId, hadmissible.owner, hsha encoded⟩
  by_cases hnew : s₀.calls c = none
  · have hcall := hs.calls c call hget hnew
    have htime : ∀ now, action.now? = some now → s₀.clock ≤ now ∧ now ≤ s.clock := fun now hnow =>
      ⟨hcall.since.trans (hreads now hnow).1, (hreads now hnow).2⟩
    have hown := And.intro hcall.credential_eq (And.intro hcall.request_eq hcall.digest_eq)
    have hmoves : ∃ stage', Moves cipher credential request digest s₀ stage c action pc db active
        stage' := by
      rcases hcall.pc with ⟨howner, hat⟩ | ⟨hother, hat⟩
      · rcases Stage.ownerAt_cases hat with ⟨o, a, rfl, hpc⟩ | ⟨o, a, rfl, hpc⟩ | ⟨o, a, rfl, hpc⟩ |
          ⟨o, a, result, rfl, hpc, hencodes⟩ | ⟨o, r, a, rfl, hpc⟩ | ⟨o, r, rfl, hpc⟩ | ⟨o, r, rfl, hpc⟩
        all_goals
          obtain rfl : o = c := Option.some.inj howner
          rw [hpc] at hstep
        · exact ⟨_, moves_claimed hidle hown htime hs hstep⟩
        · exact ⟨_, moves_marked hown htime hs hstep⟩
        · cases hstep with
          | late a now r hwhere hexpired hr => rcases hwhere with ⟨he, -⟩ | ⟨he, -⟩ <;> cases he
          | outcome a outcome =>
            cases outcome with
            | error e => exact hshares.elim
            | ok result =>
              obtain ⟨library, schema, document, hvalid⟩ := hpromised
              have hencodes := validatedResult_encodes hvalid
              exact ⟨_, moves_same hs rfl (.inl ⟨rfl, .inr ⟨result, rfl, hencodes⟩⟩)⟩
        · obtain ⟨response, hm⟩ := moves_settling hidle hown htime hcipher hidle.policyVersion
            hdeployment hascii hencodes hs hstep
          exact ⟨_, hm⟩
        · exact ⟨_, moves_stored hidle hown htime hs hstep⟩
        · cases hstep with
          | late a now r hwhere hexpired hr => rcases hwhere with ⟨he, -⟩ | ⟨he, -⟩ <;> cases he
          | release result =>
            obtain ⟨hstage, -⟩ | hrow := hs.row
            · cases hstage
            · exact ⟨.released o r, .inr ⟨⟨by simp [Stage.level], by simp [Stage.owner],
                by simp [Stage.response]⟩, .inr rfl⟩, rfl, .inr hrow, .inl ⟨rfl, rfl⟩, by
                simp [Event.dispatches, Stage.dispatches, Stage.level]⟩
        · cases hstep with
          | late a now r hwhere hexpired hr => rcases hwhere with ⟨he, -⟩ | ⟨he, -⟩ <;> cases he
      · exact moves_other hs hidle hcall hother hadmissible hstep hget hat hreads hshares hclaims
    obtain ⟨stage', hm⟩ := hmoves
    exact ⟨stage', shared_after hs hget hnew hstep.version hm, hm.count⟩
  · obtain ⟨result, hdone⟩ := hidle.calls c call (hs.ended c hnew ▸ hget)
    rw [hdone] at hstep
    cases hstep with
    | late a now r hwhere hexpired hr => rcases hwhere with ⟨he, -⟩ | ⟨he, -⟩ <;> cases he

/-- One event carries the stage on. -/
theorem shared_step {e : Event} (hs : SharedAt cipher credential request digest s₀ stage s)
    (h : SharedStep checkSchema cipher sha256 credential request s e t)
    (hclaims : ClaimsReserved s e) :
    ∃ stage', SharedAt cipher credential request digest s₀ stage' t ∧
      stage'.dispatches = stage.dispatches + if e.dispatches then 1 else 0 := by
  have hshares := h.shares
  cases serviceStep_of_next h.happens.next with
  | tick hclock =>
    exact ⟨stage, ⟨hs.version, hs.policyVersion, hs.settings, hs.clock.trans hclock, hshares, hs.lane,
      hs.row, hs.calls, hs.ended, hs.owner⟩, rfl⟩
  | arrive hfree hdigest' =>
    rename_i c credential' request' digest'
    obtain ⟨rfl, rfl⟩ := hshares
    obtain rfl : digest = digest' := Except.ok.inj (hdigest.symm.trans hdigest')
    have hunowned : stage.owner ≠ some c := by
      intro howner
      have := (hs.owner c howner).2
      simp [hfree] at this
    refine ⟨stage, ⟨hs.version, hs.policyVersion, hs.settings, hs.clock, hs.live, hs.lane, hs.row, ?_, ?_,
      ?_⟩, rfl⟩
    · intro c' call' hget' hnew'
      simp only [Function.update_apply] at hget'
      split_ifs at hget' with hc
      · obtain rfl := Option.some.inj hget'
        subst hc
        exact ⟨rfl, rfl, rfl, hs.clock, .inr ⟨hunowned, trivial⟩⟩
      · exact hs.calls c' call' hget' hnew'
    · intro c' hold
      have hc : c' ≠ c := by
        rintro rfl
        rw [← hs.ended c' hold, hfree] at hold
        exact hold rfl
      simp only [Function.update_apply, hc, if_false]
      exact hs.ended c' hold
    · intro o howner
      have hc : o ≠ c := by
        rintro rfl
        exact hunowned howner
      simp only [Function.update_apply, hc, if_false]
      exact hs.owner o howner
  | act hget hreads hstep =>
    exact shared_act hidle hadmissible hdeployment hcipher hsha haccepted hdigest hs hget hreads hstep
      h.happens.promised hshares hclaims
  | acknowledge hclock => exact hshares.elim
  | maintain hclock =>
    rename_i now
    refine ⟨stage, ⟨(transaction_version _ _).trans hs.version, hs.policyVersion, hs.settings, hs.clock,
      hs.live, hs.lane, ?_, hs.calls, hs.ended, hs.owner⟩, rfl⟩
    rcases outcome_requests (maintain s.settings.store now) s.db with hsame | ⟨u, hok⟩
    · simp only [StoreCall.run, hsame]
      exact hs.row
    · obtain ⟨t₁, hclean, hrest⟩ := bind_eq_ok.mp hok
      obtain ⟨-, hrequests⟩ := Prod.mk.inj (Except.ok.inj hrest)
      simp only [StoreCall.run, ← hrequests]
      rw [hs.settings] at hclean
      exact rowAt_cleanup hs.row hclean (hclock.trans_lt hs.live)
  | restart hclock hopens => exact hshares.elim

theorem shared_run {events : List Event} (hs : SharedAt cipher credential request digest s₀ stage s)
    (hrun : Run (fun s e t => SharedStep checkSchema cipher sha256 credential request s e t ∧
      ClaimsReserved s e) s events t) :
    ∃ stage', SharedAt cipher credential request digest s₀ stage' t ∧
      stage'.dispatches = stage.dispatches + events.countP Event.dispatches := by
  induction hrun generalizing stage with
  | refl => exact ⟨stage, hs, by simp⟩
  | stepL h _ ih =>
    obtain ⟨stage₁, hs₁, hcount⟩ := shared_step hidle hadmissible hdeployment hcipher hsha haccepted
      hdigest hs h.1 h.2
    obtain ⟨stage₂, hs₂, hcount'⟩ := ih hs₁
    refine ⟨stage₂, hs₂, ?_⟩
    rw [hcount', hcount, List.countP_cons]
    omega

omit hidle hdeployment hcipher hsha haccepted hdigest in
theorem shared_initial (hidle : Idle s₀) :
    SharedAt cipher credential request digest s₀ .absent s₀ where
  version := hidle.version
  policyVersion := rfl
  settings := rfl
  clock := le_rfl
  live := (validatePolicy_ok hadmissible.policy).2.2.1
  lane := hidle.lane
  row := .inl ⟨rfl, hadmissible.new, hadmissible.total, hadmissible.perCredential⟩
  calls := by
    intro c call hget hnew
    rw [hnew] at hget
    cases hget
  ended := fun _ _ => rfl
  owner := by
    intro o ho
    cases ho

end Run

/-! No call is stuck, and none goes on for ever. -/

/-- A call that has not ended can go on, or the call it waits for can. -/
theorem shared_possible {stage : Stage} (hs : SharedAt cipher credential request digest s₀ stage s)
    (hget : s.calls c = some call) (hnew : s₀.calls c = none)
    (hended : ∀ result, call.pc ≠ .done result) (hsince : ∀ c call, s.calls c = some call → call.since ≤ s.clock) :
    ∃ c' action t, (c' = c ∨ ∃ attempt, call.pc = .waiting attempt ∧ attempt.owner = c') ∧
      s.next cipher sha256 (.act c' action) = some t := by
  by_cases hwaiting : ∃ attempt, call.pc = .waiting attempt
  · obtain ⟨attempt, hpc⟩ := hwaiting
    have hholder : stage.owner = some attempt.owner := by
      rcases (hs.calls c call hget hnew).pc with ⟨-, hat⟩ | ⟨-, hat⟩
      · rw [hpc] at hat
        cases stage <;> simp_all [Stage.OwnerAt]
      · rw [hpc] at hat
        exact hat.2
    obtain ⟨hnew', hsome⟩ := hs.owner _ hholder
    obtain ⟨owner, howner⟩ := Option.isSome_iff_exists.mp hsome
    by_cases hdone : ∃ result, owner.pc = .done result
    · obtain ⟨result, hdone⟩ := hdone
      have hwakes : call.step cipher s c call.pc .wake =
          some (s.keepsLane (.reloading, s.db)) := by
        rw [hpc]
        refine if_pos ?_
        rw [howner, Option.bind_some, InferCall.result?_eq_some.mpr hdone]
        rfl
      have hnext : ∃ t, s.next cipher sha256 (.act c .wake) = some t :=
        next_possible hget (hsince c call hget) hwakes fun now h => by cases h
      obtain ⟨t, ht⟩ := hnext
      exact ⟨c, .wake, t, .inl rfl, ht⟩
    · push Not at hdone
      have hat : stage.OwnerAt owner.pc := by
        rcases (hs.calls _ owner howner hnew').pc with ⟨-, hat⟩ | ⟨hne, -⟩
        · exact hat
        · exact absurd hholder hne
      have hgoes : ∀ attempt, owner.pc ≠ .waiting attempt := by
        intro attempt' hpc'
        rw [hpc'] at hat
        cases stage <;> simp_all [Stage.OwnerAt]
      obtain ⟨action, r, hstep, hnow⟩ := step_possible hgoes hdone s.clock
      have hnext : ∃ t, s.next cipher sha256 (.act attempt.owner action) = some t :=
        next_possible howner (hsince _ owner howner) hstep hnow
      obtain ⟨t, ht⟩ := hnext
      exact ⟨_, action, t, .inr ⟨attempt, hpc, rfl⟩, ht⟩
  · push Not at hwaiting
    obtain ⟨action, r, hstep, hnow⟩ := step_possible hwaiting hended s.clock
    have hnext : ∃ t, s.next cipher sha256 (.act c action) = some t :=
      next_possible hget (hsince c call hget) hstep hnow
    obtain ⟨t, ht⟩ := hnext
    exact ⟨c, action, t, .inl rfl, ht⟩

/-- Whether the event is a step of call `c`. -/
def Event.actsFor (c : ℕ) : Event → Bool
  | .act c' _ => c' = c
  | _ => false

/-- How many steps a call can still take. -/
def GatewayService.stepsLeft (s : GatewayService) (c : ℕ) : ℕ :=
  (s.calls c).elim 11 (fun call => call.pc.rank)

theorem stepsLeft_step {e : Event}
    (h : SharedStep checkSchema cipher sha256 credential request s e t) (c : ℕ) :
    (if e.actsFor c then 1 else 0) + t.stepsLeft c ≤ s.stepsLeft c := by
  have hshares := h.shares
  cases serviceStep_of_next h.happens.next with
  | tick hclock => simp [Event.actsFor, GatewayService.stepsLeft]
  | arrive hfree hdigest =>
    rename_i c' credential' request' digest'
    by_cases hc : c = c'
    · subst hc
      simp [Event.actsFor, GatewayService.stepsLeft, hfree, Pc.rank]
    · simp [Event.actsFor, GatewayService.stepsLeft, hc]
  | act hget hreads hstep =>
    rename_i c' action call pc db active
    have hrank := hstep.rank
    by_cases hc : c = c'
    · subst hc
      simp only [Event.actsFor, decide_true, if_true, GatewayService.stepsLeft, GatewayService.after,
        Function.update_self, hget, Option.elim_some]
      omega
    · have hc' : ¬ c' = c := fun he => hc he.symm
      simp [Event.actsFor, GatewayService.stepsLeft, GatewayService.after, hc, hc']
  | acknowledge hclock => exact hshares.elim
  | maintain hclock => simp [Event.actsFor, GatewayService.stepsLeft]
  | restart hclock hopens => exact hshares.elim

theorem steps_bounded {events : List Event} {step : GatewayService → Event → GatewayService → Prop}
    (hstep : ∀ s e t, step s e t → SharedStep checkSchema cipher sha256 credential request s e t)
    (hrun : Run step s events t) (c : ℕ) :
    events.countP (Event.actsFor c) + t.stepsLeft c ≤ s.stepsLeft c := by
  induction hrun with
  | refl => simp
  | stepL h _ ih =>
    have hleft := stepsLeft_step (hstep _ _ _ h) c
    rw [List.countP_cons]
    omega

/-- A call's last step lies in the past. -/
def Timely (s : GatewayService) : Prop := ∀ c call, s.calls c = some call → call.since ≤ s.clock

theorem timely_step {e : Event} (h : ServiceStep cipher sha256 s e t) (hs : Timely s) : Timely t := by
  intro c call hget
  cases h with
  | tick hclock => exact (hs c call hget).trans hclock
  | arrive hfree hdigest =>
    simp only [Function.update_apply] at hget
    split_ifs at hget
    · obtain rfl := Option.some.inj hget
      exact le_rfl
    · exact hs c call hget
  | act hget' hreads hstep =>
    simp only [GatewayService.after, Function.update_apply] at hget
    split_ifs at hget
    · obtain rfl := Option.some.inj hget
      exact le_rfl
    · exact hs c call hget
  | acknowledge hclock => exact hs c call hget
  | maintain hclock => exact hs c call hget
  | restart hclock hopens => cases hget

/-- The calls that arrived since `s₀` share one result of one dispatch, and all come to an end. -/
structure ShareOne (cipher : Cipher) (sha256 : Bytes → Str) (s₀ : GatewayService)
    (events : List Event) (s : GatewayService) : Prop where
  answered : ∃ response, ∀ c call result, s₀.calls c = none → s.calls c = some call →
    call.pc = .done result → result = .ok response
  dispatches : events.countP Event.dispatches ≤ 1 ∧
    ∀ c call result, s₀.calls c = none → s.calls c = some call → call.pc = .done result →
      events.countP Event.dispatches = 1
  possible : ∀ c call, s₀.calls c = none → s.calls c = some call →
    (∀ result, call.pc ≠ .done result) →
      ∃ c' action t, (c' = c ∨ ∃ attempt, call.pc = .waiting attempt ∧ attempt.owner = c') ∧
        s.next cipher sha256 (.act c' action) = some t
  bounded : ∀ c, s₀.calls c = none → events.countP (Event.actsFor c) ≤ 11

/-- Exact repeats of a new request share one result under a deployment id that can be encoded, in every
run whose claims of the lane are of a row that is still reserved. -/
theorem repeats_share (hcipher : cipher.Inverts) (hsha : ∀ b, Ascii (sha256 b))
    (haccepted : request.Accepted checkSchema) (hidle : Idle s₀) (htimely : Timely s₀)
    (hadmissible : Admissible credential request s₀)
    (hdeployment : Scalars s₀.settings.deploymentId) {events : List Event}
    (hrun : Run (fun s e t => SharedStep checkSchema cipher sha256 credential request s e t ∧
      ClaimsReserved s e) s₀ events s) :
    ShareOne cipher sha256 s₀ events s := by
  have hdigest : ∃ digest, request.canonicalDigest sha256 = .ok digest := by
    have hp := InferenceRequest.modelDump_parsed haccepted
    rw [InferenceRequest.canonicalDigest, Json.encodeJsonBytes_eq hp]
    exact ⟨_, rfl⟩
  obtain ⟨digest, hdigest⟩ := hdigest
  have hinitial : SharedAt cipher credential request digest s₀ .absent s₀ :=
    shared_initial hadmissible hidle
  obtain ⟨stage, hs, hcount⟩ := shared_run hidle hadmissible hdeployment hcipher hsha haccepted hdigest
    hinitial hrun
  have hended : ∀ c call result, s₀.calls c = none → s.calls c = some call → call.pc = .done result →
      ∃ response, stage.response = some response ∧ result = .ok response := by
    intro c call result hnew hget hpc
    rcases (hs.calls c call hget hnew).pc with ⟨-, hat⟩ | ⟨-, hat⟩
    · rw [hpc] at hat
      cases stage <;> simp_all [Stage.OwnerAt, Stage.response]
    · rw [hpc] at hat
      exact hat
  have hdispatches : events.countP Event.dispatches = stage.dispatches := by
    rw [hcount]
    simp [Stage.dispatches, Stage.level]
  refine ⟨?_, ⟨?_, ?_⟩, ?_, ?_⟩
  · cases hresponse : stage.response with
    | none =>
      refine ⟨⟨[], none, [], 0, []⟩, fun c call result hnew hget hpc => ?_⟩
      obtain ⟨response, hsome, -⟩ := hended c call result hnew hget hpc
      rw [hresponse] at hsome
      cases hsome
    | some response =>
      refine ⟨response, fun c call result hnew hget hpc => ?_⟩
      obtain ⟨response', hsome, rfl⟩ := hended c call result hnew hget hpc
      rw [hresponse] at hsome
      obtain rfl := Option.some.inj hsome
      rfl
  · rw [hdispatches, Stage.dispatches]
    split_ifs <;> omega
  · intro c call result hnew hget hpc
    obtain ⟨response, hsome, -⟩ := hended c call result hnew hget hpc
    rw [hdispatches]
    cases stage <;> simp_all [Stage.response, Stage.dispatches, Stage.level]
  · intro c call hnew hget hnotdone
    have htimely' : Timely s := hrun.invariant
      (fun _ _ _ h hs => timely_step (serviceStep_of_next h.1.happens.next) hs) htimely
    exact shared_possible hs hget hnew hnotdone htimely'
  · intro c hnew
    have hbound := steps_bounded (fun _ _ _ h => h.1) hrun c
    have hleft : s₀.stepsLeft c = 11 := by simp [GatewayService.stepsLeft, hnew]
    omega

/-! Two calls of the sample request. -/

/-- Whether the event claims the lane as it should, as a computation. -/
def claimsReserved (s : GatewayService) : Event → Bool
  | .act c (.policy now) => (s.calls c).all (fun call => (maximumExpiry s.settings now).isSome ||
      decide (call.request.taskKey ∉ call.credential.tasks))
  | .act c (.lane _) => (s.calls c).all (fun call =>
      match call.pc with
      | .admitted record => s.active.isSome || record.state ≠ .reserved ||
          (s.db.requests.select record.requestId).any (fun row => row.state = .reserved)
      | _ => true)
  | _ => true

theorem claimsReserved_of_true {e : Event} (h : claimsReserved s e = true) : ClaimsReserved s e := by
  unfold claimsReserved at h
  split at h
  · intro call hget htask _ _
    rw [hget] at h
    simpa [htask] using h
  · intro call record hget hpc hstate hfree
    rw [hget] at h
    simp only [Option.all_some, hpc, hfree, hstate] at h
    cases hrow : s.db.requests.select record.requestId with
    | none => simp [hrow] at h
    | some row => exact ⟨row, rfl, by simpa [hrow] using h⟩
  · unfold ClaimsReserved
    split <;> simp_all

/-- What both calls do first, and what the first does then. -/
def repeatedEvents : List Event :=
  let six := sampleMoment 18 0 0 0
  [.arrive 0 sampleCredential (sampleRequest false), .arrive 1 sampleCredential (sampleRequest false),
    .act 0 (.policy six), .act 0 .admission, .act 1 (.policy six), .act 1 .admission,
    .act 0 (.lane (str "a0"))]

def dispatchedEvents : List Event :=
  let six := sampleMoment 18 0 0 0
  [.act 0 (.mark six), .act 0 (.dispatch six), .act 0 (.outcome (.ok sampleWorkerResult)),
    .act 0 (.close six [0]), .act 0 (.finish six), .act 0 .release]

/-- The second call finds the first on the lane. -/
def joinedEvents : List Event :=
  repeatedEvents ++ [.act 1 (.lane (str "a1"))] ++ dispatchedEvents ++
    [.act 1 .wake, .act 1 (.reload (sampleMoment 18 0 0 0))]

/-- The second call, having read the row as reserved, finds the lane free again. -/
def overtakingEvents : List Event :=
  let six := sampleMoment 18 0 0 0
  repeatedEvents ++ dispatchedEvents ++
    [.act 1 (.lane (str "a1")), .act 1 (.mark six), .act 1 (.recover six), .act 1 .release]

def startedAtSix : Option GatewayService :=
  GatewayService.initial shortRetention 2 (sampleMoment 18 0 0 0)

/-- A process that has just started is idle. -/
theorem idle_initial {settings : Settings} {taskPolicyVersion : ℤ} (hversion : 1 ≤ taskPolicyVersion)
    (h : GatewayService.initial settings taskPolicyVersion now = some s) :
    Idle s ∧ Timely s ∧ s.settings = settings ∧ s.clock = now ∧ ∀ c, s.calls c = none := by
  unfold GatewayService.initial at h
  split at h
  · rename_i db hopens
    obtain rfl := Option.some.inj h
    obtain ⟨hdb, hcutoff⟩ := initializeStore_opened hopens
    refine ⟨⟨hdb, hversion, hcutoff, rfl, ?_⟩, ?_, rfl, rfl, fun _ => rfl⟩
    · intro c call hget
      cases hget
    · intro c call hget
      cases hget
  · cases h

theorem startedAtSix_rows :
    startedAtSix.map (fun s => s.db.requests.rows.map Row.requestId) = some [] := by
  decide +kernel

theorem admissible_startedAtSix (h : startedAtSix = some s) :
    Admissible sampleCredential (sampleRequest false) s := by
  obtain ⟨-, -, hsettings, hclock, -⟩ := idle_initial (by norm_num) h
  have hrows : s.db.requests.rows = [] := by
    have := startedAtSix_rows
    rw [h] at this
    simpa using this
  refine ⟨?_, by decide, ?_, ?_, ?_⟩
  · rw [hsettings, hclock]
    decide +kernel
  · rw [KeyedTable.select, hrows]
    rfl
  · rw [openTotal, KeyedTable.count, hrows, hsettings]
    decide
  · rw [openPerCredential, KeyedTable.count, hrows, hsettings]
    decide

theorem plainCipher_inverts : plainCipher.Inverts := fun _ _ _ => rfl

/-- The events of both runs are those of repeats of the sample request. -/
theorem repeats_promised : ∀ e ∈ joinedEvents ++ overtakingEvents,
    e.Promised (fun _ => true) ∧ e.Shares sampleCredential (sampleRequest false) := by
  have hascii : Ascii sampleCredential.identityHash := by decide
  have hresult : ∃ library schema document,
      validatedResult library schema document = .ok sampleWorkerResult :=
    ⟨⟨100, fun _ _ => true⟩, [], completionDocument (str "\x7b\x7d"), by decide +kernel⟩
  simp only [joinedEvents, overtakingEvents, repeatedEvents, dispatchedEvents, List.cons_append,
    List.nil_append, List.forall_mem_cons]
  simp only [Event.Promised, Event.Shares, sampleRequest_accepted, hascii, hresult, List.not_mem_nil,
    false_implies, implies_true, and_self]

/-- Run as a reader would: the second call waits and returns the first one's result. -/
theorem repeats_share_joined : ∃ s₀ s, startedAtSix = some s₀ ∧
    (s.calls 1).bind InferCall.result? = some (.ok ⟨(sampleRequest false).requestId,
      some (str "application/json"), str "\x7b\x7d", 2, str "gateway-1"⟩) ∧
    ShareOne plainCipher sampleSha256 s₀ joinedEvents s := by
  have hresult : ((startedAtSix.bind
      (fun s => s.play plainCipher sampleSha256 claimsReserved joinedEvents)).bind
        (fun s => s.calls 1)).bind InferCall.result? = some (.ok ⟨(sampleRequest false).requestId,
          some (str "application/json"), str "\x7b\x7d", 2, str "gateway-1"⟩) := by
    decide +kernel
  obtain ⟨call, hcall, hdone⟩ := Option.bind_eq_some_iff.mp hresult
  obtain ⟨s, hplayed, hget⟩ := Option.bind_eq_some_iff.mp hcall
  obtain ⟨s₀, hstart, hplay⟩ := Option.bind_eq_some_iff.mp hplayed
  obtain ⟨hidle, htimely, -⟩ := idle_initial (by norm_num) hstart
  refine ⟨s₀, s, hstart, by rw [hget]; exact hdone, ?_⟩
  refine repeats_share plainCipher_inverts sampleSha256_ascii (sampleRequest_accepted false) hidle
    htimely (admissible_startedAtSix hstart) ?_
    (run_of_play (fun s e t he hnext hguard => ⟨⟨⟨hnext, ?_⟩, ?_⟩, claimsReserved_of_true hguard⟩) hplay)
  · obtain ⟨-, -, hsettings, -⟩ := idle_initial (by norm_num) hstart
    rw [hsettings]
    decide
  · exact (repeats_promised e (List.mem_append_left _ he)).1
  · exact (repeats_promised e (List.mem_append_left _ he)).2

/-- The second call, overtaken between its read and the lane, ends in a timeout. -/
theorem repeats_diverge : ¬ ∀ (checkSchema : Json → Bool) (cipher : Cipher) (sha256 : Bytes → Str)
    (credential : Credential) (request : InferenceRequest) (s₀ s : GatewayService)
    (events : List Event), cipher.Inverts → (∀ b, Ascii (sha256 b)) → request.Accepted checkSchema →
    Idle s₀ → Timely s₀ → Admissible credential request s₀ →
    Run (SharedStep checkSchema cipher sha256 credential request) s₀ events s →
    ShareOne cipher sha256 s₀ events s := by
  intro hall
  have hresults : (startedAtSix.bind
      (fun s => s.play plainCipher sampleSha256 (fun _ _ => true) overtakingEvents)).map
        (fun s => (((s.calls 0).bind InferCall.result?).map Except.toBool,
          ((s.calls 1).bind InferCall.result?).map Except.toBool)) = some (some true, some false) := by
    decide +kernel
  obtain ⟨s, hplayed, hboth⟩ := Option.map_eq_some_iff.mp hresults
  obtain ⟨s₀, hstart, hplay⟩ := Option.bind_eq_some_iff.mp hplayed
  obtain ⟨hidle, htimely, -, -, hnone⟩ := idle_initial (by norm_num) hstart
  have hrun : Run (SharedStep (fun _ => true) plainCipher sampleSha256 sampleCredential
      (sampleRequest false)) s₀ overtakingEvents s := by
    refine run_of_play (fun s e t he hnext _ => ⟨⟨hnext, ?_⟩, ?_⟩) hplay
    · exact (repeats_promised e (List.mem_append_right _ he)).1
    · exact (repeats_promised e (List.mem_append_right _ he)).2
  obtain ⟨response, hanswered⟩ := (hall _ _ _ _ _ _ _ _ plainCipher_inverts sampleSha256_ascii
    (sampleRequest_accepted false) hidle htimely (admissible_startedAtSix hstart) hrun).answered
  obtain ⟨-, hsecond⟩ := Prod.mk.inj hboth
  obtain ⟨result, hresult, hfails⟩ := Option.map_eq_some_iff.mp hsecond
  obtain ⟨call, hget, hdone⟩ := Option.bind_eq_some_iff.mp hresult
  obtain rfl := hanswered 1 call result (hnone 1) hget (InferCall.result?_eq_some.mp hdone)
  cases hfails

end Gateway
