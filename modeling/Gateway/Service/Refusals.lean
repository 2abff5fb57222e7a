import Gateway.Service.Acknowledgement
import Gateway.Service.StoreCalls
import Gateway.Service.ShortRetention
import Gateway.Store.Moves

/-! What a call of `infer` ends in: an answer of the service's own, unless a policy or a reload raises. -/
namespace Gateway

open Template (Ascii)
open Transition (Run)

variable {cipher : Cipher} {sha256 : Bytes → Str} {checkSchema : Json → Bool}
variable {s t : GatewayService} {call : InferCall} {c : ℕ} {pc : Pc} {action : Action}
variable {db : Database} {active : Option ActiveAttempt} {now d : Datetime} {e : Escape}

/-- A completed response, or the service's own failure. -/
def Answered (result : Except Escape Response) : Prop :=
  (∃ response, result = .ok response) ∨ ∃ failure, result = .error (.failure failure)

/-- What a call has ended in, or what it is about to end in once its `finally` has run. -/
def Pc.ending? : Pc → Option (Except Escape Response)
  | .leaving result => some result
  | .done result => some result
  | _ => none

/-- Every call that has ended, or has only its `finally` left, has answered. -/
def AllAnswered (s : GatewayService) : Prop :=
  ∀ c call result, s.calls c = some call → call.pc.ending? = some result → Answered result

@[simp] theorem answered_ok (response : Response) : Answered (.ok response) := .inl ⟨response, rfl⟩

@[simp] theorem answered_failure (failure : GatewayFailure) :
    Answered (.error (.failure failure)) := .inr ⟨failure, rfl⟩

@[simp] theorem not_answered_raised (e : Raised) : ¬ Answered (.error (.raised e)) := by
  simp [Answered]

@[simp] theorem answered_fail (code : String) (retryable : Bool) (statusCode : ℕ) :
    Answered (fail code retryable statusCode) := answered_failure _

@[simp] theorem answered_failLater (settings : Settings) (code : String) (statusCode : ℕ) :
    Answered (failLater settings code statusCode) := answered_failure _

/-! The three steps that can raise. -/

/-- A request the policy would look at further has its maximum expiry in the calendar. -/
def MaximumExists (settings : Settings) (call : InferCall) (now : Datetime) : Prop :=
  call.request.taskKey ∈ call.credential.tasks → (taskPolicy? call.request.taskKey).isSome →
    now < call.request.expiresAt → (maximumExpiry settings now).isSome

/-- The row is in the file, as the caller's, and no tombstone that a cleanup at `now` deletes. -/
def StillOwned (s : GatewayService) (call : InferCall) (now : Datetime) : Prop :=
  ∃ row, s.db.requests.select call.request.requestId = some row ∧
    row.credentialHash = call.credential.identityHash ∧ row.requestDigest = call.digest ∧
    (row.isClosed = true → Young s.settings.store now row)

/-- Where the result of a worker is to be stored, for a row that is still the attempt's and is not due,
the deployment id that is stored with it can be encoded. -/
def Binds (s : GatewayService) (call : InferCall) (now : Datetime) : Prop :=
  ∀ attemptId result row, call.pc = .settling attemptId (.ok result) →
    s.db.requests.select call.request.requestId = some row → row.state = .inProgress →
    row.attemptId = some attemptId → row.isDue now = false → Scalars s.settings.deploymentId

/-- The policy, the reload and the completion of every call find what they need. -/
def Finds (s : GatewayService) : Event → Prop
  | .act c (.policy now) => ∀ call, s.calls c = some call → MaximumExists s.settings call now
  | .act c (.reload now) => ∀ call, s.calls c = some call → StillOwned s call now
  | .act c (.close now _) => ∀ call, s.calls c = some call → Binds s call now
  | _ => True

theorem validatePolicy_answered (h : MaximumExists s.settings call now)
    (he : validatePolicy s.settings call.credential call.request now = .error e) :
    Answered (.error e) := by
  unfold validatePolicy at he
  split at he
  · obtain rfl := Except.error.inj he
    simp
  · rename_i htask
    split at he
    · obtain rfl := Except.error.inj he
      simp
    · rename_i policy hpolicy
      split at he
      · obtain rfl := Except.error.inj he
        simp
      · rename_i hexpired
        have hmaximum := h (not_not.mp htask) (by simp [hpolicy]) (not_le.mp hexpired)
        split at he
        · rename_i hnone
          simp [hnone] at hmaximum
        · repeat' split at he
          all_goals first
            | obtain rfl := Except.error.inj he; simp
            | cases he

theorem validatePolicy_raises (h : ¬ MaximumExists s.settings call now) :
    validatePolicy s.settings call.credential call.request now =
      .error (.raised .overflowError) := by
  unfold MaximumExists at h
  push Not at h
  obtain ⟨htask, hpolicy, hlive, hnone⟩ := h
  obtain ⟨policy, hpolicy⟩ := Option.isSome_iff_exists.mp hpolicy
  have hnone' : maximumExpiry s.settings now = none := by simpa using hnone
  simp only [validatePolicy, htask, not_true_eq_false, if_false, hpolicy, not_le.mpr hlive, hnone']

/-- Every row but an old tombstone survives a cleanup. -/
theorem cleanup_survives {settings : StoreSettings} {t t₁ : Table} {row : Row} {k : Str}
    (hretention : 0 ≤ settings.tombstoneRetentionSeconds) (hclean : cleanup settings now t = .ok t₁)
    (hrow : t.select k = some row) (hyoung : row.isClosed = true → Young settings now row) :
    ∃ row', t₁.select k = some row' ∧ SameIdentity row row' := by
  obtain ⟨cutoff, hcutoff, rfl⟩ := cleanup_eq_ok.mp hclean
  have hnew := timestamp_cutoff hretention hcutoff
  rw [select_purge, select_expireDue, hrow]
  by_cases hclosed : row.isClosed = true
  · have hold := hyoung hclosed cutoff hcutoff
    exact ⟨row, by simp [hclosed, hold, Option.filter], .refl row⟩
  · by_cases hdue : row.isDue now = true
    · refine ⟨row.expire now, ?_, rfl, rfl, rfl, rfl, rfl, rfl⟩
      have hupdated : (row.expire now).updatedAt = timestamp now := rfl
      simp [hclosed, hdue, Option.filter, hupdated, hnew]
    · exact ⟨row, by simp [hclosed, hdue, Option.filter], .refl row⟩

theorem getOwned_answers (hv : s.db.version = some schemaVersion)
    (hcutoff : HasCutoff s.settings.store now) (h : StillOwned s call now) :
    ∃ record, (call.getOwned s now).1 = .ok record := by
  obtain ⟨row, hrow, howner, hdigest, hyoung⟩ := h
  obtain ⟨t₁, hclean⟩ := hasCutoff_iff.mp hcutoff
  have hretention : 0 ≤ s.settings.store.tombstoneRetentionSeconds := by
    have := s.settings.retention_range.1
    exact le_trans zero_le_one this
  obtain ⟨row', hrow', hid⟩ := cleanup_survives hretention hclean hrow hyoung
  have howned := getOwned_of_row hclean hrow' (hid.credentialHash.symm.trans howner)
    (hid.requestDigest.symm.trans hdigest)
  exact ⟨row'.record, by rw [InferCall.getOwned, transaction_of_ok hv howned]⟩

theorem getOwned_raises (h : ¬ StillOwned s call now) :
    ∃ e, (call.getOwned s now).1 = .error e := by
  cases hr : transaction (Gateway.getOwned s.settings.store now call.request.requestId
    call.credential.identityHash (some call.digest)) s.db with
  | mk result db =>
    cases result with
    | error e => exact ⟨e, by rw [InferCall.getOwned, hr]⟩
    | ok record =>
      obtain ⟨t', howned, -⟩ := transaction_ok hr
      obtain ⟨hclean, row', hrow', howner, hdigest, -⟩ := getOwned_ok howned
      rcases cleanup_select hclean call.request.requestId with hnone | ⟨row, hrow, hrow''⟩
      · simp [hnone] at hrow'
      · refine (h ⟨row, hrow, ?_, ?_, fun hclosed => ?_⟩).elim
        · obtain rfl := Option.some.inj (hrow''.symm.trans hrow')
          split_ifs at howner <;> exact howner
        · obtain rfl := Option.some.inj (hrow''.symm.trans hrow')
          have := hdigest _ rfl
          split_ifs at this <;> exact this
        · exact cleanup_young hclean hrow hclosed (by simp [hrow'])

/-! What holds of every state. -/

/-- The texts that name a request in the associated data are ASCII. -/
def AsciiIdentity (row : Row) : Prop :=
  Ascii row.requestId ∧ Ascii row.credentialHash ∧ Ascii row.requestDigest

theorem asciiIdentity_same (row row' : Row) (hid : SameIdentity row row') (h : AsciiIdentity row) :
    AsciiIdentity row' := by
  rw [AsciiIdentity, ← hid.requestId, ← hid.credentialHash, ← hid.requestDigest]
  exact h

/-- What a call holds where it stands, in a process started at `d`. -/
def Pc.Sound (d : Datetime) : Pc → Prop
  | .policed now => d ≤ now
  | .settling _ (.ok result) => result.Encodes
  | .leaving result => Answered result
  | .done result => Answered result
  | _ => True

structure InferCall.Sound (d : Datetime) (call : InferCall) : Prop where
  since : d ≤ call.since
  requestId : Ascii call.request.requestId
  owner : Ascii call.credential.identityHash
  digest : Ascii call.digest
  pc : call.pc.Sound d

structure GatewayService.Sound (d : Datetime) (s : GatewayService) : Prop where
  version : s.db.version = some schemaVersion
  policyVersion : 1 ≤ s.taskPolicyVersion
  cutoff : HasCutoff s.settings.store d
  clock : d ≤ s.clock
  rows : Rows AsciiIdentity s.db.requests
  calls : ∀ c call, s.calls c = some call → call.Sound d

/-! The results of the transactions. -/

theorem transaction_fst_error {α : Type} {body : Table → Except Raised (α × Table)} {e : Raised}
    (hv : db.version = some schemaVersion) (h : (transaction body db).1 = .error e) :
    body db.requests = .error e := by
  cases hb : body db.requests with
  | error e' =>
    rw [transaction_of_error hv hb] at h
    rw [Except.error.inj h]
  | ok p =>
    rw [transaction_of_ok hv hb] at h
    cases h

theorem existingResponse_answered {record : RequestRecord} {e : Escape}
    (h : existingResponse cipher record = .error e) : Answered (.error e) := by
  unfold existingResponse at h
  repeat' split at h
  all_goals first
    | obtain rfl := Except.error.inj h; simp
    | cases h

theorem afterReload_answered (settings : Settings) (record : RequestRecord) :
    Answered (afterReload settings cipher (.ok record)) := by
  unfold afterReload
  cases hx : existingResponse cipher record with
  | error e =>
    simp only [hx]
    exact existingResponse_answered hx
  | ok response =>
    cases response with
    | some response =>
      simp only [hx]
      exact answered_ok response
    | none =>
      simp only [hx]
      split <;> exact answered_failLater _ _ _

theorem afterFinish_answered (record : RequestRecord) : Answered (afterFinish cipher record) := by
  unfold afterFinish
  cases hx : existingResponse cipher record with
  | error e => exact existingResponse_answered hx
  | ok response =>
    cases response with
    | some response => exact answered_ok response
    | none => exact answered_fail _ _ _

theorem afterAdmission_sound (settings : Settings) (record : RequestRecord) :
    (afterAdmission settings cipher (.ok record)).Sound d := by
  unfold afterAdmission
  cases hx : existingResponse cipher record with
  | error e =>
    simp only [hx]
    exact existingResponse_answered hx
  | ok response =>
    cases response with
    | some response =>
      simp only [hx]
      exact answered_ok response
    | none =>
      simp only [hx]
      trivial

theorem ownerStep_sound {α : Type} {attemptId : Str} {next : α → Pc} {r : Except Raised α}
    (hok : ∀ a, r = .ok a → (next a).Sound d) (herror : ∀ e, r = .error e → e.isStoreError = true) :
    (ownerStep attemptId next r).Sound d := by
  cases r with
  | ok a => exact hok a rfl
  | error e =>
    simp only [ownerStep, herror e rfl, if_true]
    trivial

theorem encrypt_ok {row : Row} {nonce : Bytes} {content : Str} (hrow : AsciiIdentity row)
    (hcontent : Scalars content) : ∃ sealed, row.record.encrypt cipher nonce content = .ok sealed := by
  obtain ⟨hid, howner, hdigest⟩ := hrow
  have hascii : ∀ x ∈ row.requestId ++ [10] ++ row.credentialHash ++ [10] ++ row.requestDigest,
      x < 128 := by
    simp only [List.mem_append, List.mem_singleton]
    rintro x ((((h | rfl) | h) | rfl) | h)
    · exact hid x h
    · norm_num
    · exact howner x h
    · norm_num
    · exact hdigest x h
  have haad : row.record.aad = some (row.requestId ++ [10] ++ row.credentialHash ++ [10] ++
      row.requestDigest) := if_pos hascii
  have htext : encodeUtf8 content = .ok (utf8 content) := if_pos hcontent
  simp only [RequestRecord.encrypt, haad, htext]
  exact ⟨_, rfl⟩

section Step

variable (hs : s.Sound d) (hcall : call.Sound d)
include hs

theorem getOwned_storeError {e : Raised} (hle : d ≤ now)
    (h : (call.getOwned s now).1 = .error e) : e.isStoreError = true := by
  obtain ⟨t₁, hclean⟩ := hasCutoff_iff.mp (hs.cutoff.later hle)
  exact getOwned_error hclean (transaction_fst_error hs.version h)

theorem admission_sound (hle : d ≤ now) :
    (afterAdmission s.settings cipher (transaction (admitRequest s.settings.store now call.request
      call.credential.identityHash call.digest) s.db).1).Sound d := by
  cases hr : (transaction (admitRequest s.settings.store now call.request
      call.credential.identityHash call.digest) s.db).1 with
  | error e =>
    obtain ⟨t₁, hclean⟩ := hasCutoff_iff.mp (hs.cutoff.later hle)
    have hrefused := admitRequest_error hclean (transaction_fst_error hs.version hr)
    rcases hrefused with rfl | rfl | rfl | rfl <;> exact answered_failure _
  | ok record => exact afterAdmission_sound _ _

theorem closing_sound {attemptId : Str} {nonce : Bytes} {outcome : Except WorkerRaised WorkerResult}
    (hat : call.pc = .settling attemptId outcome) (hpc : (Pc.settling attemptId outcome).Sound d)
    (hbinds : Binds s call now) (hle : d ≤ now) :
    (call.closing cipher s attemptId now nonce outcome).1.Sound d := by
  have hnone : ∀ {body : Table → Except Raised (Unit × Table)} {t' : Table} {e : Raised},
      body s.db.requests = .ok ((), t') → (transaction body s.db).1 ≠ .error e := by
    intro body t' e hbody he
    cases hbody.symm.trans (transaction_fst_error hs.version he)
  unfold InferCall.closing
  split
  · rename_i result
    refine ownerStep_sound (fun done _ => ?_) fun e he => ?_
    · cases done
      · exact answered_fail _ _ _
      · trivial
    · obtain ⟨t₁, hclean⟩ := hasCutoff_iff.mp (hs.cutoff.later hle)
      have hrows := rows_statements asciiIdentity_same (statements_cleanup hclean) hs.rows
      rcases complete_error hclean (fun row hrow => encrypt_ok (hrows _ row hrow) hpc.content)
        hs.policyVersion (transaction_fst_error hs.version he) with
        hstore | ⟨-, hunbound, row, hrow, hdue, hstate, hattempt⟩
      · exact hstore
      · exact (hunbound ⟨hpc.mediaType, hbinds attemptId result row hat hrow hstate hattempt hdue⟩).elim
  · exact ownerStep_sound (fun _ _ => answered_failLater _ _ _) fun e he => (hnone rfl he).elim
  · exact ownerStep_sound (fun _ _ => answered_fail _ _ _) fun e he => (hnone rfl he).elim
  · exact ownerStep_sound (fun _ _ => answered_failLater _ _ _) fun e he => (hnone rfl he).elim

include hcall

/-- Where the call stands next. -/
theorem callStep_sound {pc' : Pc} (h : CallStep cipher s call c call.pc action pc' db active)
    (hget : s.calls c = some call)
    (hreads : ∀ now, action.now? = some now → call.since ≤ now ∧ now ≤ s.clock)
    (hpromised : (Event.act c action).Promised checkSchema) (hfinds : Finds s (.act c action)) :
    pc'.Sound d := by
  have hlater : ∀ now, action.now? = some now → d ≤ now := fun now hnow =>
    hcall.since.trans (hreads now hnow).1
  have hpc := hcall.pc
  generalize hat : call.pc = pc at h hpc
  cases h with
  | policy now =>
    cases hp : validatePolicy s.settings call.credential call.request now with
    | error e => exact validatePolicy_answered (hfinds call hget) hp
    | ok u => exact hlater now rfl
  | admission now r hr =>
    subst hr
    exact admission_sound hs hpc
  | lane record attemptId =>
    unfold afterLane
    repeat' split
    all_goals first
      | trivial
      | exact answered_failLater _ _ _
      | exact answered_fail _ _ _
  | wake attempt howner hdone => trivial
  | timeout attempt => exact answered_failLater _ _ _
  | reload now r hr =>
    subst hr
    obtain ⟨record, hrecord⟩ := getOwned_answers hs.version (hs.cutoff.later (hlater now rfl))
      (hfinds call hget)
    rw [hrecord]
    exact afterReload_answered _ _
  | late attemptId now r hlate hexpired hr =>
    subst hr
    have hle : d ≤ now := by
      rcases hlate with ⟨rfl, rfl⟩ | ⟨rfl, rfl⟩ <;> exact hlater now rfl
    exact ownerStep_sound (fun _ _ => answered_fail _ _ _) fun e he => getOwned_storeError hs hle he
  | mark attemptId now r hlive hr =>
    subst hr
    refine ownerStep_sound (fun _ _ => trivial) fun e he => ?_
    obtain ⟨t₁, hclean⟩ := hasCutoff_iff.mp (hs.cutoff.later (hlater now rfl))
    exact markInProgress_error hclean (transaction_fst_error hs.version he)
  | dispatch attemptId now hlive => trivial
  | outcome attemptId outcome =>
    cases outcome with
    | error e => trivial
    | ok result =>
      obtain ⟨library, schema, document, hvalid⟩ := hpromised
      exact validatedResult_encodes hvalid
  | close attemptId outcome now nonce r hr =>
    subst hr
    exact closing_sound hs hat hpc (hfinds call hget) (hlater now rfl)
  | finish attemptId now r hr =>
    subst hr
    exact ownerStep_sound (fun record _ => afterFinish_answered record) fun e he =>
      getOwned_storeError hs (hlater now rfl) he
  | recover attemptId now r hr =>
    subst hr
    have hok : markAmbiguous now call.request.requestId attemptId s.db.requests = .ok _ := rfl
    rw [transaction_of_ok hs.version hok]
    exact answered_failLater _ _ _
  | release result => exact hpc

end Step

/-! Runs. -/

theorem sound_opened {settings : Settings} {taskPolicyVersion : ℤ} {clock : Datetime}
    {db db' : Database} (hopens : initializeStore settings.store now db = (.ok (), db'))
    (hle : now ≤ clock) (hversion : 1 ≤ taskPolicyVersion) (hrows : Rows AsciiIdentity db.requests) :
    GatewayService.Sound now ⟨settings, taskPolicyVersion, db', clock, none, fun _ => none⟩ where
  version := (initializeStore_opened hopens).1
  policyVersion := hversion
  cutoff := (initializeStore_opened hopens).2
  clock := hle
  rows := by
    have hstatements := @statements_initializeStore settings.store now (fun _ => False) db
    rw [hopens] at hstatements
    exact rows_statements asciiIdentity_same hstatements hrows
  calls := by simp

theorem sound_started (h : Started s) : ∃ d, s.Sound d := by
  obtain ⟨settings, taskPolicyVersion, now, hversion, hinitial⟩ := h
  unfold GatewayService.initial at hinitial
  split at hinitial
  · rename_i db hopens
    obtain rfl := Option.some.inj hinitial
    refine ⟨now, sound_opened hopens le_rfl hversion fun k row hrow => ?_⟩
    simp [Database.empty] at hrow
  · cases hinitial

theorem sound_stored (hs : s.Sound d) (storeCall : StoreCall)
    (hadmits : storeCall.Admits = fun _ => False)
    (hversion : (storeCall.run s.settings.store cipher s.db).2.version = s.db.version) :
    GatewayService.Sound d { s with db := (storeCall.run s.settings.store cipher s.db).2 } where
  version := hversion.trans hs.version
  policyVersion := hs.policyVersion
  cutoff := hs.cutoff
  clock := hs.clock
  rows := by
    have hstatements := @statements_run s.settings.store cipher storeCall s.db
    rw [hadmits] at hstatements
    exact rows_statements asciiIdentity_same hstatements hs.rows
  calls := hs.calls

theorem sound_act (hs : s.Sound d) (hget : s.calls c = some call)
    (hreads : ∀ now, action.now? = some now → call.since ≤ now ∧ now ≤ s.clock)
    (hstep : CallStep cipher s call c call.pc action pc db active)
    (hpromised : (Event.act c action).Promised checkSchema) (hfinds : Finds s (.act c action)) :
    (s.after c call pc db active).Sound d := by
  have hcall := hs.calls c call hget
  refine ⟨hstep.version.trans hs.version, hs.policyVersion, hs.cutoff, hs.clock, ?_, ?_⟩
  · exact hstep.rows asciiIdentity_same
      (fun _ => ⟨hcall.requestId, hcall.owner, hcall.digest⟩) hs.rows
  · intro c' call' hget'
    simp only [GatewayService.after, Function.update_apply] at hget'
    split_ifs at hget' with hc
    · obtain rfl := Option.some.inj hget'
      exact ⟨hs.clock, hcall.requestId, hcall.owner, hcall.digest,
        callStep_sound hs hcall hstep hget hreads hpromised hfinds⟩
    · exact hs.calls c' call' hget'

/-- One event keeps the state sound while it finds what it needs. -/
theorem sound_step {event : Event} (hsha : ∀ b, Ascii (sha256 b))
    (h : Happens checkSchema cipher sha256 s event t) (hfinds : Finds s event)
    (hs : ∃ d, s.Sound d) : ∃ d, t.Sound d := by
  obtain ⟨d, hs⟩ := hs
  have hpromised := h.promised
  cases serviceStep_of_next h.next with
  | tick hclock =>
    exact ⟨d, hs.version, hs.policyVersion, hs.cutoff, hs.clock.trans hclock, hs.rows, hs.calls⟩
  | arrive hfree hdigest =>
    rename_i c credential request digest
    refine ⟨d, hs.version, hs.policyVersion, hs.cutoff, hs.clock, hs.rows, ?_⟩
    intro c' call' hget'
    simp only [Function.update_apply] at hget'
    split_ifs at hget' with hc
    · obtain rfl := Option.some.inj hget'
      obtain ⟨encoded, -, he⟩ := bind_eq_ok.mp hdigest
      obtain rfl := Except.ok.inj he
      exact ⟨hs.clock, uuidV4_ascii hpromised.1.requestId, hpromised.2, hsha encoded, trivial⟩
    · exact hs.calls c' call' hget'
  | act hget hreads hstep => exact ⟨d, sound_act hs hget hreads hstep hpromised hfinds⟩
  | acknowledge hclock => exact ⟨d, sound_stored hs _ rfl (transaction_version _ _)⟩
  | maintain hclock => exact ⟨d, sound_stored hs _ rfl (transaction_version _ _)⟩
  | restart hclock hopens => exact ⟨_, sound_opened hopens hclock hpromised hs.rows⟩

theorem GatewayService.Sound.answered (h : s.Sound d) : AllAnswered s := by
  intro c call result hget hending
  have hsound := (h.calls c call hget).pc
  generalize call.pc = pc at hsound hending
  cases pc with
  | leaving result' =>
    obtain rfl := Option.some.inj hending
    exact hsound
  | done result' =>
    obtain rfl := Option.some.inj hending
    exact hsound
  | _ => cases hending

/-- A completion that cannot bind the deployment id leaves what nothing catches. -/
theorem closing_raises {attemptId : Str} {nonce : Bytes} {result : WorkerResult}
    (hat : call.pc = .settling attemptId (.ok result)) (h : ¬ Binds s call now) :
    ∃ e, (call.closing cipher s attemptId now nonce (.ok result)).1 =
      .leaving (.error (.raised e)) := by
  unfold Binds at h
  push Not at h
  obtain ⟨a, r, row, hat', hrow, hstate, hattempt, hdue, hunbound⟩ := h
  obtain ⟨rfl, -⟩ : a = attemptId ∧ _ := Pc.settling.inj (hat'.symm.trans hat)
  obtain ⟨e, he, huncaught⟩ : ∃ e, (transaction (complete s.settings.store now cipher nonce
      call.request.requestId a result.mediaType result.content s.settings.deploymentId
      s.taskPolicyVersion) s.db).1 = .error e ∧ e.isStoreError = false := by
    unfold transaction
    split
    · exact ⟨_, rfl, rfl⟩
    · obtain ⟨e, he, huncaught⟩ := @complete_unbound s.settings.store cipher now s.db.requests row
        call.request.requestId a nonce result.mediaType result.content s.settings.deploymentId
        s.taskPolicyVersion hrow hstate hattempt hdue hunbound
      rw [he]
      exact ⟨e, rfl, huncaught⟩
  refine ⟨e, ?_⟩
  simp only [InferCall.closing, he, ownerStep, huncaught]
  rfl

/-- An event that does not find what it needs ends its call in what nothing catches. -/
theorem not_answered_of_not_finds {event : Event} (h : s.next cipher sha256 event = some t)
    (hfinds : ¬ Finds s event) : ¬ AllAnswered t := by
  have hended : ∀ {c : ℕ} {call : InferCall} {pc : Pc} {e : Raised} {db : Database}
      {active : Option ActiveAttempt}, pc.ending? = some (.error (.raised e)) →
      ¬ AllAnswered (s.after c call pc db active) := by
    intro c call pc e db active hending hall
    refine not_answered_raised e (hall c { call with since := s.clock, pc := pc } _ ?_ hending)
    simp [GatewayService.after]
  cases serviceStep_of_next h with
  | act hget hreads hstep =>
    rename_i c action call pc db active
    generalize hpc : call.pc = pc₀ at hstep
    cases hstep with
    | policy now =>
      have hraises : ¬ MaximumExists s.settings call now := by
        refine fun hm => hfinds fun call' hget' => ?_
        obtain rfl := Option.some.inj (hget.symm.trans hget')
        exact hm
      rw [validatePolicy_raises hraises]
      exact hended rfl
    | reload now r hr =>
      have hraises : ¬ StillOwned s call now := by
        refine fun hm => hfinds fun call' hget' => ?_
        obtain rfl := Option.some.inj (hget.symm.trans hget')
        exact hm
      obtain ⟨e, he⟩ := getOwned_raises hraises
      rw [← hr, he]
      exact hended rfl
    | late attemptId now r hat hexpired hr =>
      rcases hat with ⟨rfl, rfl⟩ | ⟨rfl, rfl⟩ <;> exact (hfinds trivial).elim
    | close attemptId outcome now nonce r hr =>
      have hraises : ¬ Binds s call now := by
        refine fun hm => hfinds fun call' hget' => ?_
        obtain rfl := Option.some.inj (hget.symm.trans hget')
        exact hm
      obtain ⟨result, rfl⟩ : ∃ result, outcome = .ok result := by
        unfold Binds at hraises
        push Not at hraises
        obtain ⟨a, result, row, hat, -⟩ := hraises
        exact ⟨result, (Pc.settling.inj (hpc.symm.trans hat)).2⟩
      obtain ⟨e, he⟩ := @closing_raises cipher s call now attemptId nonce result hpc hraises
      rw [← hr, he]
      exact hended rfl
    | _ => exact (hfinds trivial).elim
  | _ => exact (hfinds trivial).elim

/-- In every run from the first start, each call of `infer` that ends returns a completed response or
raises the service's own failure, exactly when every policy whose other checks reach it has a maximum
expiry in the calendar, every reload still finds the row of its request as the caller's, and every
completion that is to be stored has a deployment id that can be encoded. -/
theorem infer_answered (hsha : ∀ b, Ascii (sha256 b)) {s₀ : GatewayService} (hstart : Started s₀)
    {events : List Event} (hrun : Run (Happens checkSchema cipher sha256) s₀ events t) :
    (∀ before event after s, events = before ++ event :: after →
      Run (Happens checkSchema cipher sha256) s₀ before s → Finds s event) ↔
    (∀ before after s, events = before ++ after →
      Run (Happens checkSchema cipher sha256) s₀ before s → AllAnswered s) := by
  constructor
  · intro hfinds before
    have hsound : ∀ after s, events = before ++ after →
        Run (Happens checkSchema cipher sha256) s₀ before s → ∃ d, s.Sound d := by
      induction before using List.reverseRecOn with
      | nil =>
        intro after s _ hrun
        cases hrun with
        | refl => exact sound_started hstart
      | append_singleton before event ih =>
        intro after s hevents hrun
        rw [List.append_assoc, List.singleton_append] at hevents
        obtain ⟨u, hbefore, hlast⟩ := hrun.split
        cases hlast with
        | stepL hstep hrest =>
          cases hrest with
          | refl =>
            exact sound_step hsha hstep (hfinds before event after u hevents hbefore)
              (ih _ u hevents hbefore)
    intro after s hevents hrun
    obtain ⟨d, hs⟩ := hsound after s hevents hrun
    exact hs.answered
  · intro hanswered before event after s hevents hbefore
    by_contra hfinds
    rw [hevents] at hrun
    obtain ⟨u, hbefore', hrest⟩ := hrun.split
    obtain rfl := hbefore.functional (fun s e t t' h h' => Option.some.inj (h.next.symm.trans h'.next))
      hbefore'
    cases hrest with
    | stepL hstep _ =>
      refine not_answered_of_not_finds hstep.next hfinds (hanswered (before ++ [event]) after _ ?_
        (hbefore.snoc hstep))
      rw [hevents, List.append_assoc, List.singleton_append]

/-! A reload that comes after the retention. -/

theorem second_in_range : (1 : ℤ) ≤ 1 ∧ (1 : ℤ) ≤ 31536000 := by norm_num

/-- A quarter of an hour to live, a second to be remembered. -/
def hastySettings : Settings :=
  { shortRetention with tombstoneRetentionSeconds := 1, retention_range := second_in_range }

def sampleWorkerResult : WorkerResult := ⟨str "application/json", str "\x7b\x7d"⟩

/-- Two calls of one request at 18:00; the second waits for the first, which completes and is
acknowledged, and wakes three seconds later, after maintenance. -/
def overtakenEvents : List Event :=
  let six := sampleMoment 18 0 0 0
  let later := sampleMoment 18 0 3 0
  [.arrive 0 sampleCredential (sampleRequest false), .arrive 1 sampleCredential (sampleRequest false),
    .act 0 (.policy six), .act 0 .admission, .act 1 (.policy six), .act 1 .admission,
    .act 0 (.lane (str "a0")), .act 1 (.lane (str "a1")), .act 0 (.mark six), .act 0 (.dispatch six),
    .act 0 (.outcome (.ok sampleWorkerResult)), .act 0 (.close six [0]), .act 0 (.finish six),
    .act 0 .release,
    .acknowledge sampleCredential (sampleRequest false).requestId (str "accepted") six,
    .tick later, .maintain later, .act 1 .wake, .act 1 (.reload later)]

def overtakenRun : Option GatewayService :=
  (GatewayService.initial hastySettings 2 (sampleMoment 18 0 0 0)).bind
    (fun s => s.play plainCipher sampleSha256 (fun _ _ => true) overtakenEvents)

theorem overtakenEvents_promised : ∀ e ∈ overtakenEvents, e.Promised (fun _ => true) := by
  have hasciiId : Ascii sampleCredential.identityHash := by decide
  have hresult : ∃ library schema document,
      validatedResult library schema document = .ok sampleWorkerResult :=
    ⟨⟨100, fun _ _ => true⟩, [], completionDocument (str "\x7b\x7d"), by decide +kernel⟩
  simp only [overtakenEvents, List.forall_mem_cons]
  simp only [Event.Promised, sampleRequest_accepted, hasciiId, hresult, List.not_mem_nil,
    false_implies, implies_true, and_self]

theorem overtakenRun_result : ((overtakenRun.bind (fun s => s.calls 1)).bind InferCall.result?) =
    some (.error (.raised .requestUnknown)) := by
  decide +kernel

/-- The run: the state it starts in, the state it ends in, and the call that has raised. -/
theorem overtaken : ∃ s₀ s call, Started s₀ ∧
    Run (Happens (fun _ => true) plainCipher sampleSha256) s₀ overtakenEvents s ∧
    s.calls 1 = some call ∧ call.pc = .done (.error (.raised .requestUnknown)) := by
  obtain ⟨call, hcall, hresult⟩ := Option.bind_eq_some_iff.mp overtakenRun_result
  obtain ⟨s, hrun, hget⟩ := Option.bind_eq_some_iff.mp hcall
  obtain ⟨s₀, hinitial, hplay⟩ := Option.bind_eq_some_iff.mp hrun
  exact ⟨s₀, s, call, ⟨hastySettings, 2, sampleMoment 18 0 0 0, by norm_num, hinitial⟩,
    run_of_play (fun _ _ _ he hnext _ => ⟨hnext, overtakenEvents_promised _ he⟩) hplay, hget, InferCall.result?_eq_some.mp hresult⟩

/-- The second call ends in `RequestUnknown`. -/
theorem infer_raises : ¬ ∀ (checkSchema : Json → Bool) (cipher : Cipher) (sha256 : Bytes → Str)
    (s₀ s : GatewayService) (events : List Event), (∀ b, Ascii (sha256 b)) → Started s₀ →
    Run (Happens checkSchema cipher sha256) s₀ events s → AllAnswered s := by
  intro hall
  obtain ⟨s₀, s, call, hstart, hrun, hget, hpc⟩ := overtaken
  exact not_answered_raised _ (hall _ _ _ _ _ _ sampleSha256_ascii hstart hrun 1 call _ hget
    (congrArg Pc.ending? hpc))

/-- Somewhere on that run a reload does not find its row. -/
theorem infer_answered_overtaken : ∃ s₀, ∃ before event after s,
    overtakenEvents = before ++ event :: after ∧
      Run (Happens (fun _ => true) plainCipher sampleSha256) s₀ before s ∧ ¬ Finds s event := by
  obtain ⟨s₀, s, call, hstart, hrun, hget, hpc⟩ := overtaken
  refine ⟨s₀, ?_⟩
  by_contra hfinds
  push Not at hfinds
  have hanswered := (infer_answered sampleSha256_ascii hstart hrun).mp fun before event after u he hu =>
    hfinds before event after u he hu
  exact not_answered_raised _ (hanswered overtakenEvents [] s (List.append_nil _).symm hrun 1 call _
    hget (congrArg Pc.ending? hpc))

end Gateway
