import Gateway.Service.Progress

/-! What a call of `infer` fails with, and what its failure says about the row of its request. -/
namespace Gateway

open Template (Ascii)
open Transition (Run Reachable)

variable {cipher : Cipher} {sha256 : Bytes → Str} {checkSchema : Json → Bool} {s t : GatewayService}
variable {call call' : InferCall} {c c' : ℕ} {pc pc' : Pc} {action : Action} {db : Database}
variable {active : Option ActiveAttempt} {e : Event} {now d : Datetime} {k attemptId : Str}
variable {row row' : Row} {record : RequestRecord} {f : GatewayFailure} {settings : Settings}
variable {result : Except Escape Response}

/-- The failures of `infer`, with what a client is told to do about each. -/
def inferFailures (settings : Settings) : List GatewayFailure :=
  [⟨str "forbidden", false, 403, none⟩, ⟨str "unsupported_task", false, 422, none⟩,
    ⟨str "invalid_request", false, 422, none⟩, ⟨str "invalid_request", false, 409, none⟩,
    ⟨str "request_expired", false, 409, none⟩, ⟨str "unknown_request", false, 410, none⟩,
    ⟨str "invalid_worker_output", false, 500, none⟩, ⟨str "invalid_worker_output", false, 502, none⟩,
    ⟨str "capacity_limited", true, 429, some settings.retryAfterSeconds⟩,
    ⟨str "worker_unavailable", true, 503, some settings.retryAfterSeconds⟩,
    ⟨str "inference_timeout", true, 504, some settings.retryAfterSeconds⟩]

/-- A response, one of the failures, or one of the three that nothing catches. -/
def Classified (settings : Settings) : Except Escape Response → Prop
  | .ok _ => True
  | .error (.failure f) => f ∈ inferFailures settings
  | .error (.raised e) =>
    e = .overflowError ∨ e = .unicodeError ∧ ¬ Scalars settings.deploymentId ∨ e.isStoreError = true

/-- Only an invalid output is recorded as a failure. -/
def RecordsInvalidOutput (row : Row) : Prop :=
  row.state = .failed → row.errorCode = some (str "invalid_worker_output") ∧
    row.errorRetryable = some false ∧ row.errorRetryAfterSeconds = none

/-! The rows that have failed. -/

/-- A failure is recorded by the call that has settled an invalid output. -/
theorem markFailed_storeCall {storeSettings : StoreSettings} {code : Str} {retryable : Bool}
    {retryAfterSeconds : Option ℤ} (h : s.storeCall e =
      some (storeSettings, .markFailed k attemptId code retryable retryAfterSeconds now)) :
    code = str "invalid_worker_output" ∧ retryable = false ∧ retryAfterSeconds = none := by
  obtain ⟨c, action, call, rfl, -, -, ⟨-, now', hne⟩ | ⟨outcome, now', nonce, -, -, hclosing⟩ |
    ⟨-, now', hne⟩⟩ := attempt_storeCall h rfl
  · cases hne
  · rcases outcome with (_ | _ | _ | _ | _ | _) | _ <;>
      simp only [InferCall.closingCall, reduceCtorEq, StoreCall.markFailed.injEq] at hclosing
    exact ⟨hclosing.2.2.1, hclosing.2.2.2.1, hclosing.2.2.2.2.1⟩
  · cases hne

theorem invalidOutput_event (h : ServiceStep cipher sha256 s e t)
    (hs : Rows RecordsInvalidOutput s.db.requests) : Rows RecordsInvalidOutput t.db.requests := by
  intro k row hrow hstate
  rcases h.keyMove k with ⟨-, hsame⟩ | ⟨storeSettings, storeCall, hcall, hkey⟩
  · exact hs k row (hsame ▸ hrow) hstate
  · rw [hrow] at hkey
    generalize ho : s.db.requests.select k = o at hkey
    cases hkey with
    | moved hmove =>
      cases hmove with
      | same => exact hs k row ho hstate
      | fail hbefore hattempt =>
        obtain ⟨rfl, rfl, rfl⟩ := markFailed_storeCall hcall
        exact ⟨rfl, rfl, rfl⟩
      | _ => cases hstate
    | inserted => cases hstate

/-! Each result. -/

@[simp] theorem classified_ok (response : Response) : Classified settings (.ok response) := trivial

theorem validatePolicy_classified {credential : Credential} {request : InferenceRequest} {e : Escape}
    (h : validatePolicy settings credential request now = .error e) :
    Classified settings (.error e) := by
  unfold validatePolicy at h
  repeat' split at h
  all_goals first
    | obtain rfl := Except.error.inj h
      simp [Classified, inferFailures]
    | cases h

theorem admitFailure_classified {e : Raised} (h : e = .requestForbidden ∨
      e = .requestIdentityConflict ∨ e = .requestExpired ∨ e = .requestCapacityLimited) :
    Classified settings (.error (admitFailure settings e)) := by
  rcases h with rfl | rfl | rfl | rfl <;> simp [admitFailure, Classified, inferFailures]

theorem existingResponse_classified {e : Escape} (hrow : RecordsInvalidOutput row)
    (h : existingResponse cipher row.record = .error e) : Classified settings (.error e) := by
  unfold existingResponse at h
  split at h
  · repeat' split at h
    all_goals first
      | obtain rfl := Except.error.inj h
        simp [Classified, inferFailures]
      | cases h
  · rename_i hstate
    obtain ⟨hcode, hretryable, hafter⟩ := hrow hstate
    have hcode' : row.record.errorCode = some (str "invalid_worker_output") := hcode
    have hretryable' : row.record.errorRetryable = some false := hretryable
    have hafter' : row.record.errorRetryAfterSeconds = none := hafter
    have hne : str "invalid_worker_output" ≠ [] := by decide
    obtain rfl := Except.error.inj h
    simp [Classified, inferFailures, hcode', hretryable', hafter', hne]
  · obtain rfl := Except.error.inj h
    simp [Classified, inferFailures]
  · obtain rfl := Except.error.inj h
    simp [Classified, inferFailures]
  · cases h

/-- The ending of a place, if it has one, is classified. -/
def Pc.Classified (settings : Settings) (pc : Pc) : Prop :=
  ∀ result, pc.ending? = some result → Gateway.Classified settings result

theorem ownerStep_classified {α : Type} {next : α → Pc} {r : Except Raised α}
    (hok : ∀ a, r = .ok a → (next a).Classified settings)
    (herror : ∀ e, r = .error e →
      e.isStoreError = true ∨ e = .unicodeError ∧ ¬ Scalars settings.deploymentId) :
    (ownerStep attemptId next r).Classified settings := by
  cases r with
  | ok a => exact hok a rfl
  | error e =>
    rcases herror e rfl with hstore | ⟨rfl, hunbound⟩
    · simp [ownerStep, hstore, Pc.Classified, Pc.ending?]
    · rintro _ ⟨⟩
      exact .inr (.inl ⟨rfl, hunbound⟩)

theorem leaving_classified (h : Gateway.Classified settings result) :
    (Pc.leaving result).Classified settings := by
  rintro _ ⟨⟩
  exact h

theorem done_classified (h : Gateway.Classified settings result) :
    (Pc.done result).Classified settings := by
  rintro _ ⟨⟩
  exact h

theorem not_ending_classified (h : pc.ending? = none) : pc.Classified settings := by
  intro result hresult
  rw [h] at hresult
  cases hresult

theorem fail_classified {code : String} {statusCode : ℕ}
    (h : ⟨str code, false, statusCode, none⟩ ∈ inferFailures settings) :
    Gateway.Classified settings (fail code false statusCode) := h

theorem failLater_classified {code : String} {statusCode : ℕ}
    (h : ⟨str code, true, statusCode, some settings.retryAfterSeconds⟩ ∈ inferFailures settings) :
    Gateway.Classified settings (failLater settings code statusCode) := h

theorem afterReload_classified (hrow : RecordsInvalidOutput row) :
    Gateway.Classified settings (afterReload settings cipher (.ok row.record)) := by
  unfold afterReload
  cases hx : existingResponse cipher row.record with
  | error e =>
    simp only [hx]
    exact existingResponse_classified hrow hx
  | ok response =>
    cases response with
    | some response =>
      simp only [hx]
      trivial
    | none =>
      simp only [hx]
      split <;> exact failLater_classified (by simp [inferFailures])

theorem afterFinish_classified (hrow : RecordsInvalidOutput row) :
    Gateway.Classified settings (afterFinish cipher row.record) := by
  unfold afterFinish
  cases hx : existingResponse cipher row.record with
  | error e => exact existingResponse_classified hrow hx
  | ok response =>
    cases response with
    | some response => trivial
    | none => exact fail_classified (by simp [inferFailures])

theorem afterAdmission_classified (hrow : RecordsInvalidOutput row) :
    (afterAdmission settings cipher (.ok row.record)).Classified settings := by
  unfold afterAdmission
  cases hx : existingResponse cipher row.record with
  | error e =>
    simp only [hx]
    exact done_classified (existingResponse_classified hrow hx)
  | ok response =>
    cases response with
    | some response =>
      simp only [hx]
      exact done_classified trivial
    | none =>
      simp only [hx]
      exact not_ending_classified rfl

/-! One step of a call. -/

section Step

variable (hs : s.Intact checkSchema sha256)
include hs

theorem closing_classified {nonce : Bytes} {outcome : Except WorkerRaised WorkerResult}
    (hopened : s.Opened d) (hle : d ≤ now)
    (hencodes : ∀ result, outcome = .ok result → result.Encodes) :
    (call.closing cipher s attemptId now nonce outcome).1.Classified s.settings := by
  have hnone : ∀ {body : Table → Except Raised (Unit × Table)} {t' : Table} {e : Raised},
      body s.db.requests = .ok ((), t') → (transaction body s.db).1 ≠ .error e := by
    intro body t' e hbody he
    cases hbody.symm.trans (transaction_fst_error hopened.version he)
  unfold InferCall.closing
  split
  · rename_i result
    refine ownerStep_classified (fun done _ => ?_) fun e he =>
      hs.complete_raises hopened hle (hencodes result rfl) he
    cases done
    · exact leaving_classified (fail_classified (by simp [inferFailures]))
    · exact not_ending_classified rfl
  · exact ownerStep_classified (fun _ _ => leaving_classified
      (failLater_classified (by simp [inferFailures]))) fun e he => (hnone rfl he).elim
  · exact ownerStep_classified (fun _ _ => leaving_classified
      (fail_classified (by simp [inferFailures]))) fun e he => (hnone rfl he).elim
  · exact ownerStep_classified (fun _ _ => leaving_classified
      (failLater_classified (by simp [inferFailures]))) fun e he => (hnone rfl he).elim

theorem callStep_classified (hget : s.calls c = some call)
    (hreads : ∀ now, action.now? = some now → call.since ≤ now ∧ now ≤ s.clock)
    (hstep : CallStep cipher s call c call.pc action pc db active)
    (hrows : Rows RecordsInvalidOutput db.requests) (hpc : call.pc.Classified s.settings) :
    pc.Classified s.settings := by
  obtain ⟨d, hopened⟩ := hs.opened
  have hcall := hs.calls c call hget
  have hlater : ∀ now, action.now? = some now → d ≤ now := fun now hnow =>
    (hopened.since c call hget).1.trans (hreads now hnow).1
  generalize hat : call.pc = pc₀ at hstep hpc
  cases hstep with
  | policy now =>
    cases hp : validatePolicy s.settings call.credential call.request now with
    | error e => exact done_classified (validatePolicy_classified hp)
    | ok u => exact not_ending_classified rfl
  | admission now r hr =>
    obtain ⟨result, db⟩ := r
    cases result with
    | error e =>
      obtain ⟨t₁, hclean⟩ := hasCutoff_iff.mp (hopened.cutoff.later (hopened.policed c call now hget hat))
      exact done_classified (admitFailure_classified (admitRequest_error hclean
        (transaction_fst_error hopened.version (congrArg Prod.fst hr))))
    | ok record =>
      obtain ⟨row, hrow, -, rfl⟩ := admission_row hr
      exact afterAdmission_classified (hrows _ row hrow)
  | lane record attemptId =>
    unfold afterLane
    repeat' split
    all_goals first
      | exact not_ending_classified rfl
      | exact done_classified (failLater_classified (by simp [inferFailures]))
      | exact done_classified (fail_classified (by simp [inferFailures]))
  | wake attempt howner hdone => exact not_ending_classified rfl
  | timeout attempt => exact done_classified (failLater_classified (by simp [inferFailures]))
  | reload now r hr =>
    subst hr
    cases hread : (call.getOwned s now).1 with
    | error e =>
      exact done_classified (.inr (.inr (hopened.getOwned_storeError (hlater now rfl) hread)))
    | ok record =>
      obtain ⟨row, hrow, -, rfl⟩ := getOwned_row hread
      exact done_classified (afterReload_classified (hrows _ row hrow))
  | late attemptId now r hat' hexpired hr =>
    subst hr
    have hle : d ≤ now := by
      rcases hat' with ⟨rfl, rfl⟩ | ⟨rfl, rfl⟩ <;> exact hlater now rfl
    exact ownerStep_classified (fun _ _ => leaving_classified (fail_classified
      (by simp [inferFailures]))) fun e he => .inl (hopened.getOwned_storeError hle he)
  | mark attemptId now r hlive hr =>
    subst hr
    refine ownerStep_classified (fun _ _ => not_ending_classified rfl) fun e he => ?_
    obtain ⟨t₁, hclean⟩ := hasCutoff_iff.mp (hopened.cutoff.later (hlater now rfl))
    exact .inl (markInProgress_error hclean (transaction_fst_error hopened.version he))
  | dispatch attemptId now hlive => exact not_ending_classified rfl
  | outcome attemptId outcome => exact not_ending_classified rfl
  | close attemptId outcome now nonce r hr =>
    subst hr
    refine closing_classified hs hopened (hlater now rfl) ?_
    rintro result rfl
    exact hcall.content attemptId result hat
  | finish attemptId now r hr =>
    subst hr
    refine ownerStep_classified (fun record hread => ?_) fun e he =>
      .inl (hopened.getOwned_storeError (hlater now rfl) he)
    obtain ⟨row, hrow, -, rfl⟩ := getOwned_row hread
    exact leaving_classified (afterFinish_classified (hrows _ row hrow))
  | recover attemptId now r hr =>
    subst hr
    have hok : markAmbiguous now call.request.requestId attemptId s.db.requests = .ok _ := rfl
    rw [transaction_of_ok hopened.version hok]
    exact leaving_classified (failLater_classified (by simp [inferFailures]))
  | release result =>
    rintro _ ⟨⟩
    exact hpc result rfl

end Step

/-! Every state. -/

/-- What holds of the rows and of the endings of calls. -/
structure GatewayService.Classifies (s : GatewayService) : Prop where
  rows : Rows RecordsInvalidOutput s.db.requests
  calls : ∀ c call, s.calls c = some call → call.pc.Classified s.settings

theorem classifies_step (hs : s.Intact checkSchema sha256) (h : ServiceStep cipher sha256 s e t)
    (hc : s.Classifies) : t.Classifies := by
  have hrows := invalidOutput_event h hc.rows
  refine ⟨hrows, fun c call hget => ?_⟩
  cases h with
  | arrive hfree hdigest =>
    simp only [Function.update_apply] at hget
    split_ifs at hget
    · obtain rfl := Option.some.inj hget
      exact not_ending_classified rfl
    · exact hc.calls c call hget
  | act hget' hreads hstep =>
    rcases after_calls hget with ⟨rfl, rfl⟩ | ⟨-, hget⟩
    · have hnext := callStep_classified hs hget' hreads hstep hrows (hc.calls _ _ hget')
      exact hnext
    · exact hc.calls c call hget
  | restart hclock hopens => cases hget
  | _ => exact hc.calls c call hget

theorem classifies_reachable (hascii : ∀ b, Ascii (sha256 b))
    (h : Reachable Started (Happens checkSchema cipher sha256) s) :
    s.Intact checkSchema sha256 ∧ s.Classifies := by
  refine Transition.reachable_invariant (P := fun s => s.Intact checkSchema sha256 ∧ s.Classifies)
    ?_ ?_ h
  · intro s hstart
    obtain ⟨-, hcalls, hrows⟩ := started_empty hstart
    refine ⟨intact_started hstart, fun k row hrow => ?_, fun c call hget => ?_⟩
    · simp [hrows] at hrow
    · simp [hcalls] at hget
  · rintro s e t hstep ⟨hs, hc⟩
    exact ⟨intact_step hascii hstep hs, classifies_step hs (serviceStep_of_next hstep.next) hc⟩

/-- A failure can be retried exactly when it says when, and every call that has ended has ended in a
response, in a failure of the table, or in one of the two exceptions that nothing catches. -/
theorem infer_classified (hascii : ∀ b, Ascii (sha256 b))
    (h : Reachable Started (Happens checkSchema cipher sha256) s) (hget : s.calls c = some call)
    (hpc : call.pc = .done result) :
    Classified s.settings result ∧
      ∀ f, result = .error (.failure f) → f.retryable = f.retryAfterSeconds.isSome := by
  have hclassified := (classifies_reachable hascii h).2.calls c call hget result (by rw [hpc]; rfl)
  refine ⟨hclassified, ?_⟩
  rintro f rfl
  have hmem : f ∈ inferFailures s.settings := hclassified
  simp only [inferFailures, List.mem_cons, List.not_mem_nil, or_false] at hmem
  rcases hmem with rfl | rfl | rfl | rfl | rfl | rfl | rfl | rfl | rfl | rfl | rfl <;> rfl

/-- The call whose row was gone when it woke ended in the second of the two. -/
theorem infer_classified_overtaken : ∃ (s : GatewayService) (call : InferCall), s.calls 1 = some call ∧
    call.pc = .done (.error (.raised .requestUnknown)) ∧
    Classified s.settings (.error (.raised .requestUnknown)) := by
  obtain ⟨s₀, s, call, hstart, hrun, hget, hpc⟩ := overtaken
  exact ⟨s, call, hget, hpc, (infer_classified sampleSha256_ascii ⟨s₀, _, hstart, hrun⟩ hget hpc).1⟩

/-! The row of an attempt. -/

/-- A row that is not closed is the attempt's own, or has been admitted anew. -/
def RowOfAttempt (attemptId : Str) (row : Row) : Prop :=
  row.isClosed = true ∨ row.state = .reserved ∨
    row.state = .inProgress ∧ row.attemptId = some attemptId

def AttemptsOwn (s : GatewayService) : Prop :=
  ∀ c call attemptId row, s.calls c = some call → call.pc.Attempting attemptId →
    s.db.requests.select call.request.requestId = some row → RowOfAttempt attemptId row

/-- The call that takes a step is not as it was. -/
theorem acted_changes (h : ServiceStep cipher sha256 s (.act c action) t)
    (hget : s.calls c = some call) : t.calls c ≠ some call := by
  intro hsame
  cases h with
  | act hget' hreads hstep =>
    rename_i call' pc db active
    obtain rfl := Option.some.inj (hget.symm.trans hget')
    rw [after_self] at hsame
    have hpc : pc = call.pc := congrArg InferCall.pc (Option.some.inj hsame)
    have hrank := hstep.rank
    rw [hpc] at hrank
    exact lt_irrefl _ hrank

theorem attemptsOwn_step (hs : s.Intact checkSchema sha256) (h : ServiceStep cipher sha256 s e t)
    (hown : AttemptsOwn s) : AttemptsOwn t := by
  intro c call attemptId row hget hpc hrow
  rcases h.calls hget with hsame | harrived | ⟨call₀, action, hsteps⟩
  · -- another call, or none, has made the event
    have hother : ∀ settings storeCall a, s.storeCall e = some (settings, storeCall) →
        storeCall.attempt? ≠ some (call.request.requestId, a) := by
      intro settings storeCall a hcall hattempt
      obtain ⟨c', action, call', rfl, hget', -, hat⟩ := attempt_storeCall hcall hattempt
      have hholds : call'.pc.Holds := by
        rcases hat with ⟨he, -⟩ | ⟨outcome, now, nonce, -, he, -⟩ | ⟨he, -⟩ <;> rw [he] <;> trivial
      obtain rfl := hs.lane.unique hget' hholds hsame hpc.holds
      exact acted_changes h hsame hget
    rcases h.keyMove call.request.requestId with ⟨-, hdb⟩ | ⟨settings, storeCall, hcall, hkey⟩
    · exact hown c call attemptId row hsame hpc (hdb ▸ hrow)
    · rw [hrow] at hkey
      generalize ho : s.db.requests.select call.request.requestId = o at hkey
      cases hkey with
      | inserted => exact .inr (.inl rfl)
      | moved hmove =>
        have hbefore := hown c call attemptId _ hsame hpc ho
        cases hmove with
        | same => exact hbefore
        | expire hcleans hopen hdue => exact .inl rfl
        | recover hstate =>
          have hnone := restart_calls h hcall c
          rw [hget] at hnone
          cases hnone
        | acknowledge hstate =>
          rcases hbefore with hclosed | hreserved | ⟨hprogress, -⟩
          · simp [Row.isClosed, hstate] at hclosed
          · cases hstate.symm.trans hreserved
          · cases hstate.symm.trans hprogress
        | _ => exact (hother _ _ _ hcall rfl).elim
  · rw [harrived] at hpc
    rcases hpc with hpc | hpc | ⟨outcome, hpc⟩ <;> cases hpc
  · have hrequest := hsteps.request
    rcases hsteps.step.attempting hpc with ⟨-, -, now, record, hmark⟩ | ⟨hpc₀, -, hdb, -⟩ |
      ⟨hpc₀, hdb, -⟩
    · obtain ⟨row₀, -, -, hmarked⟩ := marked_row hmark
      rw [hrequest] at hmarked
      obtain rfl := Option.some.inj (hmarked.symm.trans hrow)
      exact .inr (.inr ⟨rfl, rfl⟩)
    · rw [hdb, ← hrequest] at hrow
      exact hown c call₀ attemptId row hsteps.before (.inl hpc₀) hrow
    · rw [hdb, ← hrequest] at hrow
      exact hown c call₀ attemptId row hsteps.before (.inr (.inl hpc₀)) hrow

/-! What a failure says. -/

/-- An acknowledged request is unknown, an invalid output is recorded, and a request for which the
worker was unavailable can be dispatched again; all this unless its row is closed or admitted anew. -/
structure Explains (f : GatewayFailure) (row : Row) : Prop where
  unknown : f.statusCode = 410 → row.state = .acknowledged
  invalid : f.statusCode = 502 → row.isClosed = true ∨ row.state = .reserved ∨ row.state = .failed
  unavailable : f.statusCode = 503 → row.isClosed = true ∨ row.state = .reserved

theorem explains_other (h : f.statusCode ∉ [410, 502, 503]) : Explains f row := by
  simp only [List.mem_cons, List.not_mem_nil, or_false, not_or] at h
  exact ⟨fun he => (h.1 he).elim, fun he => (h.2.1 he).elim, fun he => (h.2.2 he).elim⟩

theorem explains_existing (h : existingResponse cipher row.record = .error (.failure f)) :
    Explains f row := by
  unfold existingResponse at h
  split at h
  · repeat' split at h
    all_goals first
      | obtain rfl := Escape.failure.inj (Except.error.inj h)
        exact explains_other (by simp)
      | cases h
  · rename_i hstate
    obtain rfl := Escape.failure.inj (Except.error.inj h)
    exact ⟨fun he => by simp at he, fun _ => .inr (.inr hstate), fun he => by simp at he⟩
  · obtain rfl := Escape.failure.inj (Except.error.inj h)
    exact explains_other (by simp)
  · rename_i hstate
    obtain rfl := Escape.failure.inj (Except.error.inj h)
    exact ⟨fun _ => hstate, fun he => by simp at he, fun he => by simp at he⟩
  · cases h

theorem explains_reload (h : afterReload settings cipher (.ok row.record) = .error (.failure f)) :
    Explains f row := by
  unfold afterReload at h
  cases hx : existingResponse cipher row.record with
  | error e =>
    simp only [hx] at h
    obtain rfl := Except.error.inj h
    exact explains_existing hx
  | ok response =>
    cases response with
    | some response =>
      simp only [hx] at h
      cases h
    | none =>
      simp only [hx] at h
      split at h
      · rename_i hstate
        obtain rfl := Escape.failure.inj (Except.error.inj h)
        exact ⟨fun he => by simp at he, fun he => by simp at he, fun _ => .inr hstate⟩
      · obtain rfl := Escape.failure.inj (Except.error.inj h)
        exact explains_other (by simp)

theorem explains_finish (h : afterFinish cipher row.record = .error (.failure f)) :
    Explains f row := by
  unfold afterFinish at h
  cases hx : existingResponse cipher row.record with
  | error e =>
    simp only [hx] at h
    obtain rfl := Except.error.inj h
    exact explains_existing hx
  | ok response =>
    cases response with
    | some response =>
      simp only [hx] at h
      cases h
    | none =>
      simp only [hx] at h
      obtain rfl := Escape.failure.inj (Except.error.inj h)
      exact explains_other (by simp)

theorem validatePolicy_explains {credential : Credential} {request : InferenceRequest}
    (h : validatePolicy settings credential request now = .error (.failure f)) : Explains f row := by
  unfold validatePolicy at h
  repeat' split at h
  all_goals first
    | obtain rfl := Escape.failure.inj (Except.error.inj h)
      exact explains_other (by simp)
    | cases h

theorem admitFailure_explains {e : Raised} (h : admitFailure settings e = .failure f) :
    Explains f row := by
  cases e <;> first
    | obtain rfl := Escape.failure.inj h
      exact explains_other (by simp)
    | cases h

/-- A statement on the attempt of a row leaves it closed, reserved, or as the statement makes it. -/
theorem updateAttempt_row {t : Table} {f : Row → Row} (hf : ∀ row, (f row).requestId = row.requestId)
    (hown : ∀ row, t.select k = some row → RowOfAttempt attemptId row)
    (hrow : (updateAttempt k attemptId f hf t).select k = some row) :
    row.isClosed = true ∨ row.state = .reserved ∨ ∃ row₀, row = f row₀ := by
  rw [select_updateAttempt, if_pos rfl] at hrow
  obtain ⟨row₀, hrow₀, rfl⟩ := Option.map_eq_some_iff.mp hrow
  split_ifs with hmatch
  · exact .inr (.inr ⟨row₀, rfl⟩)
  · rcases hown row₀ hrow₀ with hclosed | hreserved | hprogress
    · exact .inl hclosed
    · exact .inr (.inl hreserved)
    · exact (hmatch hprogress).elim

theorem ending_ownerStep {α : Type} {next : α → Pc} {r : Except Raised α}
    (h : (ownerStep attemptId next r).ending? = some (.error (.failure f))) :
    ∃ a, r = .ok a ∧ (next a).ending? = some (.error (.failure f)) := by
  unfold ownerStep at h
  split at h
  · exact ⟨_, rfl, h⟩
  · split_ifs at h <;> simp [Pc.ending?] at h

theorem explains_closing {nonce : Bytes} {outcome : Except WorkerRaised WorkerResult}
    (hversion : s.db.version = some schemaVersion)
    (hown : ∀ row, s.db.requests.select call.request.requestId = some row →
      RowOfAttempt attemptId row)
    (hf : (call.closing cipher s attemptId now nonce outcome).1.ending? = some (.error (.failure f)))
    (hrow : (call.closing cipher s attemptId now nonce outcome).2.requests.select
      call.request.requestId = some row) : Explains f row := by
  unfold InferCall.closing at hf hrow
  split at hf
  · obtain ⟨done, -, hleaves⟩ := ending_ownerStep hf
    cases done
    · obtain rfl := Escape.failure.inj (Except.error.inj (Option.some.inj hleaves))
      exact explains_other (by simp)
    · cases hleaves
  · obtain ⟨u, -, hleaves⟩ := ending_ownerStep hf
    obtain rfl := Escape.failure.inj (Except.error.inj (Option.some.inj hleaves))
    have hreset : resetReserved now call.request.requestId attemptId s.db.requests = .ok _ := rfl
    simp only [transaction_of_ok hversion hreset] at hrow
    refine ⟨fun he => by simp at he, fun he => by simp at he, fun _ => ?_⟩
    rcases updateAttempt_row _ hown hrow with hclosed | hreserved | ⟨row₀, rfl⟩
    · exact .inl hclosed
    · exact .inr hreserved
    · exact .inr rfl
  · obtain ⟨u, -, hleaves⟩ := ending_ownerStep hf
    obtain rfl := Escape.failure.inj (Except.error.inj (Option.some.inj hleaves))
    have hfailed : markFailed now call.request.requestId attemptId (str "invalid_worker_output") false
        none s.db.requests = .ok _ := rfl
    simp only [transaction_of_ok hversion hfailed] at hrow
    refine ⟨fun he => by simp at he, fun _ => ?_, fun he => by simp at he⟩
    rcases updateAttempt_row _ hown hrow with hclosed | hreserved | ⟨row₀, rfl⟩
    · exact .inl hclosed
    · exact .inr (.inl hreserved)
    · exact .inr (.inr rfl)
  · obtain ⟨u, -, hleaves⟩ := ending_ownerStep hf
    obtain rfl := Escape.failure.inj (Except.error.inj (Option.some.inj hleaves))
    exact explains_other (by simp)

/-- The step in which a call comes to fail. -/
theorem CallStep.explains (hversion : s.db.version = some schemaVersion)
    (h : CallStep cipher s call c pc action pc' db active)
    (hown : ∀ attemptId row, pc.Attempting attemptId →
      s.db.requests.select call.request.requestId = some row → RowOfAttempt attemptId row)
    (hf : pc'.ending? = some (.error (.failure f))) (hrow : db.requests.select
      call.request.requestId = some row) :
    pc.ending? = some (.error (.failure f)) ∨ Explains f row := by
  cases h with
  | policy now =>
    cases hp : validatePolicy s.settings call.credential call.request now with
    | error e =>
      rw [hp] at hf
      obtain rfl := Except.error.inj (Option.some.inj hf)
      exact .inr (validatePolicy_explains hp)
    | ok u =>
      rw [hp] at hf
      cases hf
  | admission now r hr =>
    obtain ⟨result, db⟩ := r
    cases result with
    | error e => exact .inr (admitFailure_explains (Except.error.inj (Option.some.inj hf)))
    | ok record =>
      obtain ⟨row', hrow', -, rfl⟩ := admission_row hr
      obtain rfl := Option.some.inj (hrow.symm.trans hrow')
      simp only [afterAdmission] at hf
      cases hx : existingResponse cipher row.record with
      | error e =>
        simp only [hx] at hf
        obtain rfl := Except.error.inj (Option.some.inj hf)
        exact .inr (explains_existing hx)
      | ok response => cases response <;> simp [hx, Pc.ending?] at hf
  | lane record attemptId =>
    unfold afterLane at hf
    repeat' split at hf
    all_goals first
      | obtain rfl := Escape.failure.inj (Except.error.inj (Option.some.inj hf))
        exact .inr (explains_other (by simp))
      | cases hf
  | wake attempt howner hdone => cases hf
  | timeout attempt =>
    obtain rfl := Escape.failure.inj (Except.error.inj (Option.some.inj hf))
    exact .inr (explains_other (by simp))
  | reload now r hr =>
    subst hr
    cases hread : (call.getOwned s now).1 with
    | error e =>
      rw [hread] at hf
      cases hf
    | ok record =>
      obtain ⟨row', hrow', -, rfl⟩ := getOwned_row hread
      obtain rfl := Option.some.inj (hrow.symm.trans hrow')
      rw [hread] at hf
      exact .inr (explains_reload (Option.some.inj hf))
  | late attemptId now r hat hexpired hr =>
    obtain ⟨record, -, hleaves⟩ := ending_ownerStep hf
    obtain rfl := Escape.failure.inj (Except.error.inj (Option.some.inj hleaves))
    exact .inr (explains_other (by simp))
  | mark attemptId now r hlive hr =>
    obtain ⟨record, -, hleaves⟩ := ending_ownerStep hf
    cases hleaves
  | dispatch attemptId now hlive => cases hf
  | outcome attemptId outcome => cases hf
  | close attemptId outcome now nonce r hr =>
    subst hr
    exact .inr (explains_closing hversion
      (fun row => hown attemptId row (.inr (.inr ⟨outcome, rfl⟩))) hf hrow)
  | finish attemptId now r hr =>
    subst hr
    obtain ⟨record, hread, hleaves⟩ := ending_ownerStep hf
    obtain ⟨row', hrow', -, rfl⟩ := getOwned_row hread
    obtain rfl := Option.some.inj (hrow.symm.trans hrow')
    exact .inr (explains_finish (Option.some.inj hleaves))
  | recover attemptId now r hr =>
    obtain ⟨result, db⟩ := r
    cases result with
    | error e => cases hf
    | ok u =>
      obtain rfl := Escape.failure.inj (Except.error.inj (Option.some.inj hf))
      exact .inr (explains_other (by simp))
  | release result => exact .inl hf

theorem attemptsOwn_reachable (hascii : ∀ b, Ascii (sha256 b))
    (h : Reachable Started (Happens checkSchema cipher sha256) s) :
    s.Intact checkSchema sha256 ∧ AttemptsOwn s := by
  refine Transition.reachable_invariant (P := fun s => s.Intact checkSchema sha256 ∧ AttemptsOwn s)
    ?_ ?_ h
  · intro s hstart
    refine ⟨intact_started hstart, fun c call attemptId row hget => ?_⟩
    simp [(started_empty hstart).2.1] at hget
  · rintro s e t hstep ⟨hs, hown⟩
    exact ⟨intact_step hascii hstep hs, attemptsOwn_step hs (serviceStep_of_next hstep.next) hown⟩

/-- At the event by which a call comes to fail, its failure tells how the row of its request stands. -/
theorem failure_explained (hascii : ∀ b, Ascii (sha256 b))
    (h : Reachable Started (Happens checkSchema cipher sha256) s)
    (hevent : Happens checkSchema cipher sha256 s e t) (hget : t.calls c = some call)
    (hf : call.pc.ending? = some (.error (.failure f)))
    (hnew : ∀ call₀, s.calls c = some call₀ → call₀.pc.ending? ≠ some (.error (.failure f)))
    (hrow : t.db.requests.select call.request.requestId = some row) : Explains f row := by
  obtain ⟨hs, hown⟩ := attemptsOwn_reachable hascii h
  obtain ⟨d, hopened⟩ := hs.opened
  rcases (serviceStep_of_next hevent.next).calls hget with hsame | harrived | ⟨call₀, action, hsteps⟩
  · exact (hnew call hsame hf).elim
  · rw [harrived] at hf
    cases hf
  · rw [← hsteps.request] at hrow
    rcases hsteps.step.explains hopened.version
      (fun attemptId row => hown c call₀ attemptId row hsteps.before) hf hrow with hold | hexplains
    · exact (hnew call₀ hsteps.before hold).elim
    · exact hexplains

/-! A worker that cannot be reached. -/

def unavailableFailure : GatewayFailure := 
  ⟨str "worker_unavailable", true, 503, some shortRetention.retryAfterSeconds⟩

/-- The first call of the sample run before its close, and after it. -/
def unavailableClose : Option (GatewayService × GatewayService) :=
  (startedAtSix.bind (fun s => s.play plainCipher sampleSha256 (fun _ _ => true)
    (redispatchedEvents.take 7))).bind (fun s =>
      (s.next plainCipher sampleSha256 (.act 0 (.close (sampleMoment 18 0 0 0) [0]))).map
        (fun t => (s, t)))

theorem unavailableClose_result : unavailableClose.map (fun p =>
    ((p.1.calls 0).bind (fun call => call.pc.ending?), (p.2.calls 0).bind (fun call =>
      if call.request.requestId = (sampleRequest false).requestId then call.pc.ending? else none),
      (p.2.db.requests.select (sampleRequest false).requestId).map Row.state)) =
    some (none, some (.error (.failure unavailableFailure)), some .reserved) := by
  decide +kernel

/-- Both states are reached, by an event of the run. -/
theorem unavailableClose_happens (h : unavailableClose = some (s, t)) :
    Reachable Started (Happens (fun _ => true) plainCipher sampleSha256) s ∧
      Happens (fun _ => true) plainCipher sampleSha256 s (.act 0 (.close (sampleMoment 18 0 0 0) [0]))
        t := by
  obtain ⟨s', hplayed, hmap⟩ := Option.bind_eq_some_iff.mp h
  obtain ⟨t', hnext, he⟩ := Option.map_eq_some_iff.mp hmap
  obtain ⟨rfl, rfl⟩ := Prod.mk.inj he
  obtain ⟨s₀, hstart, hplay⟩ := Option.bind_eq_some_iff.mp hplayed
  exact ⟨⟨s₀, _, ⟨shortRetention, 2, sampleMoment 18 0 0 0, by norm_num, hstart⟩, run_of_play
    (fun s e t he hnext _ => ⟨hnext, redispatched_promised e (List.mem_of_mem_take he)⟩) hplay⟩,
    hnext, trivial⟩

/-- The failure leaves the row reserved. -/
theorem failure_explained_unavailable : ∃ (t : GatewayService) (row : Row),
    t.db.requests.select (sampleRequest false).requestId = some row ∧ row.state = .reserved ∧
      Explains unavailableFailure row := by
  obtain ⟨⟨s, t⟩, hclose, hresult⟩ := Option.map_eq_some_iff.mp unavailableClose_result
  obtain ⟨hbefore, hafter⟩ := Prod.mk.inj hresult
  obtain ⟨hending, hstate⟩ := Prod.mk.inj hafter
  obtain ⟨hreachable, hevent⟩ := unavailableClose_happens hclose
  obtain ⟨call, hget, hf⟩ := Option.bind_eq_some_iff.mp hending
  split_ifs at hf with hrequest
  obtain ⟨row, hrow, hstate⟩ := Option.map_eq_some_iff.mp hstate
  refine ⟨t, row, hrow, hstate, failure_explained sampleSha256_ascii hreachable hevent hget hf ?_
    (hrequest ▸ hrow)⟩
  intro call₀ hget₀ hending₀
  have hsome : (s.calls 0).bind (fun call => call.pc.ending?) = _ :=
    Option.bind_eq_some_iff.mpr ⟨call₀, hget₀, hending₀⟩
  cases hbefore.symm.trans hsome

end Gateway
