import Gateway.Service.Gateway
import Gateway.Store.Answers
import Gateway.Worker.Content

/-! The steps of the running service, case by case, and what each does to the rows. -/
namespace Gateway

open Template (Ascii)
open Transition (Run)

variable {cipher : Cipher} {sha256 : Bytes → Str} {checkSchema : Json → Bool}
variable {s t : GatewayService} {call : InferCall} {c : ℕ} {pc pc' : Pc} {action : Action}
variable {db : Database} {active : Option ActiveAttempt}

/-- One step of one call: where it stood, what it did, where it stands, the file, the lane. -/
inductive CallStep (cipher : Cipher) (s : GatewayService) (call : InferCall) (c : ℕ) :
    Pc → Action → Pc → Database → Option ActiveAttempt → Prop where
  | policy (now : Datetime) :
      CallStep cipher s call c .arrived (.policy now)
        (afterPolicy now (validatePolicy s.settings call.credential call.request now)) s.db s.active
  | admission (now : Datetime) (r : Except Raised RequestRecord × Database)
      (hr : transaction (admitRequest s.settings.store now call.request
        call.credential.identityHash call.digest) s.db = r) :
      CallStep cipher s call c (.policed now) .admission (afterAdmission s.settings cipher r.1) r.2
        s.active
  | lane (record : RequestRecord) (attemptId : Str) :
      CallStep cipher s call c (.admitted record) (.lane attemptId)
        (afterLane s.settings s.active c record attemptId).1 s.db
        (afterLane s.settings s.active c record attemptId).2
  | wake (attempt : ActiveAttempt) {owner : InferCall} {result : Except Escape Response}
      (howner : s.calls attempt.owner = some owner) (hdone : owner.pc = .done result) :
      CallStep cipher s call c (.waiting attempt) .wake .reloading s.db s.active
  | timeout (attempt : ActiveAttempt) :
      CallStep cipher s call c (.waiting attempt) .timeout
        (.done (failLater s.settings "inference_timeout" 504)) s.db s.active
  | reload (now : Datetime) (r : Except Raised RequestRecord × Database)
      (hr : call.getOwned s now = r) :
      CallStep cipher s call c .reloading (.reload now) (.done (afterReload s.settings cipher r.1))
        r.2 s.active
  | late {pc : Pc} {action : Action} (attemptId : Str) (now : Datetime)
      (r : Except Raised RequestRecord × Database)
      (hpc : pc = .claimed attemptId ∧ action = .mark now ∨
        pc = .marked attemptId ∧ action = .dispatch now)
      (hexpired : call.request.expiresAt ≤ now) (hr : call.getOwned s now = r) :
      CallStep cipher s call c pc action
        (ownerStep attemptId (fun _ => .leaving (fail "request_expired" false 409)) r.1) r.2 s.active
  | mark (attemptId : Str) (now : Datetime) (r : Except Raised RequestRecord × Database)
      (hlive : now < call.request.expiresAt)
      (hr : transaction (markInProgress s.settings.store now call.request.requestId attemptId)
        s.db = r) :
      CallStep cipher s call c (.claimed attemptId) (.mark now)
        (ownerStep attemptId (fun _ => .marked attemptId) r.1) r.2 s.active
  | dispatch (attemptId : Str) (now : Datetime) (hlive : now < call.request.expiresAt) :
      CallStep cipher s call c (.marked attemptId) (.dispatch now) (.dispatched attemptId) s.db
        s.active
  | outcome (attemptId : Str) (outcome : Except WorkerRaised WorkerResult) :
      CallStep cipher s call c (.dispatched attemptId) (.outcome outcome)
        (.settling attemptId outcome) s.db s.active
  | close (attemptId : Str) (outcome : Except WorkerRaised WorkerResult) (now : Datetime)
      (nonce : Bytes) (r : Pc × Database)
      (hr : call.closing cipher s attemptId now nonce outcome = r) :
      CallStep cipher s call c (.settling attemptId outcome) (.close now nonce) r.1 r.2 s.active
  | finish (attemptId : Str) (now : Datetime) (r : Except Raised RequestRecord × Database)
      (hr : call.getOwned s now = r) :
      CallStep cipher s call c (.stored attemptId) (.finish now)
        (ownerStep attemptId (fun record => .leaving (afterFinish cipher record)) r.1) r.2 s.active
  | recover (attemptId : Str) (now : Datetime) (r : Except Raised Unit × Database)
      (hr : transaction (markAmbiguous now call.request.requestId attemptId) s.db = r) :
      CallStep cipher s call c (.recovering attemptId) (.recover now)
        (.leaving (afterRecovery s.settings r.1)) r.2 s.active
  | release (result : Except Escape Response) :
      CallStep cipher s call c (.leaving result) .release (.done result) s.db none

theorem unlessExpired_of_le {attemptId : Str} {now : Datetime} {next : Pc × Database}
    (h : call.request.expiresAt ≤ now) : call.unlessExpired s attemptId now next =
      (ownerStep attemptId (fun _ => .leaving (fail "request_expired" false 409))
        (call.getOwned s now).1, (call.getOwned s now).2) :=
  if_pos h

theorem unlessExpired_of_lt {attemptId : Str} {now : Datetime} {next : Pc × Database}
    (h : now < call.request.expiresAt) : call.unlessExpired s attemptId now next = next :=
  if_neg (not_le.mpr h)

theorem step_claimed {attemptId : Str} {now : Datetime} :
    call.step cipher s c (.claimed attemptId) (.mark now) =
      some (s.keepsLane (call.unlessExpired s attemptId now
        (ownerStep attemptId (fun _ => .marked attemptId)
          (transaction (markInProgress s.settings.store now call.request.requestId attemptId) s.db).1,
        (transaction (markInProgress s.settings.store now call.request.requestId attemptId)
          s.db).2))) := rfl

theorem step_marked {attemptId : Str} {now : Datetime} :
    call.step cipher s c (.marked attemptId) (.dispatch now) =
      some (s.keepsLane (call.unlessExpired s attemptId now (.dispatched attemptId, s.db))) := rfl

theorem callStep_of_step (h : call.step cipher s c pc action = some (pc', db, active)) :
    CallStep cipher s call c pc action pc' db active := by
  cases pc with
  | arrived =>
    cases action with
    | policy now =>
      cases h
      exact .policy now
    | _ => cases h
  | policed now =>
    cases action with
    | admission =>
      cases h
      exact .admission now _ rfl
    | _ => cases h
  | admitted record =>
    cases action with
    | lane attemptId =>
      cases h
      exact .lane record attemptId
    | _ => cases h
  | waiting attempt =>
    cases action with
    | wake =>
      have hstep : call.step cipher s c (.waiting attempt) .wake =
          if ((s.calls attempt.owner).bind InferCall.result?).isSome then
            some (s.keepsLane (.reloading, s.db)) else none := rfl
      rw [hstep] at h
      split_ifs at h with hended
      obtain ⟨result, hresult⟩ := Option.isSome_iff_exists.mp hended
      obtain ⟨owner, howner, hdone⟩ := Option.bind_eq_some_iff.mp hresult
      cases h
      exact .wake attempt howner (InferCall.result?_eq_some.mp hdone)
    | timeout =>
      cases h
      exact .timeout attempt
    | _ => cases h
  | reloading =>
    cases action with
    | reload now =>
      cases h
      exact .reload now _ rfl
    | _ => cases h
  | claimed attemptId =>
    cases action with
    | mark now =>
      rw [step_claimed] at h
      rcases le_or_gt call.request.expiresAt now with hexpired | hlive
      · rw [unlessExpired_of_le hexpired] at h
        cases h
        exact .late attemptId now _ (.inl ⟨rfl, rfl⟩) hexpired rfl
      · rw [unlessExpired_of_lt hlive] at h
        cases h
        exact .mark attemptId now _ hlive rfl
    | _ => cases h
  | marked attemptId =>
    cases action with
    | dispatch now =>
      rw [step_marked] at h
      rcases le_or_gt call.request.expiresAt now with hexpired | hlive
      · rw [unlessExpired_of_le hexpired] at h
        cases h
        exact .late attemptId now _ (.inr ⟨rfl, rfl⟩) hexpired rfl
      · rw [unlessExpired_of_lt hlive] at h
        cases h
        exact .dispatch attemptId now hlive
    | _ => cases h
  | dispatched attemptId =>
    cases action with
    | outcome outcome =>
      cases h
      exact .outcome attemptId outcome
    | _ => cases h
  | settling attemptId outcome =>
    cases action with
    | close now nonce =>
      cases h
      exact .close attemptId outcome now nonce _ rfl
    | _ => cases h
  | stored attemptId =>
    cases action with
    | finish now =>
      cases h
      exact .finish attemptId now _ rfl
    | _ => cases h
  | recovering attemptId =>
    cases action with
    | recover now =>
      cases h
      exact .recover attemptId now _ rfl
    | _ => cases h
  | leaving result =>
    cases action with
    | release =>
      cases h
      exact .release result
    | _ => cases h
  | done result => cases h

/-! What a record answers. -/

theorem existingResponse_open {record : RequestRecord}
    (h : record.state = .reserved ∨ record.state = .inProgress) :
    existingResponse cipher record = .ok none := by
  rcases h with h | h <;> simp [existingResponse, h]

/-- A completed row answers with the worker's content and the process that completed it. -/
theorem existingResponse_complete {row : Row} {now : Datetime} {nonce : Bytes} {content mediaType deploymentId : Str}
    {taskPolicyVersion : ℤ} {sealed : Bytes × Bytes} (hcipher : cipher.Inverts)
    (h : row.record.encrypt cipher nonce content = .ok sealed) :
    existingResponse cipher
        (row.complete mediaType sealed.1 sealed.2 deploymentId taskPolicyVersion now).record =
      .ok (some ⟨row.requestId, some mediaType, content, taskPolicyVersion, deploymentId⟩) := by
  have houtput := @output_complete cipher now row nonce content mediaType deploymentId
    taskPolicyVersion sealed hcipher h
  have hstate : (row.complete mediaType sealed.1 sealed.2 deploymentId taskPolicyVersion
      now).record.state = .completed := rfl
  simp only [existingResponse, hstate, houtput]
  rfl

/-! What one step does to the rows. -/

/-- A predicate on what identifies a row, and its request, at every row of a table. -/
def Rows (P : Row → Prop) (t : Table) : Prop := ∀ k row, t.select k = some row → P row

section Rows

variable {P : Row → Prop} (hP : ∀ row row', SameIdentity row row' → P row → P row')
include hP

theorem rows_statements {settings : StoreSettings} {now : Datetime} {t t' : Table}
    (h : Statements settings now (fun _ => False) t t') (ht : Rows P t) : Rows P t' := by
  induction h with
  | refl => exact ht
  | tail _ hstep ih =>
    intro k row hrow
    cases hstep with
    | update hedge =>
      rw [KeyedTable.select_update] at hrow
      obtain ⟨r, hr, rfl⟩ := Option.map_eq_some_iff.mp hrow
      split_ifs with hmatch
      · exact hP _ _ (rowEdge_identity (hedge r hmatch)) (ih k r hr)
      · exact ih k r hr
    | delete _ _ =>
      rw [KeyedTable.select_delete, Option.filter_eq_some_iff] at hrow
      exact ih k row hrow.1
    | insert _ hadmits _ _ _ => exact hadmits.elim

/-- Any transaction but an admission. -/
theorem rows_transaction {α : Type} {settings : StoreSettings} {now : Datetime}
    {body : Table → Except Raised (α × Table)} {db : Database}
    (h : ∀ a t', body db.requests = .ok (a, t') →
      Statements settings now (fun _ => False) db.requests t')
    (hdb : Rows P db.requests) : Rows P (transaction body db).2.requests :=
  rows_statements hP (statements_outcome h) hdb

theorem rows_admission {settings : StoreSettings} {now : Datetime} {request : InferenceRequest}
    {credentialHash requestDigest : Str} {db : Database}
    (hnew : P (reservedRow request credentialHash requestDigest now)) (hdb : Rows P db.requests) :
    Rows P (transaction (admitRequest settings now request credentialHash requestDigest)
      db).2.requests := by
  cases ht : transaction (admitRequest settings now request credentialHash requestDigest) db with
  | mk result db' =>
    cases result with
    | error e =>
      have hsame := transaction_error (e := e) (congrArg Prod.fst ht)
      rw [ht] at hsame
      exact hsame ▸ hdb
    | ok record =>
      obtain ⟨t', hok, rfl⟩ := transaction_ok ht
      obtain ⟨t₁, hclean, hcase⟩ := admitRequest_ok hok
      have hcleaned := rows_statements hP (statements_cleanup hclean) hdb
      rcases hcase with ⟨row, -, -, -, -, rfl⟩ | ⟨-, -, -, hset⟩
      · exact hcleaned
      · intro k row hrow
        rw [hset] at hrow
        split_ifs at hrow with hk
        · obtain rfl := Option.some.inj hrow
          exact hnew
        · exact hcleaned k row hrow

theorem rows_getOwned {now : Datetime} (hs : Rows P s.db.requests) :
    Rows P (call.getOwned s now).2.requests :=
  rows_transaction hP (fun _ _ h => (cleaned_getOwned h).statements) hs

theorem rows_closing {attemptId : Str} {now : Datetime} {nonce : Bytes}
    {outcome : Except WorkerRaised WorkerResult} (hs : Rows P s.db.requests) :
    Rows P (call.closing cipher s attemptId now nonce outcome).2.requests := by
  unfold InferCall.closing
  split
  · exact rows_transaction hP (fun _ _ h => (cleaned_complete h).statements) hs
  · refine @rows_transaction _ hP _ s.settings.store now _ _ (fun _ _ h => ?_) hs
    obtain ⟨-, rfl⟩ := Prod.mk.inj (Except.ok.inj h)
    exact .single (statement_attempt _ fun row hrow => .reset hrow)
  · refine @rows_transaction _ hP _ s.settings.store now _ _ (fun _ _ h => ?_) hs
    obtain ⟨-, rfl⟩ := Prod.mk.inj (Except.ok.inj h)
    exact .single (statement_attempt _ fun row hrow => .fail _ _ _ hrow)
  · refine @rows_transaction _ hP _ s.settings.store now _ _ (fun _ _ h => ?_) hs
    obtain ⟨-, rfl⟩ := Prod.mk.inj (Except.ok.inj h)
    exact .single (statement_attempt _ fun row hrow => .interrupt hrow)

/-- One step keeps what holds of every row, if it holds of the row it may add. -/
theorem CallStep.rows (h : CallStep cipher s call c pc action pc' db active)
    (hnew : ∀ now, P (reservedRow call.request call.credential.identityHash call.digest now))
    (hs : Rows P s.db.requests) : Rows P db.requests := by
  cases h with
  | policy now => exact hs
  | admission now r hr =>
    subst hr
    exact rows_admission hP (hnew now) hs
  | lane record attemptId => exact hs
  | wake attempt howner hdone => exact hs
  | timeout attempt => exact hs
  | reload now r hr =>
    subst hr
    exact rows_getOwned hP hs
  | late attemptId now r hpc hexpired hr =>
    subst hr
    exact rows_getOwned hP hs
  | mark attemptId now r hlive hr =>
    subst hr
    exact rows_transaction hP (fun _ _ h => (cleaned_markInProgress h).statements) hs
  | dispatch attemptId now hlive => exact hs
  | outcome attemptId outcome => exact hs
  | close attemptId outcome now nonce r hr =>
    subst hr
    exact rows_closing hP hs
  | finish attemptId now r hr =>
    subst hr
    exact rows_getOwned hP hs
  | recover attemptId now r hr =>
    subst hr
    refine @rows_transaction _ hP _ s.settings.store now _ _ (fun _ _ h => ?_) hs
    obtain ⟨-, rfl⟩ := Prod.mk.inj (Except.ok.inj h)
    exact .single (statement_attempt _ fun row hrow => .interrupt hrow)
  | release result => exact hs

end Rows

theorem CallStep.version (h : CallStep cipher s call c pc action pc' db active) :
    db.version = s.db.version := by
  cases h with
  | policy now => rfl
  | admission now r hr =>
    subst hr
    exact transaction_version _ _
  | lane record attemptId => rfl
  | wake attempt howner hdone => rfl
  | timeout attempt => rfl
  | reload now r hr =>
    subst hr
    exact transaction_version _ _
  | late attemptId now r hpc hexpired hr =>
    subst hr
    exact transaction_version _ _
  | mark attemptId now r hlive hr =>
    subst hr
    exact transaction_version _ _
  | dispatch attemptId now hlive => rfl
  | outcome attemptId outcome => rfl
  | close attemptId outcome now nonce r hr =>
    subst hr
    unfold InferCall.closing
    split <;> exact transaction_version _ _
  | finish attemptId now r hr =>
    subst hr
    exact transaction_version _ _
  | recover attemptId now r hr =>
    subst hr
    exact transaction_version _ _
  | release result => rfl

/-! How far a call is from its end, and that it can go on. -/

def Pc.rank : Pc → ℕ
  | .arrived => 11
  | .policed _ => 10
  | .admitted _ => 9
  | .claimed _ => 8
  | .marked _ => 7
  | .dispatched _ => 6
  | .settling _ _ => 5
  | .stored _ => 4
  | .recovering _ => 3
  | .waiting _ => 3
  | .reloading => 2
  | .leaving _ => 1
  | .done _ => 0

theorem rank_ownerStep {α : Type} {attemptId : Str} {next : α → Pc} {r : Except Raised α} {n : ℕ}
    (hn : 3 < n) (h : ∀ a, (next a).rank < n) : (ownerStep attemptId next r).rank < n := by
  unfold ownerStep
  split
  · exact h _
  · split_ifs <;> simp only [Pc.rank] <;> omega

/-- Each step of a call brings it closer to its end. -/
theorem CallStep.rank (h : CallStep cipher s call c pc action pc' db active) :
    pc'.rank < pc.rank := by
  cases h with
  | policy now => cases validatePolicy s.settings call.credential call.request now <;>
      simp [afterPolicy, Pc.rank]
  | admission now r hr =>
    unfold afterAdmission
    repeat' split
    all_goals simp [Pc.rank]
  | lane record attemptId =>
    unfold afterLane
    repeat' split
    all_goals simp [Pc.rank]
  | wake attempt howner hdone => simp [Pc.rank]
  | timeout attempt => simp [Pc.rank]
  | reload now r hr => simp [Pc.rank]
  | late attemptId now r hpc hexpired hr =>
    refine rank_ownerStep ?_ fun _ => ?_ <;>
      rcases hpc with ⟨rfl, -⟩ | ⟨rfl, -⟩ <;> simp [Pc.rank]
  | mark attemptId now r hlive hr => exact rank_ownerStep (by simp [Pc.rank]) fun _ => by simp [Pc.rank]
  | dispatch attemptId now hlive => simp [Pc.rank]
  | outcome attemptId outcome => simp [Pc.rank]
  | close attemptId outcome now nonce r hr =>
    subst hr
    unfold InferCall.closing
    split
    · exact rank_ownerStep (by simp [Pc.rank]) fun done => by cases done <;> simp [Pc.rank]
    all_goals exact rank_ownerStep (by simp [Pc.rank]) fun _ => by simp [Pc.rank]
  | finish attemptId now r hr => exact rank_ownerStep (by simp [Pc.rank]) fun _ => by simp [Pc.rank]
  | recover attemptId now r hr => simp [Pc.rank]
  | release result => simp [Pc.rank]

/-- A call that neither waits nor has ended can take a step now. -/
theorem step_possible (hwaiting : ∀ attempt, call.pc ≠ .waiting attempt)
    (hended : ∀ result, call.pc ≠ .done result) (now : Datetime) :
    ∃ action r, call.step cipher s c call.pc action = some r ∧
      ∀ now', action.now? = some now' → now' = now := by
  have hnow : ∀ {now' : Datetime}, some now = some now' → now' = now := fun h =>
    (Option.some.inj h).symm
  have hnone : ∀ {now' : Datetime}, (none : Option Datetime) = some now' → now' = now := fun h => by
    cases h
  cases hpc : call.pc with
  | arrived => exact ⟨.policy now, _, rfl, fun _ => hnow⟩
  | policed at' => exact ⟨.admission, _, rfl, fun _ => hnone⟩
  | admitted record => exact ⟨.lane [], _, rfl, fun _ => hnone⟩
  | waiting attempt => exact (hwaiting attempt hpc).elim
  | reloading => exact ⟨.reload now, _, rfl, fun _ => hnow⟩
  | claimed attemptId => exact ⟨.mark now, _, rfl, fun _ => hnow⟩
  | marked attemptId => exact ⟨.dispatch now, _, rfl, fun _ => hnow⟩
  | dispatched attemptId => exact ⟨.outcome (.ok ⟨[], []⟩), _, rfl, fun _ => hnone⟩
  | settling attemptId outcome => exact ⟨.close now [], _, rfl, fun _ => hnow⟩
  | stored attemptId => exact ⟨.finish now, _, rfl, fun _ => hnow⟩
  | recovering attemptId => exact ⟨.recover now, _, rfl, fun _ => hnow⟩
  | leaving result => exact ⟨.release, _, rfl, fun _ => hnone⟩
  | done result => exact (hended result hpc).elim

/-! Events. -/

/-- The state after a step of one call. -/
def GatewayService.after (s : GatewayService) (c : ℕ) (call : InferCall) (pc : Pc) (db : Database)
    (active : Option ActiveAttempt) : GatewayService :=
  { s with
    db := db, active := active
    calls := Function.update s.calls c (some { call with since := s.clock, pc := pc }) }

@[simp] theorem after_self : (s.after c call pc db active).calls c =
    some { call with since := s.clock, pc := pc } :=
  Function.update_self ..

theorem after_other {c' : ℕ} (h : c' ≠ c) : (s.after c call pc db active).calls c' = s.calls c' :=
  Function.update_of_ne h ..

/-- One event: what allows it and what it makes of the state. -/
inductive ServiceStep (cipher : Cipher) (sha256 : Bytes → Str) (s : GatewayService) :
    Event → GatewayService → Prop where
  | tick {now : Datetime} (hclock : s.clock ≤ now) :
      ServiceStep cipher sha256 s (.tick now) { s with clock := now }
  | arrive {c : ℕ} {credential : Credential} {request : InferenceRequest} {digest : Str}
      (hfree : s.calls c = none) (hdigest : request.canonicalDigest sha256 = .ok digest) :
      ServiceStep cipher sha256 s (.arrive c credential request) { s with
        calls := Function.update s.calls c
          (some ⟨credential, request, digest, s.clock, .arrived⟩) }
  | act {c : ℕ} {action : Action} {call : InferCall} {pc : Pc} {db : Database}
      {active : Option ActiveAttempt} (hcall : s.calls c = some call)
      (hreads : ∀ now, action.now? = some now → call.since ≤ now ∧ now ≤ s.clock)
      (hstep : CallStep cipher s call c call.pc action pc db active) :
      ServiceStep cipher sha256 s (.act c action) (s.after c call pc db active)
  | acknowledge {credential : Credential} {requestId disposition : Str} {now : Datetime}
      (hclock : now ≤ s.clock) :
      ServiceStep cipher sha256 s (.acknowledge credential requestId disposition now) { s with
        db := ((StoreCall.acknowledge requestId credential.identityHash disposition now).run
          s.settings.store cipher s.db).2 }
  | maintain {now : Datetime} (hclock : now ≤ s.clock) :
      ServiceStep cipher sha256 s (.maintain now) { s with
        db := ((StoreCall.maintain now).run s.settings.store cipher s.db).2 }
  | restart {settings : Settings} {taskPolicyVersion : ℤ} {now : Datetime} {db : Database}
      (hclock : now ≤ s.clock) (hopens : initializeStore settings.store now s.db = (.ok (), db)) :
      ServiceStep cipher sha256 s (.restart settings taskPolicyVersion now)
        ⟨settings, taskPolicyVersion, db, s.clock, none, fun _ => none⟩

theorem and_of_all {α : Type} {p q : α → Prop} [DecidablePred p] [DecidablePred q] {o : Option α}
    {a : α} (ha : o = some a) (h : o.all (fun a => p a && q a) = true) : p a ∧ q a := by
  subst ha
  simpa using h

theorem reads_now {now : Datetime} (hnow : action.now? = some now)
    (h : s.reads call action = true) : call.since ≤ now ∧ now ≤ s.clock :=
  and_of_all hnow h

theorem all_of_and {α : Type} {p q : α → Prop} [DecidablePred p] [DecidablePred q] {o : Option α}
    (h : ∀ a, o = some a → p a ∧ q a) : o.all (fun a => p a && q a) = true := by
  cases o with
  | none => rfl
  | some a => simpa using h a rfl

/-- A call can take a step at the time of the clock. -/
theorem next_possible (hget : s.calls c = some call) (hsince : call.since ≤ s.clock)
    {r : Pc × Database × Option ActiveAttempt} (hstep : call.step cipher s c call.pc action = some r)
    (hnow : ∀ now, action.now? = some now → now = s.clock) :
    ∃ t, s.next cipher sha256 (.act c action) = some t := by
  have hreads : s.reads call action = true := all_of_and fun now h => by
    obtain rfl := hnow now h
    exact ⟨hsince, le_rfl⟩
  simp only [GatewayService.next, hget, hreads, if_true, hstep, Option.map_some]
  exact ⟨_, rfl⟩

theorem serviceStep_of_next {e : Event} (h : s.next cipher sha256 e = some t) :
    ServiceStep cipher sha256 s e t := by
  cases e with
  | tick now =>
    simp only [GatewayService.next] at h
    split_ifs at h with hclock
    cases h
    exact .tick hclock
  | arrive c credential request =>
    simp only [GatewayService.next] at h
    split at h
    · rename_i hfree hdigest
      cases h
      exact .arrive hfree hdigest
    · cases h
  | act c action =>
    simp only [GatewayService.next] at h
    split at h
    · cases h
    · rename_i call hcall
      split_ifs at h with hreads
      obtain ⟨⟨pc, db, active⟩, hstep, rfl⟩ := Option.map_eq_some_iff.mp h
      exact .act hcall (fun now hnow => reads_now hnow hreads) (callStep_of_step hstep)
  | acknowledge credential requestId disposition now =>
    simp only [GatewayService.next] at h
    split_ifs at h with hclock
    cases h
    exact .acknowledge hclock
  | maintain now =>
    simp only [GatewayService.next] at h
    split_ifs at h with hclock
    cases h
    exact .maintain hclock
  | restart settings taskPolicyVersion now =>
    simp only [GatewayService.next] at h
    split_ifs at h with hclock
    split at h
    · rename_i db hopens
      cases h
      exact .restart hclock hopens
    · cases h

/-- What is promised of what comes from outside: requests as their contract builds them, identities
as their hash spells them, and results that a worker has validated. -/
def Event.Promised (checkSchema : Json → Bool) : Event → Prop
  | .arrive _ credential request => request.Accepted checkSchema ∧ Ascii credential.identityHash
  | .act _ (.outcome (.ok result)) => ∃ library schema document,
      validatedResult library schema document = .ok result
  | .restart _ taskPolicyVersion _ => 1 ≤ taskPolicyVersion
  | _ => True

/-- A possible event with what is promised of it. -/
structure Happens (checkSchema : Json → Bool) (cipher : Cipher) (sha256 : Bytes → Str)
    (s : GatewayService) (e : Event) (t : GatewayService) : Prop where
  next : s.next cipher sha256 e = some t
  promised : e.Promised checkSchema

/-- The first process, started at some time on an empty file. -/
def Started (s : GatewayService) : Prop :=
  ∃ settings taskPolicyVersion now, 1 ≤ taskPolicyVersion ∧
    GatewayService.initial settings taskPolicyVersion now = some s

/-! Runs that can be computed. -/

/-- The state after a list of events, if each is possible and meets a condition. -/
def GatewayService.play (cipher : Cipher) (sha256 : Bytes → Str)
    (guard : GatewayService → Event → Bool) : GatewayService → List Event → Option GatewayService
  | s, [] => some s
  | s, e :: events =>
    if guard s e then (s.next cipher sha256 e).bind (fun s => play cipher sha256 guard s events)
    else none

theorem run_of_play {guard : GatewayService → Event → Bool}
    {step : GatewayService → Event → GatewayService → Prop} {events : List Event}
    (hstep : ∀ s e t, e ∈ events → s.next cipher sha256 e = some t → guard s e = true → step s e t)
    (h : s.play cipher sha256 guard events = some t) : Run step s events t := by
  induction events generalizing s with
  | nil =>
    obtain rfl := Option.some.inj h
    exact .refl
  | cons e events ih =>
    simp only [GatewayService.play] at h
    split_ifs at h with hguard
    obtain ⟨u, hnext, hrest⟩ := Option.bind_eq_some_iff.mp h
    exact .stepL (hstep s e u (List.mem_cons_self ..) hnext hguard)
      (ih (fun s e t he => hstep s e t (List.mem_cons_of_mem _ he)) hrest)

/-- The digest of the sample request. -/
def sampleSha256 : Bytes → Str := fun _ =>
  str "bebd90d8a9be4e308344295db8c01c1b2843121b6841088314eefd1d164049d8"

theorem sampleSha256_ascii (b : Bytes) : Ascii (sampleSha256 b) := by
  have hdigest : Ascii (sampleSha256 []) := by decide
  exact hdigest

end Gateway
