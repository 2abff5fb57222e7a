import Gateway.Service.Calls
import Gateway.Service.Outlives

/-! The service as a user of its store: each event is at most one call of it. -/
namespace Gateway

open Transition (Run Reachable)

variable {cipher : Cipher} {sha256 : Bytes → Str} {checkSchema : Json → Bool}
variable {s t : GatewayService} {call : InferCall} {c : ℕ} {pc pc' : Pc} {action : Action}
variable {db : Database} {active : Option ActiveAttempt} {now d : Datetime} {e : Event}

section Calls

variable (s : GatewayService) (call : InferCall)

/-- `get_owned` with the identity of the call. -/
def InferCall.ownedCall (now : Datetime) : StoreCall :=
  .getOwned call.request.requestId call.credential.identityHash (some call.digest) now

/-- What closes an attempt. -/
def InferCall.closingCall (attemptId : Str) (now : Datetime) (nonce : Bytes) :
    Except WorkerRaised WorkerResult → StoreCall
  | .ok result => .complete nonce call.request.requestId attemptId result.mediaType result.content
      s.settings.deploymentId s.taskPolicyVersion now
  | .error (.unavailable _) => .resetReserved call.request.requestId attemptId now
  | .error (.invalidOutput _) => .markFailed call.request.requestId attemptId
      (str "invalid_worker_output") false none now
  | .error _ => .markAmbiguous call.request.requestId attemptId now

/-- The call of the store in a step of a call of `infer`. -/
def InferCall.storeCall : Pc → Action → Option StoreCall
  | .policed now, .admission =>
    some (.admitRequest call.request call.credential.identityHash call.digest now)
  | .reloading, .reload now => some (call.ownedCall now)
  | .claimed attemptId, .mark now =>
    some (if call.request.expiresAt ≤ now then call.ownedCall now
      else .markInProgress call.request.requestId attemptId now)
  | .marked _, .dispatch now =>
    if call.request.expiresAt ≤ now then some (call.ownedCall now) else none
  | .settling attemptId outcome, .close now nonce =>
    some (call.closingCall s attemptId now nonce outcome)
  | .stored _, .finish now => some (call.ownedCall now)
  | .recovering attemptId, .recover now =>
    some (.markAmbiguous call.request.requestId attemptId now)
  | _, _ => none

/-- The call of the store in an event, with the settings it is made under. -/
def GatewayService.storeCall : Event → Option (StoreSettings × StoreCall)
  | .act c action => (s.calls c).bind (fun call =>
      (call.storeCall s call.pc action).map (fun storeCall => (s.settings.store, storeCall)))
  | .acknowledge credential requestId disposition now =>
    some (s.settings.store, .acknowledge requestId credential.identityHash disposition now)
  | .maintain now => some (s.settings.store, .maintain now)
  | .restart settings _ now => some (settings.store, .initializeStore now)
  | _ => none

end Calls

/-- The file after a call of the store, if there is one. -/
def runStoreCall (cipher : Cipher) (db : Database) (storeCall : Option (StoreSettings × StoreCall)) :
    Database :=
  storeCall.elim db (fun storeCall => (storeCall.2.run storeCall.1 cipher db).2)

theorem closing_stores {attemptId : Str} {nonce : Bytes}
    {outcome : Except WorkerRaised WorkerResult} :
    (call.closing cipher s attemptId now nonce outcome).2 =
      ((call.closingCall s attemptId now nonce outcome).run s.settings.store cipher s.db).2 := by
  cases outcome with
  | ok result => rfl
  | error e => cases e <;> rfl

theorem CallStep.stores (h : CallStep cipher s call c pc action pc' db active) :
    db = runStoreCall cipher s.db
      ((call.storeCall s pc action).map (fun storeCall => (s.settings.store, storeCall))) := by
  cases h with
  | policy now => rfl
  | admission now r hr =>
    subst hr
    rfl
  | lane record attemptId => rfl
  | wake attempt howner hdone => rfl
  | timeout attempt => rfl
  | reload now r hr =>
    subst hr
    rfl
  | late attemptId now r hpc hexpired hr =>
    subst hr
    rcases hpc with ⟨rfl, rfl⟩ | ⟨rfl, rfl⟩
    · simp only [InferCall.storeCall, if_pos hexpired]
      rfl
    · simp only [InferCall.storeCall, if_pos hexpired]
      rfl
  | mark attemptId now r hlive hr =>
    subst hr
    simp only [InferCall.storeCall, if_neg (not_le.mpr hlive)]
    rfl
  | dispatch attemptId now hlive =>
    simp only [InferCall.storeCall, if_neg (not_le.mpr hlive)]
    rfl
  | outcome attemptId outcome => rfl
  | close attemptId outcome now nonce r hr =>
    subst hr
    exact closing_stores
  | finish attemptId now r hr =>
    subst hr
    rfl
  | recover attemptId now r hr =>
    subst hr
    rfl
  | release result => rfl

theorem ServiceStep.stores (h : ServiceStep cipher sha256 s e t) :
    t.db = runStoreCall cipher s.db (s.storeCall e) := by
  cases h with
  | tick hclock => rfl
  | arrive hfree hdigest => rfl
  | act hget hreads hstep =>
    simp only [GatewayService.storeCall, hget, Option.bind_some]
    exact hstep.stores
  | acknowledge hclock => rfl
  | maintain hclock => rfl
  | restart hclock hopens =>
    simp only [GatewayService.storeCall, runStoreCall, Option.elim_some, StoreCall.run, hopens]

/-- The file of a running service is a file of the store, so what holds of every run of the store
holds of it. -/
theorem service_refines_store {events : List Event} {s₀ : GatewayService}
    (hrun : Run (Happens checkSchema cipher sha256) s₀ events s) :
    ∃ calls, Run AnyStoreStep s₀.db calls s.db := by
  induction hrun with
  | refl => exact ⟨[], .refl⟩
  | @stepL s u t e events h _ ih =>
    obtain ⟨calls, hcalls⟩ := ih
    have hstores := (serviceStep_of_next h.next).stores
    cases hcall : s.storeCall e with
    | none =>
      rw [hcall] at hstores
      have hsame : u.db = s.db := hstores
      exact ⟨calls, hsame ▸ hcalls⟩
    | some storeCall =>
      rw [hcall] at hstores
      exact ⟨(storeCall.1, cipher, storeCall.2) :: calls, .stepL (.inl hstores) hcalls⟩

theorem reachable_store (h : Reachable Started (Happens checkSchema cipher sha256) s) :
    Reachable (· = Database.empty) AnyStoreStep s.db := by
  obtain ⟨s₀, events, ⟨settings, taskPolicyVersion, now, -, hinitial⟩, hrun⟩ := h
  obtain ⟨calls, hcalls⟩ := service_refines_store hrun
  refine ⟨Database.empty, (settings.store, cipher, .initializeStore now) :: calls, rfl, ?_⟩
  unfold GatewayService.initial at hinitial
  split at hinitial
  · rename_i db hopens
    obtain rfl := Option.some.inj hinitial
    exact .stepL (.inl (by simp only [StoreCall.run, hopens])) hcalls
  · cases hinitial

/-- Every row of a running service obeys its state. -/
theorem service_rowInvariant (h : Reachable Started (Happens checkSchema cipher sha256) s) :
    ∀ row ∈ s.db.requests.rows, RowInvariant row :=
  reachable_rowInvariant (reachable_store h)

/-! Since the process has started. -/

theorem HasCutoff.later {settings : Settings} (h : HasCutoff settings.store d) (hle : d ≤ now) :
    HasCutoff settings.store now := by
  obtain ⟨cutoff, hcutoff⟩ := h
  have hretention : -settings.tombstoneRetentionSeconds ≤ 0 := by
    have := settings.retention_range
    omega
  exact addSeconds_later hretention hcutoff hle

/-- The process has started at `d`: the file is open, and no call looks back behind it. -/
structure GatewayService.Opened (d : Datetime) (s : GatewayService) : Prop where
  version : s.db.version = some schemaVersion
  cutoff : HasCutoff s.settings.store d
  clock : d ≤ s.clock
  since : ∀ c call, s.calls c = some call → d ≤ call.since ∧ call.since ≤ s.clock
  policed : ∀ c call now, s.calls c = some call → call.pc = .policed now → d ≤ now

theorem opened_after (hs : s.Opened d) (hversion : db.version = s.db.version)
    (hpoliced : ∀ now, pc = .policed now → d ≤ now) :
    (s.after c call pc db active).Opened d := by
  refine ⟨hversion.trans hs.version, hs.cutoff, hs.clock, ?_, ?_⟩
  · intro c' call' hget'
    simp only [GatewayService.after, Function.update_apply] at hget'
    split_ifs at hget' with hc
    · obtain rfl := Option.some.inj hget'
      exact ⟨hs.clock, le_rfl⟩
    · exact hs.since c' call' hget'
  · intro c' call' now hget' hpc
    simp only [GatewayService.after, Function.update_apply] at hget'
    split_ifs at hget' with hc
    · obtain rfl := Option.some.inj hget'
      exact hpoliced now hpc
    · exact hs.policed c' call' now hget' hpc

theorem ownerStep_not_policed {α : Type} {attemptId : Str} {next : α → Pc} {r : Except Raised α}
    (h : ∀ a, next a ≠ .policed now) : ownerStep attemptId next r ≠ .policed now := by
  unfold ownerStep
  split
  · exact h _
  · split_ifs <;> simp

/-- Only a policy checked at `now` leaves a call there. -/
theorem CallStep.policed (h : CallStep cipher s call c pc action (.policed now) db active) :
    action = .policy now := by
  generalize hpc' : Pc.policed now = pc' at h
  cases h with
  | policy now' =>
    cases hp : validatePolicy s.settings call.credential call.request now' <;>
      simp_all [afterPolicy]
  | admission now' r hr =>
    unfold afterAdmission at hpc'
    repeat' split at hpc'
    all_goals cases hpc'
  | lane record attemptId =>
    unfold afterLane at hpc'
    repeat' split at hpc'
    all_goals cases hpc'
  | late attemptId now' r hat hexpired hr =>
    exact (ownerStep_not_policed (fun _ => by simp) hpc'.symm).elim
  | mark attemptId now' r hlive hr => exact (ownerStep_not_policed (fun _ => by simp) hpc'.symm).elim
  | close attemptId outcome now' nonce r hr =>
    subst hr
    unfold InferCall.closing at hpc'
    split at hpc'
    · exact (ownerStep_not_policed (fun done => by cases done <;> simp) hpc'.symm).elim
    all_goals exact (ownerStep_not_policed (fun _ => by simp) hpc'.symm).elim
  | finish attemptId now' r hr => exact (ownerStep_not_policed (fun _ => by simp) hpc'.symm).elim
  | _ => cases hpc'

theorem opened_initialize {settings : Settings} {taskPolicyVersion : ℤ} {clock : Datetime}
    {db db' : Database} (hopens : initializeStore settings.store now db = (.ok (), db'))
    (hle : now ≤ clock) :
    GatewayService.Opened now ⟨settings, taskPolicyVersion, db', clock, none, fun _ => none⟩ where
  version := (initializeStore_opened hopens).1
  cutoff := (initializeStore_opened hopens).2
  clock := hle
  since := by simp
  policed := by simp

theorem opened_started (h : Started s) : ∃ d, s.Opened d := by
  obtain ⟨settings, taskPolicyVersion, now, -, hinitial⟩ := h
  unfold GatewayService.initial at hinitial
  split at hinitial
  · rename_i db hopens
    obtain rfl := Option.some.inj hinitial
    exact ⟨now, opened_initialize hopens le_rfl⟩
  · cases hinitial

theorem opened_act (hs : s.Opened d) (hget : s.calls c = some call)
    (hreads : ∀ now, action.now? = some now → call.since ≤ now ∧ now ≤ s.clock)
    (hstep : CallStep cipher s call c call.pc action pc db active) :
    (s.after c call pc db active).Opened d := by
  refine opened_after hs hstep.version ?_
  rintro now rfl
  obtain rfl := hstep.policed
  exact (hs.since c call hget).1.trans (hreads now rfl).1

theorem opened_step (h : ServiceStep cipher sha256 s e t) (hs : ∃ d, s.Opened d) :
    ∃ d, t.Opened d := by
  obtain ⟨d, hs⟩ := hs
  cases h with
  | tick hclock =>
    exact ⟨d, hs.version, hs.cutoff, hs.clock.trans hclock,
      fun c call hget => ⟨(hs.since c call hget).1, (hs.since c call hget).2.trans hclock⟩, hs.policed⟩
  | arrive hfree hdigest =>
    rename_i c credential request digest
    have hafter : (s.after c ⟨credential, request, digest, s.clock, .arrived⟩ .arrived s.db
        s.active).Opened d :=
      opened_after hs rfl (fun now h => by cases h)
    exact ⟨d, hafter⟩
  | act hget hreads hstep => exact ⟨d, opened_act hs hget hreads hstep⟩
  | acknowledge hclock =>
    exact ⟨d, (transaction_version _ _).trans hs.version, hs.cutoff, hs.clock, hs.since, hs.policed⟩
  | maintain hclock =>
    exact ⟨d, (transaction_version _ _).trans hs.version, hs.cutoff, hs.clock, hs.since, hs.policed⟩
  | restart hclock hopens => exact ⟨_, opened_initialize hopens hclock⟩

end Gateway
