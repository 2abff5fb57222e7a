import Gateway.Service.Attempts
import Gateway.Service.Health
import Gateway.Worker.Outcomes

/-! Ambiguous rows: a completion was sent for each, or a restart has found it in progress. -/
namespace Gateway

open Program (Ends Trace)
open Transition (Run Recording)

/-- `infer(request, timeout)`. -/
def InferenceWorker.infer (library : Library) (request : InferenceRequest) (timeout : ℚ) :
    InferenceWorker → Work WorkerResult
  | .ollama worker => inferOn library (.ollama worker) request timeout none
  | .fallback worker => worker.infer library request timeout none

/-- The names of the models can be written in a body, and the ttl is one that is configured. -/
def InferenceWorker.Writes : InferenceWorker → Prop
  | .ollama worker => Scalars worker.model
  | .fallback worker => Scalars worker.primary.model ∧ Scalars worker.fallback.model ∧
      (Worker.lmStudio worker.fallback).Configured

/-- An event, the worker of the process, and what the event exchanges with it. -/
structure WorkedEvent where
  event : Event
  worker : InferenceWorker
  trace : Trace Query.Answer

/-- A possible event: an outcome is what a run of the worker ends with, and a claim draws an attempt id
that no row has had. -/
structure Works (library : Library) (checkSchema : Json → Bool) (cipher : Cipher)
    (sha256 : Bytes → Str) (s : GatewayService) (e : WorkedEvent) (t : GatewayService) : Prop where
  happens : Happens checkSchema cipher sha256 s e.event t
  asked : ∀ c call outcome, e.event = .act c (.outcome outcome) → s.calls c = some call →
    ∃ timeout, Ends (e.worker.infer library call.request timeout) e.trace outcome
  fresh : ∀ c attemptId, e.event = .act c (.lane attemptId) → ∀ k row,
    s.db.requests.select k = some row → row.attemptId ≠ some attemptId

/-- The same where no answer chokes a worker that has sent nothing, models can be written, and a call
marks no row but one of its own owner and digest. -/
structure WorksUnchoked (library : Library) (checkSchema : Json → Bool) (cipher : Cipher)
    (sha256 : Bytes → Str) (s : GatewayService) (e : WorkedEvent) (t : GatewayService) : Prop where
  works : Works library checkSchema cipher sha256 s e t
  writes : ∀ c outcome, e.event = .act c (.outcome outcome) → e.worker.Writes
  unchoked : ∀ c outcome, e.event = .act c (.outcome outcome) → completions e.trace = [] →
    ¬ Choked library.recursionLimit e.trace
  own : ∀ c call now row, e.event = .act c (.mark now) → s.calls c = some call →
    s.db.requests.select call.request.requestId = some row → row.state = .reserved →
      row.identity = call.identity

/-- What has been exchanged, beside a run. -/
def exchanges (history : List (GatewayService × WorkedEvent)) (s : GatewayService) (e : WorkedEvent)
    (_ : GatewayService) : List (GatewayService × WorkedEvent) :=
  history ++ [(s, e)]

/-- A completion was sent in this attempt at the request, under this identity. -/
def Posted (history : List (GatewayService × WorkedEvent)) (attempt : Option Str) (key : Dispatched) :
    Prop :=
  ∃ (u : GatewayService) (e : WorkedEvent) (c : ℕ) (call : InferCall) (attemptId : Str)
    (outcome : Except WorkerRaised WorkerResult), (u, e) ∈ history ∧
    e.event = .act c (.outcome outcome) ∧ u.calls c = some call ∧ call.pc = .dispatched attemptId ∧
      attempt = some attemptId ∧ call.dispatched = key ∧ completions e.trace ≠ []

/-- A new process has found this attempt at the request in progress. -/
def Interrupted (history : List (GatewayService × WorkedEvent)) (attempt : Option Str)
    (key : Dispatched) : Prop :=
  ∃ (u : GatewayService) (e : WorkedEvent) (settings : Settings) (version : ℤ) (now : Datetime)
    (row : Row), (u, e) ∈ history ∧ e.event = .restart settings version now ∧
    u.db.requests.select key.requestId = some row ∧ row.state = .inProgress ∧
      row.attemptId = attempt ∧ row.identity = key.who

/-- What calls have sent and marked, and where ambiguous rows come from. -/
structure Attributed (checkSchema : Json → Bool) (history : List (GatewayService × WorkedEvent))
    (s : GatewayService) : Prop where
  opened : ∃ d, s.Opened d
  lane : LaneHeld s
  accepted : ∀ c call, s.calls c = some call → call.request.Accepted checkSchema
  settling : ∀ c call attemptId outcome, s.calls c = some call → call.pc = .settling attemptId outcome →
    (∃ message, outcome = .error (.unavailable message)) ∨
      Posted history (some attemptId) call.dispatched
  fresh : ∀ c call attemptId, s.calls c = some call → call.pc = .claimed attemptId → ∀ k row,
    s.db.requests.select k = some row → row.attemptId ≠ some attemptId
  attempted : ∀ c call attemptId row, s.calls c = some call → call.pc.Attempting attemptId →
    s.db.requests.select call.request.requestId = some row → row.attemptId = some attemptId →
      row.identity = call.identity
  settled : ∀ c call attemptId row, s.calls c = some call →
    call.pc = .stored attemptId ∨ call.pc = .recovering attemptId →
    s.db.requests.select call.request.requestId = some row → row.state = .inProgress →
    row.attemptId = some attemptId →
      Posted history row.attemptId ⟨call.request.requestId, row.identity⟩
  rows : ∀ k row, s.db.requests.select k = some row → row.state = .ambiguous →
    Posted history row.attemptId ⟨k, row.identity⟩ ∨ Interrupted history row.attemptId ⟨k, row.identity⟩

variable {library : Library} {cipher : Cipher} {sha256 : Bytes → Str} {checkSchema : Json → Bool}
variable {s t s₀ : GatewayService} {e : WorkedEvent} {history : List (GatewayService × WorkedEvent)}
variable {call call' : InferCall} {c c' : ℕ} {pc pc' : Pc} {action : Action} {db : Database}
variable {active : Option ActiveAttempt} {now : Datetime} {k attemptId : Str} {row : Row}
variable {key : Dispatched} {attempt : Option Str} {outcome : Except WorkerRaised WorkerResult}

theorem Posted.later (h : Posted history attempt key) : Posted (exchanges history s e t) attempt key := by
  obtain ⟨u, e', c, call, attemptId, outcome, hmem, hrest⟩ := h
  exact ⟨u, e', c, call, attemptId, outcome, List.mem_append_left _ hmem, hrest⟩

theorem Interrupted.later (h : Interrupted history attempt key) :
    Interrupted (exchanges history s e t) attempt key := by
  obtain ⟨u, e', settings, version, now, row, hmem, hrest⟩ := h
  exact ⟨u, e', settings, version, now, row, List.mem_append_left _ hmem, hrest⟩

theorem mem_exchanges : (s, e) ∈ exchanges history s e t :=
  List.mem_append_right _ (List.mem_singleton_self _)

/-! The worker. -/

/-- A worker that has sent nothing has none available, unless it was choked. -/
theorem infer_unsent {worker : InferenceWorker} {request : InferenceRequest} {timeout : ℚ}
    {trace : Trace Query.Answer} (hwrites : worker.Writes) (haccepted : request.Accepted checkSchema)
    (h : Ends (worker.infer library request timeout) trace outcome) (hnone : completions trace = [])
    (hnot : ¬ Choked library.recursionLimit trace) :
    ∃ message, outcome = .error (.unavailable message) := by
  cases worker with
  | ollama worker =>
    exact sendsOrUnavailable_inferOn haccepted (w := .ollama worker) trivial hwrites trace outcome h
      hnone hnot
  | fallback worker =>
    obtain ⟨hprimary, hfallback, hconfigured⟩ := hwrites
    exact sendsOrUnavailable_infer haccepted hprimary hfallback hconfigured trace outcome h hnone hnot

/-! One step of a call. -/

/-- What comes after a step of the owner's block is not a recovery of another attempt. -/
theorem ownerStep_settled {α : Type} {a : Str} {next : α → Pc} {result : Except Raised α}
    (hnext : ∀ x, next x = .stored attemptId ∨ next x = .recovering attemptId → a = attemptId)
    (h : ownerStep a next result = .stored attemptId ∨ ownerStep a next result = .recovering attemptId) :
    a = attemptId := by
  unfold ownerStep at h
  split at h
  · exact hnext _ h
  · split_ifs at h
    · simpa using h
    · simp at h

/-- A step that does not store a result leads to a recovery when it has failed. -/
theorem ownerStep_failed {α : Type} {a : Str} {next : α → Pc} {result : Except Raised α}
    (hnext : ∀ x, next x ≠ .stored attemptId ∧ next x ≠ .recovering attemptId)
    (h : ownerStep a next result = .stored attemptId ∨ ownerStep a next result = .recovering attemptId) :
    a = attemptId ∧ ∃ e, result = .error e := by
  refine ⟨ownerStep_settled (fun x hx => (hx.elim (hnext x).1 (hnext x).2).elim) h, ?_⟩
  cases result with
  | ok x => exact (h.elim (hnext x).1 (hnext x).2).elim
  | error e => exact ⟨e, rfl⟩

theorem closing_settled {a : Str} {nonce : Bytes}
    (h : (call.closing cipher s a now nonce outcome).1 = .stored attemptId ∨
      (call.closing cipher s a now nonce outcome).1 = .recovering attemptId) : a = attemptId := by
  unfold InferCall.closing at h
  split at h
  · exact ownerStep_settled (fun done => by cases done <;> simp) h
  all_goals exact (ownerStep_failed (fun _ => by simp) h).1

/-- Only the lane gives an attempt its id. -/
theorem CallStep.claimed (h : CallStep cipher s call c pc action (.claimed attemptId) db active) :
    action = .lane attemptId ∧ db = s.db := by
  have hrank := h.rank
  generalize hpc' : Pc.claimed attemptId = pc' at h
  cases h with
  | policy now =>
    cases hp : validatePolicy s.settings call.credential call.request now <;>
      simp [hp, afterPolicy] at hpc'
  | admission now r hr =>
    unfold afterAdmission at hpc'
    repeat' split at hpc'
    all_goals cases hpc'
  | lane record a =>
    unfold afterLane at hpc'
    repeat' split at hpc'
    all_goals cases hpc'
    exact ⟨rfl, rfl⟩
  | late a now r hat hexpired hr =>
    rcases hat with ⟨rfl, -⟩ | ⟨rfl, -⟩ <;> exact absurd hrank (by simp [Pc.rank])
  | _ => exact absurd hrank (by simp [Pc.rank])

/-- Whoever has claimed the lane marks next. -/
theorem CallStep.marks (h : CallStep cipher s call c (.claimed attemptId) action pc' db active) :
    ∃ now, action = .mark now := by
  cases h with
  | late a now r hat hexpired hr =>
    rcases hat with ⟨-, hact⟩ | ⟨he, -⟩
    · exact ⟨now, hact⟩
    · cases he
  | mark a now r hlive hr => exact ⟨now, rfl⟩

/-- A call comes to be stored or recovering by a read or a mark that has failed, or at its close. -/
theorem CallStep.settled (h : CallStep cipher s call c pc action pc' db active)
    (hpc' : pc' = .stored attemptId ∨ pc' = .recovering attemptId) :
    (pc = .claimed attemptId ∧ db = s.db) ∨
    (pc = .marked attemptId ∧ db = s.db ∧ ∃ now e, action = .dispatch now ∧
      (call.getOwned s now).1 = .error e) ∨
    (∃ outcome now nonce, pc = .settling attemptId outcome ∧ action = .close now nonce ∧
      db = (call.closing cipher s attemptId now nonce outcome).2) ∨
    pc = .stored attemptId ∧ db = s.db := by
  cases h with
  | policy now =>
    cases hp : validatePolicy s.settings call.credential call.request now <;>
      simp [hp, afterPolicy] at hpc'
  | admission now r hr =>
    unfold afterAdmission at hpc'
    repeat' split at hpc'
    all_goals simp at hpc'
  | lane record a =>
    unfold afterLane at hpc'
    repeat' split at hpc'
    all_goals simp at hpc'
  | late a now r hat hexpired hr =>
    subst hr
    obtain ⟨rfl, e, he⟩ := ownerStep_failed (fun _ => by simp) hpc'
    have hdb := transaction_error he
    rcases hat with ⟨rfl, -⟩ | ⟨rfl, rfl⟩
    · exact .inl ⟨rfl, hdb⟩
    · exact .inr (.inl ⟨rfl, hdb, now, e, rfl, he⟩)
  | mark a now r hlive hr =>
    subst hr
    obtain ⟨rfl, e, he⟩ := ownerStep_failed (fun _ => by simp) hpc'
    exact .inl ⟨rfl, transaction_error he⟩
  | close a outcome now nonce r hr =>
    subst hr
    obtain rfl := closing_settled hpc'
    exact .inr (.inr (.inl ⟨outcome, now, nonce, rfl, rfl, rfl⟩))
  | finish a now r hr =>
    subst hr
    obtain ⟨rfl, e, he⟩ := ownerStep_failed (fun _ => by simp) hpc'
    exact .inr (.inr (.inr ⟨rfl, transaction_error he⟩))
  | _ => simp at hpc'

/-! One event. -/

/-- While a call that has no mark to make holds the lane, no row comes to be in progress. -/
theorem inProgress_held {event : Event} (hnext : ServiceStep cipher sha256 s event t) (hlane : LaneHeld s)
    (hget : s.calls c = some call) (hholds : call.pc.Holds) (hclaimed : ∀ a, call.pc ≠ .claimed a)
    (hrow : t.db.requests.select k = some row) (hstate : row.state = .inProgress) :
    s.db.requests.select k = some row := by
  rcases inProgress_event hnext hrow hstate with hbefore | ⟨-, settings, a, now, -, hcall⟩
  · exact hbefore
  · obtain ⟨c', action, call', he, hget', -, ⟨hpc', -⟩ | ⟨outcome, now', nonce, -, -, hne⟩ |
      ⟨-, now', hne⟩⟩ := attempt_storeCall hcall rfl
    · obtain rfl := hlane.unique hget hholds hget' (by rw [hpc']; trivial)
      obtain rfl := Option.some.inj (hget.symm.trans hget')
      exact (hclaimed a hpc').elim
    · rcases outcome with (_ | _ | _) | _ <;> cases hne
    · cases hne

/-- A reset leaves no row in progress with its attempt. -/
theorem closing_unavailable {nonce : Bytes} {message : String} (hversion : s.db.version = some schemaVersion)
    (hrow : (call.closing cipher s attemptId now nonce (.error (.unavailable message))).2.requests.select
      call.request.requestId = some row) (hstate : row.state = .inProgress) :
    row.attemptId ≠ some attemptId := by
  intro hattempt
  have hok : resetReserved now call.request.requestId attemptId s.db.requests = .ok ((), _) := rfl
  simp only [InferCall.closing] at hrow
  rw [transaction_of_ok hversion hok] at hrow
  exact updateAttempt_closes (f := fun row => row.reset now) (fun _ => rfl)
    (fun _ => by simp [Row.reset]) hrow hstate hattempt

section Step

variable (h : WorksUnchoked library checkSchema cipher sha256 s e t)
variable (hs : Attributed checkSchema history s)
include h hs

theorem accepted_step (hget : t.calls c = some call) : call.request.Accepted checkSchema := by
  have hpromised := h.works.happens.promised
  have hnext := serviceStep_of_next h.works.happens.next
  rcases hnext.calls hget with hsame | harrived | ⟨call₀, action, hsteps⟩
  · exact hs.accepted c call hsame
  · generalize he : e.event = event at hnext hpromised
    cases hnext with
    | arrive hfree hdigest =>
      simp only [Function.update_apply] at hget
      split_ifs at hget
      · obtain rfl := Option.some.inj hget
        exact hpromised.1
      · exact hs.accepted c call hget
    | act hget' hreads hstep =>
      have haccepted := hs.accepted _ _ hget'
      rcases after_calls hget with ⟨-, rfl⟩ | ⟨-, hget⟩
      · exact haccepted
      · exact hs.accepted c call hget
    | restart hclock hopens => cases hget
    | _ => exact hs.accepted c call hget
  · rw [← hsteps.request]
    exact hs.accepted c call₀ hsteps.before

/-- What is settled has been sent, or no worker was available. -/
theorem settling_step (hget : t.calls c = some call) (hpc : call.pc = .settling attemptId outcome) :
    (∃ message, outcome = .error (.unavailable message)) ∨
      Posted (exchanges history s e t) (some attemptId) call.dispatched := by
  rcases (serviceStep_of_next h.works.happens.next).calls hget with hsame | harrived |
    ⟨call₀, action, hsteps⟩
  · exact (hs.settling c call attemptId outcome hsame hpc).imp_right Posted.later
  · cases hpc.symm.trans harrived
  · have hstep := hsteps.step
    rw [hpc] at hstep
    obtain ⟨hdispatched, rfl⟩ := hstep.settling
    obtain ⟨timeout, hends⟩ := h.works.asked c call₀ outcome hsteps.event hsteps.before
    by_cases hnone : completions e.trace = []
    · exact .inl (infer_unsent (h.writes c outcome hsteps.event) (hs.accepted c call₀ hsteps.before)
        hends hnone (h.unchoked c outcome hsteps.event hnone))
    · refine .inr ⟨s, e, c, call₀, attemptId, outcome, mem_exchanges, hsteps.event, hsteps.before,
        hdispatched, rfl, ?_, hnone⟩
      rw [InferCall.dispatched, InferCall.dispatched, hsteps.request, hsteps.identity]

/-- An attempt that is not marked yet is that of no row. -/
theorem fresh_step (hget : t.calls c = some call) (hpc : call.pc = .claimed attemptId)
    (hrow : t.db.requests.select k = some row) : row.attemptId ≠ some attemptId := by
  intro hattempt
  have hnext := serviceStep_of_next h.works.happens.next
  rcases hnext.calls hget with hsame | harrived | ⟨call₀, action, hsteps⟩
  · rcases attempt_event hnext hrow hattempt with ⟨row₀, hrow₀, hattempt₀, -⟩ |
      ⟨c', action, call', he, hget', hpc'⟩
    · exact hs.fresh c call attemptId hsame hpc k row₀ hrow₀ hattempt₀
    · -- the mark would have taken the call on
      obtain rfl := hs.lane.unique hsame (by rw [hpc]; trivial) hget' (by rw [hpc']; trivial)
      rw [he] at hnext
      cases hnext with
      | act hget₀ hreads hstep =>
        obtain rfl := Option.some.inj (hsame.symm.trans hget₀)
        have hsame := congrArg InferCall.pc (Option.some.inj (hget.symm.trans after_self))
        exact absurd (congrArg Pc.rank hsame) (ne_of_gt hstep.rank)
  · cases hpc.symm.trans harrived
  · have hstep := hsteps.step
    rw [hpc] at hstep
    obtain ⟨rfl, hdb⟩ := hstep.claimed
    exact h.works.fresh c attemptId hsteps.event k row (hdb ▸ hrow) hattempt

/-- A row that has the attempt of a call is the call's own. -/
theorem attempting_step (hget : t.calls c = some call) (hpc : call.pc.Attempting attemptId)
    (hrow : t.db.requests.select call.request.requestId = some row)
    (hattempt : row.attemptId = some attemptId) : row.identity = call.identity := by
  have hnext := serviceStep_of_next h.works.happens.next
  rcases hnext.calls hget with hsame | harrived | ⟨call₀, action, hsteps⟩
  · rcases attempt_event hnext hrow hattempt with ⟨row₀, hrow₀, hattempt₀, hid⟩ |
      ⟨c', action, call', -, hget', hpc'⟩
    · rw [← hid]
      exact hs.attempted c call attemptId row₀ hsame hpc hrow₀ hattempt₀
    · obtain rfl := hs.lane.unique hsame hpc.holds hget' (by rw [hpc']; trivial)
      obtain rfl := Option.some.inj (hsame.symm.trans hget')
      rw [hpc'] at hpc
      rcases hpc with he | he | ⟨outcome, he⟩ <;> cases he
  · rw [harrived] at hpc
    rcases hpc with he | he | ⟨outcome, he⟩ <;> cases he
  · have hbefore : ∀ {a : Str}, call₀.pc.Attempting a → t.db = s.db → a = attemptId →
        row.identity = call.identity := by
      rintro a hpc₀ hdb rfl
      rw [hdb, ← hsteps.request] at hrow
      rw [← hsteps.identity]
      exact hs.attempted c call₀ a row hsteps.before hpc₀ hrow hattempt
    rcases hsteps.step.attempting hpc with ⟨hclaimed, -, now, record, hmark⟩ | ⟨hmarked, -, hdb, -⟩ |
      ⟨hdispatched, hdb, -⟩
    · -- the row that was marked is the call's own
      obtain ⟨row₀, hrow₀, hstate, hrow'⟩ := marked_row hmark
      have hstep := hsteps.step
      rw [hclaimed] at hstep
      obtain ⟨now', rfl⟩ := hstep.marks
      rw [hsteps.request] at hrow'
      obtain rfl := Option.some.inj (hrow.symm.trans hrow')
      exact (h.own c call₀ now' row₀ hsteps.event hsteps.before hrow₀ hstate).trans hsteps.identity
    · exact hbefore (.inl hmarked) hdb rfl
    · exact hbefore (.inr (.inl hdispatched)) hdb rfl

/-- A row that is left in progress where its call stores or recovers was sent. -/
theorem settled_step (hget : t.calls c = some call)
    (hpc : call.pc = .stored attemptId ∨ call.pc = .recovering attemptId)
    (hrow : t.db.requests.select call.request.requestId = some row) (hstate : row.state = .inProgress)
    (hattempt : row.attemptId = some attemptId) :
    Posted (exchanges history s e t) row.attemptId ⟨call.request.requestId, row.identity⟩ := by
  have hnext := serviceStep_of_next h.works.happens.next
  obtain ⟨d, hopened⟩ := hs.opened
  have hholds : call.pc.Holds := by rcases hpc with hpc | hpc <;> (rw [hpc]; trivial)
  rcases hnext.calls hget with hsame | harrived | ⟨call₀, action, hsteps⟩
  · have hbefore := inProgress_held hnext hs.lane hsame hholds
      (by rcases hpc with hpc | hpc <;> simp [hpc]) hrow hstate
    exact (hs.settled c call attemptId row hsame hpc hbefore hstate hattempt).later
  · rcases hpc with hpc | hpc <;> cases hpc.symm.trans harrived
  · have hget₀ := hsteps.before
    rw [← hsteps.request] at hrow ⊢
    rcases hsteps.step.settled hpc with ⟨hclaimed, hdb⟩ | ⟨hmarked, hdb, now, e', rfl, herror⟩ |
      ⟨outcome, now, nonce, hsettling, rfl, hdb⟩ | ⟨hstored, hdb⟩
    · rw [hdb] at hrow
      exact (hs.fresh c call₀ attemptId hget₀ hclaimed _ row hrow hattempt).elim
    · -- the read would have found the call's own row
      rw [hdb] at hrow
      have hid := hs.attempted c call₀ attemptId row hget₀ (.inl hmarked) hrow hattempt
      obtain ⟨howner, hdigest⟩ := Identity.mk.inj hid
      have hlater := (hopened.since c call₀ hget₀).1.trans (hsteps.reads now rfl).1
      obtain ⟨record, hok⟩ := getOwned_answers hopened.version (hopened.cutoff.later hlater)
        ⟨row, hrow, howner, hdigest, fun hclosed => by simp [Row.isClosed, hstate] at hclosed⟩
      cases herror.symm.trans hok
    · have hbefore := inProgress_held hnext hs.lane hget₀ (by rw [hsettling]; trivial)
        (by simp [hsettling]) hrow hstate
      have hid := hs.attempted c call₀ attemptId row hget₀ (.inr (.inr ⟨outcome, hsettling⟩)) hbefore
        hattempt
      rcases hs.settling c call₀ attemptId outcome hget₀ hsettling with ⟨message, rfl⟩ | hposted
      · rw [hdb] at hrow
        exact (closing_unavailable hopened.version hrow hstate hattempt).elim
      · rw [hid, hattempt]
        exact hposted.later
    · rw [hdb] at hrow
      exact (hs.settled c call₀ attemptId row hget₀ (.inl hstored) hrow hstate hattempt).later

/-- A row that is made ambiguous was sent, or has just been found in progress. -/
theorem ambiguous_step (hrow : t.db.requests.select k = some row) (hstate : row.state = .ambiguous) :
    Posted (exchanges history s e t) row.attemptId ⟨k, row.identity⟩ ∨
      Interrupted (exchanges history s e t) row.attemptId ⟨k, row.identity⟩ := by
  have hnext := serviceStep_of_next h.works.happens.next
  have hkept : ∀ {row}, s.db.requests.select k = some row → row.state = .ambiguous →
      Posted (exchanges history s e t) row.attemptId ⟨k, row.identity⟩ ∨
        Interrupted (exchanges history s e t) row.attemptId ⟨k, row.identity⟩ := fun hrow hstate =>
    (hs.rows k _ hrow hstate).imp Posted.later Interrupted.later
  rcases hnext.keyMove k with ⟨-, hsame⟩ | ⟨settings, storeCall, hcall, hkey⟩
  · exact hkept (hsame ▸ hrow) hstate
  generalize hrow₀ : s.db.requests.select k = o at hkey
  rw [hrow] at hkey
  cases hkey with
  | inserted => cases hstate
  | moved hmove =>
    rename_i row₀
    cases hmove with
    | same => exact hkept hrow₀ hstate
    | recover hprogress =>
      obtain ⟨settings', version, he⟩ := storeCall_initialize hcall
      exact .inr ⟨s, e, settings', version, _, row₀, mem_exchanges, he, hrow₀, hprogress, rfl, rfl⟩
    | interrupt hprogress hattempt =>
      obtain ⟨c, action, call, he, hget, rfl, ⟨-, now', hne⟩ | ⟨outcome, now', nonce, -, hpc, hclosing⟩ |
        ⟨hpc, -⟩⟩ := attempt_storeCall hcall rfl
      · cases hne
      · have hid := hs.attempted c call _ row₀ hget (.inr (.inr ⟨outcome, hpc⟩)) hrow₀ hattempt
        rcases hs.settling c call _ outcome hget hpc with ⟨message, rfl⟩ | hposted
        · cases hclosing
        · change Posted _ row₀.attemptId ⟨_, row₀.identity⟩ ∨ _
          rw [hid, hattempt]
          exact .inl hposted.later
      · exact .inl (hs.settled c call _ row₀ hget (.inr hpc) hrow₀ hprogress hattempt).later
    | _ => cases hstate

theorem attributed_step : Attributed checkSchema (exchanges history s e t) t where
  opened := opened_step (serviceStep_of_next h.works.happens.next) hs.opened
  lane := laneHeld_step (serviceStep_of_next h.works.happens.next) hs.lane
  accepted _ _ := accepted_step h hs
  settling _ _ _ _ := settling_step h hs
  fresh _ _ _ hget hpc _ _ := fresh_step h hs hget hpc
  attempted _ _ _ _ := attempting_step h hs
  settled _ _ _ _ := settled_step h hs
  rows _ _ := ambiguous_step h hs

end Step

theorem attributed_started (h : Started s) : Attributed checkSchema [] s := by
  obtain ⟨-, hcalls, hrows⟩ := started_empty h
  refine ⟨opened_started h, laneHeld_started h, ?_, ?_, ?_, ?_, ?_, fun k row hrow => ?_⟩
  · exact fun c call hget => by simp [hcalls] at hget
  · exact fun c call _ _ hget => by simp [hcalls] at hget
  · exact fun c call _ hget => by simp [hcalls] at hget
  · exact fun c call _ _ hget => by simp [hcalls] at hget
  · exact fun c call _ _ hget => by simp [hcalls] at hget
  · simp [hrows] at hrow

/-- Over any run, each ambiguous row was sent or found in progress by a new process. -/
theorem attributed_run {events : List WorkedEvent} (hstart : Started s₀)
    (hrun : Run (Recording (WorksUnchoked library checkSchema cipher sha256) exchanges) (s₀, []) events
      (s, history)) : Attributed checkSchema history s := by
  refine hrun.invariant (P := fun p : GatewayService × List (GatewayService × WorkedEvent) =>
    Attributed checkSchema p.2 p.1) ?_ (attributed_started hstart)
  rintro ⟨s, history⟩ e ⟨t, history'⟩ ⟨hstep, hrecord⟩ hs
  obtain rfl : history' = exchanges history s e t := hrecord
  exact attributed_step hstep hs

/-- The events of a run are in its history. -/
theorem events_exchanges {step : GatewayService → WorkedEvent → GatewayService → Prop}
    {p q : GatewayService × List (GatewayService × WorkedEvent)} {events : List WorkedEvent}
    (h : Run (Recording step exchanges) p events q) :
    q.2.map Prod.snd = p.2.map Prod.snd ++ events := by
  induction h with
  | refl => simp
  | stepL h _ ih => simp [ih, h.2, exchanges]

def sampleLibrary : Library := ⟨100, fun _ _ => true⟩

/-- The completion of the sample request. -/
def sampleContent : Bytes :=
  (completionBody (Worker.ollama sampleOllama).payload (sampleRequest false)).toOption.getD []

/-- A client is opened, the completion is not answered in time, the client is closed. -/
def timedOut : Trace Query.Answer :=
  clientTrace [completionExchange (.ollama sampleOllama) sampleContent (.error .timeoutError)] none

/-- Nothing is answered in time. -/
def lateAnswers : ∀ query, Query.Answer query
  | .send _ => (.error .timeoutError : Except Fault HttpResponse)
  | .monotonic => (0 : ℚ)
  | .client => (none : Option Fault)

/-- A request of which the sample's completion is made, without a check of the context. -/
def sentAsSample (request : InferenceRequest) : Bool :=
  requiredContextTokens (some request.taskKey) = 0 &&
    (completionBody (Worker.ollama sampleOllama).payload request).toOption = some sampleContent

theorem timedOut_ends {request : InferenceRequest} (h : sentAsSample request = true) :
    Ends (inferOn sampleLibrary (.ollama sampleOllama) request 60 none) timedOut
      (.error (.outcomeAmbiguous "worker outcome is unknown")) := by
  simp only [sentAsSample, Bool.and_eq_true, decide_eq_true_eq] at h
  obtain ⟨hcontext, hsome⟩ := h
  have hbody : completionBody (Worker.ollama sampleOllama).payload request = .ok sampleContent := by
    cases hb : completionBody (Worker.ollama sampleOllama).payload request with
    | error e =>
      rw [hb] at hsome
      cases hsome
    | ok content =>
      rw [hb] at hsome
      rw [Option.some.inj hsome]
  have hcheck : checkCapacity sampleLibrary (.ollama sampleOllama) request 60 none = .done (.ok ()) := by
    simp only [checkCapacity, dispatchTimeout, contextAvailability, hcontext]
    rfl
  have hsubmit : submit sampleLibrary (.ollama sampleOllama) request =
      Work.stream ⟨.ollama sampleOllama, .completion sampleContent⟩ (readCompletion sampleLibrary) := by
    simp only [submit, hbody]
  have hexchange : exchange sampleLibrary (.ollama sampleOllama) request 60 none =
      (Work.stream ⟨.ollama sampleOllama, .completion sampleContent⟩
        (readCompletion sampleLibrary)).attempt >>= fun outcome => pure (true, outcome) := by
    simp only [exchange, hcheck, hsubmit]
    rfl
  have hrun : (inferOn sampleLibrary (.ollama sampleOllama) request 60 none).run lateAnswers =
      (timedOut, .error (.outcomeAmbiguous "worker outcome is unknown")) := by
    simp only [inferOn, clientExchange, hexchange]
    rfl
  have hends := Program.ends_run lateAnswers
    (inferOn sampleLibrary (.ollama sampleOllama) request 60 none)
  rwa [hrun] at hends

/-- A call whose worker does not answer in time. -/
def lateEvents : List WorkedEvent :=
  let six := sampleMoment 18 0 0 0
  let quiet (event : Event) : WorkedEvent := ⟨event, .ollama sampleOllama, []⟩
  [quiet (.arrive 0 sampleCredential (sampleRequest false)), quiet (.act 0 (.policy six)),
    quiet (.act 0 .admission), quiet (.act 0 (.lane (str "a0"))), quiet (.act 0 (.mark six)),
    quiet (.act 0 (.dispatch six)),
    ⟨.act 0 (.outcome (.error (.outcomeAmbiguous "worker outcome is unknown"))), .ollama sampleOllama,
      timedOut⟩,
    quiet (.act 0 (.close six [0]))]

/-- The state after an event, if its attempt id is fresh, its row the call's own, and its request the
sample's. -/
def nextWorked (s : GatewayService) (e : WorkedEvent) : Option GatewayService :=
  let possible : Bool := match e.event with
    | .act _ (.lane attemptId) => s.db.requests.rows.all (fun row => row.attemptId ≠ some attemptId)
    | .act c (.mark _) => (s.calls c).all (fun call =>
        s.db.requests.rows.all (fun row => row.identity = call.identity))
    | .act c (.outcome _) => (s.calls c).all (fun call => sentAsSample call.request)
    | _ => true
  if possible then s.next plainCipher sampleSha256 e.event else none

theorem lateEvents_promised : ∀ e ∈ lateEvents, e.event.Promised (fun _ => true) := by
  have hascii : Template.Ascii sampleCredential.identityHash := by decide
  simp only [lateEvents, List.forall_mem_cons]
  simp only [Event.Promised, sampleRequest_accepted, hascii, List.not_mem_nil, false_implies,
    implies_true, and_self]

/-- Only the worker's answer is late, and it is that of the sample. -/
theorem lateEvents_outcome {outcome : Except WorkerRaised WorkerResult} (he : e ∈ lateEvents)
    (hevent : e.event = .act c (.outcome outcome)) :
    outcome = .error (.outcomeAmbiguous "worker outcome is unknown") ∧
      e.worker = .ollama sampleOllama ∧ e.trace = timedOut := by
  simp only [lateEvents, List.mem_cons, List.not_mem_nil, or_false] at he
  rcases he with rfl | rfl | rfl | rfl | rfl | rfl | rfl | rfl <;> cases hevent
  exact ⟨rfl, rfl, rfl⟩

theorem completions_timedOut : completions timedOut ≠ [] := by
  rw [timedOut, completions_clientTrace]
  simp [completions, completionExchange, HttpRequest.IsCompletion]

theorem worksUnchoked_of_next (he : e ∈ lateEvents) (h : nextWorked s e = some t) :
    WorksUnchoked sampleLibrary (fun _ => true) plainCipher sampleSha256 s e t := by
  unfold nextWorked at h
  simp only at h
  split_ifs at h with hpossible
  refine ⟨⟨⟨h, lateEvents_promised e he⟩, ?_, ?_⟩, ?_, ?_, ?_⟩
  · intro c call outcome hevent hget
    obtain ⟨rfl, hworker, htrace⟩ := lateEvents_outcome he hevent
    simp only [hevent, hget, Option.all_some] at hpossible
    rw [hworker, htrace]
    exact ⟨60, timedOut_ends hpossible⟩
  · intro c attemptId hevent k row hrow
    simp only [hevent, List.all_eq_true] at hpossible
    simpa using hpossible row (KeyedTable.mem_of_select hrow)
  · intro c outcome hevent
    obtain ⟨-, hworker, -⟩ := lateEvents_outcome he hevent
    rw [hworker]
    exact (by decide : Scalars sampleOllama.model)
  · intro c outcome hevent hnone
    obtain ⟨-, -, htrace⟩ := lateEvents_outcome he hevent
    exact (completions_timedOut (htrace ▸ hnone)).elim
  · intro c call now row hevent hget hrow hstate
    simp only [hevent, hget, Option.all_some, List.all_eq_true] at hpossible
    simpa using hpossible row (KeyedTable.mem_of_select hrow)

theorem not_choked_timedOut {limit : ℕ} : ¬ Choked limit timedOut := by
  rw [timedOut, choked_clientTrace]
  rintro ⟨⟨x, hx, hchokes⟩, -⟩
  obtain rfl := List.mem_singleton.mp hx
  rcases hchokes with ⟨_, response, he, -⟩ | ⟨_, response, he, -⟩ <;>
    cases eq_of_heq (Sigma.mk.inj he).2

/-- A completion that gives a list for its `finish_reason`. -/
def listedReason : HttpResponse :=
  plainResponse (str
    "\x7b\"choices\":[\x7b\"message\":\x7b\"content\":\"\x7b\x7d\"\x7d,\"finish_reason\":[]\x7d]\x7d")

def listedAnswers : ∀ query, Query.Answer query
  | .send _ => (.ok listedReason : Except Fault HttpResponse)
  | .monotonic => (0 : ℚ)
  | .client => (none : Option Fault)

end Gateway
