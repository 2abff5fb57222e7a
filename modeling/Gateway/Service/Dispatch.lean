import Gateway.Foundation.Openings
import Gateway.Service.Lane

/-! Calls of the worker: one at a time, and again for a request only after a reset. -/
namespace Gateway

open Openings (Entry Pending Exclusive)
open Transition (Run Recording)

/-- A request under the identity it is dispatched for. -/
structure Dispatched where
  requestId : Str
  who : Identity
deriving DecidableEq

def InferCall.dispatched (call : InferCall) : Dispatched := ⟨call.request.requestId, call.identity⟩

/-- What a step of a call adds to the log of the worker: its invocation, and its end in
`WorkerUnavailable` once the reset has returned. -/
def InferCall.logs (call : InferCall) (pc : Pc) : List (Entry Dispatched Str) :=
  match call.pc, pc with
  | .marked attemptId, .dispatched _ => [.opened call.dispatched attemptId]
  | .settling attemptId (.error (.unavailable _)), .leaving (.error (.failure _)) =>
    [.closed call.dispatched attemptId]
  | _, _ => []

def loggedBy (s : GatewayService) (t : GatewayService) : Event → List (Entry Dispatched Str)
  | .act c _ =>
    ((s.calls c).bind (fun call => (t.calls c).map (fun call' => call.logs call'.pc))).getD []
  | _ => []

/-- The log beside a run. -/
def logDispatch (l : List (Entry Dispatched Str)) (s : GatewayService) (e : Event)
    (t : GatewayService) : List (Entry Dispatched Str) := l ++ loggedBy s t e

/-- Any event of the service that deletes no row before its request expires. -/
structure RetainingStep (checkSchema : Json → Bool) (cipher : Cipher) (sha256 : Bytes → Str)
    (s : GatewayService) (e : Event) (t : GatewayService) : Prop where
  happens : Happens checkSchema cipher sha256 s e t
  retained : ∀ k row, s.db.requests.select k = some row → row.isClosed = true →
    s.clock < row.expiresAt.time → t.db.requests.select k = some row

variable {cipher : Cipher} {sha256 : Bytes → Str} {checkSchema : Json → Bool} {s t s₀ : GatewayService}
variable {call call' : InferCall} {c c' : ℕ} {pc pc' : Pc} {action : Action} {db : Database}
variable {active : Option ActiveAttempt} {now d d' : Datetime} {e : Event} {k attemptId : Str}
variable {row row' : Row} {settings : StoreSettings} {storeCall : StoreCall} {who : Identity}
variable {l : List (Entry Dispatched Str)}

/-! When an identity expires. -/

/-- A request of the identity expires then. -/
def Dated (checkSchema : Json → Bool) (sha256 : Bytes → Str) (who : Identity) (d : Datetime) : Prop :=
  ∃ request : InferenceRequest, request.Accepted checkSchema ∧
    request.canonicalDigest sha256 = .ok who.requestDigest ∧ request.expiresAt = d

/-- One digest, one expiry. -/
theorem dated_unique (hsha : Function.Injective sha256) (h : Dated checkSchema sha256 who d)
    (h' : Dated checkSchema sha256 who d') : d = d' := by
  obtain ⟨request, haccepted, hdigest, rfl⟩ := h
  obtain ⟨request', haccepted', hdigest', rfl⟩ := h'
  have hsame := (InferenceRequest.canonicalDigest_eq_iff hsha haccepted haccepted').mp
    (hdigest.trans hdigest'.symm)
  obtain ⟨-, htext, -⟩ := InferenceRequest.same_modelDump haccepted' hsame
  have hparses := request.requestExpiresAt.parses
  rw [htext, request'.requestExpiresAt.parses] at hparses
  exact (Option.some.inj hparses).symm

/-! What can move a row that is in progress. -/

/-- The attempt that a call of the store is for. -/
def StoreCall.attempt? : StoreCall → Option (Str × Str)
  | .markInProgress requestId attemptId _ => some (requestId, attemptId)
  | .resetReserved requestId attemptId _ => some (requestId, attemptId)
  | .markAmbiguous requestId attemptId _ => some (requestId, attemptId)
  | .markFailed requestId attemptId _ _ _ _ => some (requestId, attemptId)
  | .complete _ requestId attemptId _ _ _ _ _ => some (requestId, attemptId)
  | _ => none

theorem inProgress_kept (h : RowMove cipher k row storeCall row') (hstate : row.state = .inProgress)
    (hnow : storeCall.now < row.expiresAt.time) (hattempt : ∀ a, storeCall.attempt? ≠ some (k, a))
    (hstart : ∀ now, storeCall ≠ .initializeStore now) : row' = row := by
  cases h with
  | same => rfl
  | expire hcleans hopen hdue =>
    rw [isDue_of_lt hnow] at hdue
    cases hdue
  | recover h => exact (hstart _ rfl).elim
  | acknowledge h => cases hstate.symm.trans h
  | _ => exact (hattempt _ rfl).elim

/-- Only a reset makes a row reserved again, and no other move puts one in progress. -/
theorem unreserved_move (h : RowMove cipher k row storeCall row') (hstate : row.state ≠ .reserved) :
    (row'.state ≠ .reserved ∧ (row'.state = .inProgress → row' = row)) ∨
    ∃ attemptId now, storeCall = .resetReserved k attemptId now ∧ row.state = .inProgress ∧
      row.attemptId = some attemptId := by
  cases h with
  | same => exact .inl ⟨hstate, fun _ => rfl⟩
  | mark h => exact (hstate h).elim
  | reset h hattempt => exact .inr ⟨_, _, rfl, h, hattempt⟩
  | _ => refine .inl ⟨?_, ?_⟩ <;> intro he <;> cases he

/-- A row takes its attempt from a mark. -/
theorem attempt_move (h : RowMove cipher k row storeCall row') (hattempt : row'.attemptId = some attemptId) :
    row.attemptId = some attemptId ∨ ∃ now, storeCall = .markInProgress k attemptId now := by
  cases h with
  | mark h =>
    obtain rfl := Option.some.inj hattempt
    exact .inr ⟨_, rfl⟩
  | reset h hattempt' => cases hattempt
  | _ => exact .inl hattempt

/-- Calls of the store for an attempt are made by a call that holds the lane for it. -/
theorem attempt_storeCall (h : s.storeCall e = some (settings, storeCall))
    (hattempt : storeCall.attempt? = some (k, attemptId)) :
    ∃ c action call, e = .act c action ∧ s.calls c = some call ∧ call.request.requestId = k ∧
      ((call.pc = .claimed attemptId ∧ ∃ now, storeCall = .markInProgress k attemptId now) ∨
        (∃ outcome now nonce, action = .close now nonce ∧ call.pc = .settling attemptId outcome ∧
          storeCall = call.closingCall s attemptId now nonce outcome) ∨
        call.pc = .recovering attemptId ∧ ∃ now, storeCall = .markAmbiguous k attemptId now) := by
  cases e with
  | act c action =>
    obtain ⟨call, hget, hcall⟩ := Option.bind_eq_some_iff.mp h
    obtain ⟨storeCall', hstore, he⟩ := Option.map_eq_some_iff.mp hcall
    obtain ⟨rfl, rfl⟩ := Prod.mk.inj he
    refine ⟨c, action, call, rfl, hget, ?_⟩
    unfold InferCall.storeCall at hstore
    split at hstore
    · obtain rfl := Option.some.inj hstore
      cases hattempt
    · obtain rfl := Option.some.inj hstore
      cases hattempt
    · rename_i a now hpc
      obtain rfl := Option.some.inj hstore
      split_ifs at hattempt ⊢
      · cases hattempt
      · obtain ⟨rfl, rfl⟩ := Prod.mk.inj (Option.some.inj hattempt)
        exact ⟨rfl, .inl ⟨hpc, now, rfl⟩⟩
    · split_ifs at hstore
      obtain rfl := Option.some.inj hstore
      cases hattempt
    · rename_i a outcome now nonce hpc
      obtain rfl := Option.some.inj hstore
      have hids : call.request.requestId = k ∧ a = attemptId := by
        rcases outcome with (_ | _ | _) | _ <;> exact Prod.mk.inj (Option.some.inj hattempt)
      obtain ⟨rfl, rfl⟩ := hids
      exact ⟨rfl, .inr (.inl ⟨outcome, now, nonce, rfl, hpc, rfl⟩)⟩
    · obtain rfl := Option.some.inj hstore
      cases hattempt
    · rename_i a now hpc
      obtain rfl := Option.some.inj hstore
      obtain ⟨rfl, rfl⟩ := Prod.mk.inj (Option.some.inj hattempt)
      exact ⟨rfl, .inr (.inr ⟨hpc, now, rfl⟩)⟩
    · cases hstore
  | acknowledge credential requestId disposition now =>
    obtain ⟨-, rfl⟩ := Prod.mk.inj (Option.some.inj h)
    cases hattempt
  | maintain now =>
    obtain ⟨-, rfl⟩ := Prod.mk.inj (Option.some.inj h)
    cases hattempt
  | restart settings' version now =>
    obtain ⟨-, rfl⟩ := Prod.mk.inj (Option.some.inj h)
    cases hattempt
  | _ => cases h

/-- A row that has the attempt of a call after an event had it before, or was marked in it. -/
theorem attempt_event (h : ServiceStep cipher sha256 s e t) (hrow : t.db.requests.select k = some row)
    (hattempt : row.attemptId = some attemptId) :
    (∃ row₀, s.db.requests.select k = some row₀ ∧ row₀.attemptId = some attemptId ∧
      row₀.identity = row.identity) ∨
    ∃ c action call, e = .act c action ∧ s.calls c = some call ∧ call.pc = .claimed attemptId := by
  rcases h.keyMove k with ⟨-, hsame⟩ | ⟨settings, storeCall, hcall, hkey⟩
  · exact .inl ⟨row, hsame ▸ hrow, hattempt, rfl⟩
  · generalize hrow₀ : s.db.requests.select k = o at hkey
    rw [hrow] at hkey
    cases hkey with
    | moved hmove =>
      rcases attempt_move hmove hattempt with hbefore | ⟨now, rfl⟩
      · exact .inl ⟨_, rfl, hbefore, (rowMove_identity hmove).identity⟩
      · obtain ⟨c, action, call, he, hget, -, ⟨hpc, -⟩ | ⟨outcome, now', nonce, -, -, hclosing⟩ |
          ⟨-, now', hne⟩⟩ := attempt_storeCall hcall rfl
        · exact .inr ⟨c, action, call, he, hget, hpc⟩
        · rcases outcome with (_ | _ | _ | _ | _ | _) | _ <;> cases hclosing
        · cases hne
    | inserted hcall hid hlive hgone => cases hattempt

/-- A start of the store is that of a new process. -/
theorem storeCall_initialize (hcall : s.storeCall e = some (settings, .initializeStore now)) :
    ∃ (settings' : Settings) (version : ℤ), e = .restart settings' version now := by
  cases e with
  | restart settings' version now' =>
    obtain ⟨-, he⟩ := Prod.mk.inj (Option.some.inj hcall)
    obtain rfl := StoreCall.initializeStore.inj he
    exact ⟨settings', version, rfl⟩
  | act c action =>
    obtain ⟨call, -, hcall⟩ := Option.bind_eq_some_iff.mp hcall
    obtain ⟨storeCall', hstore, he⟩ := Option.map_eq_some_iff.mp hcall
    obtain ⟨-, rfl⟩ := Prod.mk.inj he
    unfold InferCall.storeCall at hstore
    split at hstore
    · cases hstore
    · cases hstore
    · split_ifs at hstore <;> cases hstore
    · split_ifs at hstore
      cases hstore
    · rename_i outcome now nonce hpc hact
      rcases outcome with (_ | _ | _) | _ <;> cases hstore
    · cases hstore
    · cases hstore
    · cases hstore
  | _ => cases hcall

/-- A new process has no calls. -/
theorem restart_calls (h : ServiceStep cipher sha256 s e t)
    (hcall : s.storeCall e = some (settings, .initializeStore now)) (c : ℕ) : t.calls c = none := by
  obtain ⟨settings', version, rfl⟩ := storeCall_initialize hcall
  cases h with
  | restart hclock hopens => rfl

/-! Where an attempt stands. -/

/-- The row is in progress for the call, as far as it knows. -/
def Pc.Attempting (attemptId : Str) (pc : Pc) : Prop :=
  pc = .marked attemptId ∨ pc = .dispatched attemptId ∨ ∃ outcome, pc = .settling attemptId outcome

theorem Pc.Attempting.holds (h : pc.Attempting attemptId) : pc.Holds := by
  rcases h with rfl | rfl | ⟨outcome, rfl⟩ <;> trivial

theorem not_attempting_ownerStep {α : Type} {a : Str} {next : α → Pc} {result : Except Raised α}
    (h : ∀ x, ¬ (next x).Attempting attemptId) : ¬ (ownerStep a next result).Attempting attemptId := by
  unfold ownerStep
  split
  · exact h _
  · split_ifs <;> simp [Pc.Attempting]

theorem not_attempting_closing {a : Str} {nonce : Bytes}
    {outcome : Except WorkerRaised WorkerResult} :
    ¬ (call.closing cipher s a now nonce outcome).1.Attempting attemptId := by
  unfold InferCall.closing
  split
  · exact not_attempting_ownerStep fun done => by cases done <;> simp [Pc.Attempting]
  all_goals exact not_attempting_ownerStep fun _ => by simp [Pc.Attempting]

theorem not_attempting_afterLane {settings : Settings} {record : RequestRecord} {a : Str} :
    ¬ (afterLane settings active c record a).1.Attempting attemptId := by
  unfold afterLane
  repeat' split
  all_goals simp [Pc.Attempting]

/-- An attempt is marked, dispatched and settled in this order. -/
theorem CallStep.attempting (h : CallStep cipher s call c pc action pc' db active)
    (hpc : pc'.Attempting attemptId) :
    (pc = .claimed attemptId ∧ pc' = .marked attemptId ∧ ∃ now record, transaction (markInProgress
        s.settings.store now call.request.requestId attemptId) s.db = (.ok record, db)) ∨
    (pc = .marked attemptId ∧ pc' = .dispatched attemptId ∧ db = s.db ∧
      ∃ now, action = .dispatch now ∧ now < call.request.expiresAt) ∨
    (pc = .dispatched attemptId ∧ db = s.db ∧ ∃ outcome, pc' = .settling attemptId outcome) := by
  cases h with
  | policy now => exact (not_holds_afterPolicy hpc.holds).elim
  | admission now r hr => exact (not_holds_afterAdmission hpc.holds).elim
  | lane record a => exact (not_attempting_afterLane hpc).elim
  | late a now r hat hexpired hr =>
    exact (not_attempting_ownerStep (fun _ => by simp [Pc.Attempting]) hpc).elim
  | mark a now r hlive hr =>
    obtain ⟨result, db⟩ := r
    cases result with
    | error e =>
      simp only [ownerStep] at hpc
      split_ifs at hpc <;> simp [Pc.Attempting] at hpc
    | ok record =>
      rcases hpc with he | he | ⟨outcome, he⟩
      · obtain rfl := Pc.marked.inj he
        exact .inl ⟨rfl, he, now, record, hr⟩
      · cases he
      · cases he
  | dispatch a now hlive =>
    rcases hpc with he | he | ⟨outcome, he⟩
    · cases he
    · obtain rfl := Pc.dispatched.inj he
      exact .inr (.inl ⟨rfl, rfl, rfl, now, rfl, hlive⟩)
    · cases he
  | outcome a outcome =>
    rcases hpc with he | he | ⟨outcome', he⟩
    · cases he
    · cases he
    · obtain ⟨rfl, rfl⟩ := Pc.settling.inj he
      exact .inr (.inr ⟨rfl, rfl, outcome, rfl⟩)
  | close a outcome now nonce r hr =>
    subst hr
    exact (not_attempting_closing hpc).elim
  | finish a now r hr =>
    exact (not_attempting_ownerStep (fun _ => by simp [Pc.Attempting]) hpc).elim
  | _ => rcases hpc with he | he | ⟨outcome, he⟩ <;> cases he

/-- A mark that returns has found the row reserved and puts it in progress. -/
theorem marked_row {record : RequestRecord} {db' : Database}
    (h : transaction (markInProgress settings now k attemptId) db = (.ok record, db')) :
    ∃ row, db.requests.select k = some row ∧ row.state = .reserved ∧
      db'.requests.select k = some (row.mark attemptId now) := by
  obtain ⟨t', hok, rfl⟩ := transaction_ok h
  obtain ⟨t₁, row, hclean, hrow, hstate, hset⟩ := markInProgress_ok hok
  have hmove := cleanMove_cleanup hclean k
  rw [hrow] at hmove
  exact ⟨row, hmove.eq_of_open (by simp [Row.isClosed, hstate]), hstate, by rw [hset, if_pos rfl]⟩

/-! What an event logs. -/

theorem loggedBy_steps {call' : InferCall} (h : StepsTo cipher s t e c call action call')
    (hget : t.calls c = some call') : loggedBy s t e = call.logs call'.pc := by
  simp only [h.event, loggedBy, h.before, hget, Option.bind_some, Option.map_some, Option.getD_some]

/-- An event logs nothing, a dispatch, or the end of an attempt. -/
theorem loggedBy_cases (h : ServiceStep cipher sha256 s e t) :
    loggedBy s t e = [] ∨ ∃ c call action call', StepsTo cipher s t e c call action call' ∧
      t.calls c = some call' ∧ ∃ attemptId,
        ((call.pc = .marked attemptId ∧ ∃ a, call'.pc = .dispatched a) ∧
          loggedBy s t e = [.opened call.dispatched attemptId]) ∨
        (∃ outcome, call.pc = .settling attemptId outcome) ∧
          loggedBy s t e = [.closed call.dispatched attemptId] := by
  cases h with
  | act hget hreads hstep =>
    rename_i c action call pc db active
    have hsteps : StepsTo cipher s (s.after c call pc db active) (.act c action) c call action
        { call with since := s.clock, pc := pc } :=
      ⟨rfl, hget, rfl, rfl, rfl, rfl, hreads, hstep⟩
    rw [loggedBy_steps hsteps after_self]
    unfold InferCall.logs
    split
    · rename_i a b hpc hpc'
      exact .inr ⟨c, call, action, _, hsteps, after_self, a, .inl ⟨⟨hpc, b, hpc'⟩, rfl⟩⟩
    · rename_i a message failure hpc hpc'
      exact .inr ⟨c, call, action, _, hsteps, after_self, a, .inr ⟨⟨_, hpc⟩, rfl⟩⟩
    · exact .inl rfl
  | _ => exact .inl rfl

/-- A reset that finds a row is logged. -/
theorem reset_logged (h : ServiceStep cipher sha256 s e t)
    (hcall : s.storeCall e = some (settings, .resetReserved k attemptId now))
    (hrow : s.db.requests.select k = some row) :
    ∃ c call outcome, s.calls c = some call ∧ call.request.requestId = k ∧
      call.pc = .settling attemptId outcome ∧
      loggedBy s t e = [.closed call.dispatched attemptId] := by
  obtain ⟨c, action, call, rfl, hget, hid, ⟨-, now', hne⟩ | ⟨outcome, now', nonce, rfl, hpc, hclosing⟩ |
    ⟨-, now', hne⟩⟩ := attempt_storeCall hcall rfl
  · cases hne
  · refine ⟨c, call, outcome, hget, hid, hpc, ?_⟩
    have hunavailable : ∃ message, outcome = .error (.unavailable message) := by
      rcases outcome with (message | _ | _ | _ | _ | _) | _
      · exact ⟨message, rfl⟩
      all_goals cases hclosing
    obtain ⟨message, rfl⟩ := hunavailable
    have hversion : ∃ version, s.db.version = some version := by
      refine Option.ne_none_iff_exists'.mp fun hnone => ?_
      rw [s.db.created hnone] at hrow
      simp at hrow
    obtain ⟨version, hversion⟩ := hversion
    cases h with
    | act hget' hreads hstep =>
      rename_i call' pc db active
      obtain rfl := Option.some.inj (hget.symm.trans hget')
      have hsteps : StepsTo cipher s (s.after c call pc db active) (.act c (.close now' nonce)) c call
          (.close now' nonce) { call with since := s.clock, pc := pc } :=
        ⟨rfl, hget, rfl, rfl, rfl, rfl, hreads, hstep⟩
      rw [loggedBy_steps hsteps after_self]
      rw [hpc] at hstep
      cases hstep with
      | late a now r hat hexpired hr => rcases hat with ⟨he, -⟩ | ⟨he, -⟩ <;> cases he
      | close a outcome now nonce r hr =>
        subst hr
        have hreset : resetReserved now' call.request.requestId attemptId s.db.requests =
            .ok ((), _) := rfl
        simp only [InferCall.closing, transaction_of_ok hversion hreset, ownerStep, failLater,
          InferCall.logs, hpc]
  · cases hne

end Gateway
