import Gateway.Service.Dispatch
import Gateway.Service.SharedResult

/-! Effective dispatch is at most once, in every interleaving and across crashes. -/
namespace Gateway

open Openings (Entry Pending Exclusive)
open Transition (Run Recording run_of_foldlM)

variable {cipher : Cipher} {sha256 : Bytes → Str} {checkSchema : Json → Bool} {s t s₀ : GatewayService}
variable {call call' : InferCall} {c c' : ℕ} {now d : Datetime} {e : Event} {k attemptId : Str}
variable {row row' : Row} {settings : StoreSettings} {storeCall : StoreCall} {who : Identity}
variable {l : List (Entry Dispatched Str)}

/-- The call counts on its attempt: once marked, while it may still be dispatched. -/
def InferCall.Attempts (attemptId : Str) (call : InferCall) : Prop :=
  call.pc.Attempting attemptId ∧
    (call.pc = .marked attemptId → call.since < call.request.expiresAt)

/-- A pending invocation of a live request has its row, which is not reserved again. -/
def Occupied (s : GatewayService) (key : Dispatched) (attemptId : Str) : Prop :=
  ∃ row, s.db.requests.select key.requestId = some row ∧ row.identity = key.who ∧
    row.state ≠ .reserved ∧ (row.state = .inProgress → row.attemptId = some attemptId)

structure DispatchInvariant (checkSchema : Json → Bool) (sha256 : Bytes → Str) (s : GatewayService)
    (l : List (Entry Dispatched Str)) : Prop where
  rows : Rows (fun row => Dated checkSchema sha256 row.identity row.expiresAt.time) s.db.requests
  dated : ∀ c call, s.calls c = some call →
    Dated checkSchema sha256 call.identity call.request.expiresAt
  since : Timely s
  policed : ∀ c call now, s.calls c = some call → call.pc = .policed now → now ≤ s.clock
  lane : LaneHeld s
  owned : ∀ c call, s.calls c = some call → call.pc.Admitted → s.clock < call.request.expiresAt →
    ∃ row, s.db.requests.select call.request.requestId = some row ∧ row.identity = call.identity
  attempted : ∀ c call attemptId row, s.calls c = some call → call.Attempts attemptId →
    s.db.requests.select call.request.requestId = some row → row.attemptId = some attemptId →
    row.identity = call.identity
  marked : ∀ c call attemptId, s.calls c = some call → call.pc = .marked attemptId →
    call.since < call.request.expiresAt →
    (∀ a, ¬ Pending l call.dispatched a) ∧ (s.clock < call.request.expiresAt →
      ∃ row, s.db.requests.select call.request.requestId = some row ∧ row.state = .inProgress ∧
        row.attemptId = some attemptId)
  opened : ∀ key a d, Pending l key a → Dated checkSchema sha256 key.who d → s.clock < d →
    Occupied s key a
  once : Exclusive l

theorem Pc.Attempting.admitted {pc : Pc} (h : pc.Attempting attemptId) : pc.Admitted := by
  rcases h with rfl | rfl | ⟨outcome, rfl⟩ <;> trivial

section Step

variable (hsha : Function.Injective sha256) (h : RetainingStep checkSchema cipher sha256 s e t)
variable (hs : DispatchInvariant checkSchema sha256 s l)

include h hs in
theorem dated_step (hget : t.calls c = some call) :
    Dated checkSchema sha256 call.identity call.request.expiresAt := by
  have hpromised := h.happens.promised
  cases serviceStep_of_next h.happens.next with
  | arrive hfree hdigest =>
    simp only [Function.update_apply] at hget
    split_ifs at hget
    · obtain rfl := Option.some.inj hget
      exact ⟨_, hpromised.1, hdigest, rfl⟩
    · exact hs.dated c call hget
  | act hget' hreads hstep =>
    simp only [GatewayService.after, Function.update_apply] at hget
    split_ifs at hget
    · obtain rfl := Option.some.inj hget
      have hdated := hs.dated _ _ hget'
      exact hdated
    · exact hs.dated c call hget
  | restart hclock hopens => cases hget
  | _ => exact hs.dated c call hget

include h hs in
theorem policed_step (hget : t.calls c = some call) (hpc : call.pc = .policed now) : now ≤ t.clock := by
  have hnext := serviceStep_of_next h.happens.next
  rcases hnext.calls hget with hsame | harrived | ⟨call₀, action, hsteps⟩
  · exact (hs.policed c call now hsame hpc).trans (clock_step hnext)
  · rw [harrived] at hpc
    cases hpc
  · have hstep := hsteps.step
    rw [hpc] at hstep
    rw [hsteps.clock]
    exact (hsteps.reads now (hstep.policed ▸ rfl)).2

include hsha hs in
/-- The row of a live identity expires when it does. -/
theorem expiry_eq (hrow : s.db.requests.select k = some row) (hid : row.identity = who)
    (hd : Dated checkSchema sha256 who d) : row.expiresAt.time = d :=
  dated_unique hsha (hid ▸ hs.rows k row hrow) hd

include hsha h hs in
/-- A row whose request lives is kept. -/
theorem live_event (hrow : s.db.requests.select k = some row) (hid : row.identity = who)
    (hd : Dated checkSchema sha256 who d) (hlive : s.clock < d) :
    ∃ row', t.db.requests.select k = some row' ∧
      ((s.storeCall e = none ∧ row' = row) ∨ ∃ settings storeCall,
        s.storeCall e = some (settings, storeCall) ∧ RowMove cipher k row storeCall row') :=
  move_event (serviceStep_of_next h.happens.next) hrow fun hclosed =>
    h.retained k row hrow hclosed (by rwa [expiry_eq hsha hs hrow hid hd])

include hsha h hs in
theorem owned_step (hget : t.calls c = some call) (hpc : call.pc.Admitted)
    (hlive : t.clock < call.request.expiresAt) :
    ∃ row, t.db.requests.select call.request.requestId = some row ∧
      row.identity = call.identity := by
  have hnext := serviceStep_of_next h.happens.next
  rcases admitted_event hnext hget hpc with ⟨call₀, hget₀, hrequest, hid, hpc₀⟩ | hrow
  · have hlive₀ : s.clock < call₀.request.expiresAt := by
      rw [hrequest]
      exact (clock_step hnext).trans_lt hlive
    obtain ⟨row, hrow, howner⟩ := hs.owned c call₀ hget₀ hpc₀ hlive₀
    obtain ⟨row', hrow', hmove⟩ := live_event hsha h hs hrow howner (hs.dated c call₀ hget₀) hlive₀
    have hsame : row.identity = row'.identity := by
      rcases hmove with ⟨-, rfl⟩ | ⟨settings, storeCall, -, hmove⟩
      · rfl
      · exact (rowMove_identity hmove).identity
    rw [hrequest] at hrow'
    exact ⟨row', hrow', (hsame.symm.trans howner).trans hid⟩
  · exact hrow

include hsha h hs in
theorem attempted_step (hget : t.calls c = some call) (hattempts : call.Attempts attemptId)
    (hrow : t.db.requests.select call.request.requestId = some row)
    (hattempt : row.attemptId = some attemptId) : row.identity = call.identity := by
  have hnext := serviceStep_of_next h.happens.next
  obtain ⟨hpc, hsince⟩ := hattempts
  rcases hnext.calls hget with hsame | harrived | ⟨call₀, action, hsteps⟩
  · rcases attempt_event hnext hrow hattempt with ⟨row₀, hrow₀, hattempt₀, hid⟩ |
      ⟨c', action, call', -, hget', hpc'⟩
    · rw [← hid]
      exact hs.attempted c call attemptId row₀ hsame ⟨hpc, hsince⟩ hrow₀ hattempt₀
    · have hc := hs.lane.unique hsame hpc.holds hget' (by rw [hpc']; trivial)
      subst hc
      obtain rfl := Option.some.inj (hsame.symm.trans hget')
      rw [hpc'] at hpc
      rcases hpc with he | he | ⟨outcome, he⟩ <;> cases he
  · rw [harrived] at hpc
    rcases hpc with he | he | ⟨outcome, he⟩ <;> cases he
  · rcases hsteps.step.attempting hpc with ⟨hclaimed, hmarked, -⟩ |
      ⟨hmarked, hdispatched, hdb, now, hnow, hlive⟩ | ⟨hdispatched, hdb, -⟩
    · -- marked just now, so the row that is there is the call's own
      have hlive : t.clock < call.request.expiresAt := by
        rw [hsteps.clock, ← hsteps.since]
        exact hsince hmarked
      obtain ⟨row', hrow', howner⟩ := owned_step hsha h hs hget (Pc.Attempting.admitted hpc) hlive
      obtain rfl := Option.some.inj (hrow.symm.trans hrow')
      exact howner
    · have hread := (hsteps.reads now (hnow ▸ rfl)).1
      rw [hdb, ← hsteps.request] at hrow
      rw [← hsteps.identity]
      exact hs.attempted c call₀ attemptId row hsteps.before
        ⟨.inl hmarked, fun _ => hread.trans_lt hlive⟩ hrow hattempt
    · rw [hdb, ← hsteps.request] at hrow
      rw [← hsteps.identity]
      refine hs.attempted c call₀ attemptId row hsteps.before ⟨.inr (.inl hdispatched), ?_⟩ hrow hattempt
      rw [hdispatched]
      intro he
      cases he

include h in
/-- What is pending after an event was dispatched in it, or was pending and not reset in it. -/
theorem pending_event {key : Dispatched} (hpending : Pending (logDispatch l s e t) key attemptId) :
    (Pending l key attemptId ∧ loggedBy s t e ≠ [.closed key attemptId]) ∨
    ∃ c call action call', StepsTo cipher s t e c call action call' ∧ t.calls c = some call' ∧
      call.pc = .marked attemptId ∧ (∃ a, call'.pc = .dispatched a) ∧ key = call.dispatched := by
  unfold logDispatch at hpending
  rcases loggedBy_cases (serviceStep_of_next h.happens.next) with hnone |
    ⟨c, call, action, call', hsteps, hget, a, ⟨⟨hpc, hpc'⟩, hlog⟩ | ⟨hpc, hlog⟩⟩
  · rw [hnone, List.append_nil] at hpending
    exact .inl ⟨hpending, by simp [hnone]⟩
  · rw [hlog] at hpending ⊢
    rcases Openings.pending_snoc hpending with hopened | ⟨hbefore, hne⟩
    · obtain ⟨rfl, rfl⟩ := Entry.opened.inj hopened
      exact .inr ⟨c, call, action, call', hsteps, hget, hpc, hpc', rfl⟩
    · exact .inl ⟨hbefore, fun he => hne (List.singleton_inj.mp he)⟩
  · rw [hlog] at hpending ⊢
    rcases Openings.pending_snoc hpending with hopened | ⟨hbefore, hne⟩
    · cases hopened
    · exact .inl ⟨hbefore, fun he => hne (List.singleton_inj.mp he)⟩

/-- A dispatch is read before its request expires, at a time after its mark. -/
theorem dispatched_in_time {call' : InferCall} {action : Action}
    (hsteps : StepsTo cipher s t e c call action call') (hpc : call.pc = .marked attemptId)
    (hpc' : ∃ a, call'.pc = .dispatched a) :
    call.since < call.request.expiresAt ∧ t.db = s.db := by
  obtain ⟨a, hpc'⟩ := hpc'
  have hattempting : call'.pc.Attempting a := .inr (.inl hpc')
  rcases hsteps.step.attempting hattempting with ⟨-, he, -⟩ |
    ⟨-, -, hdb, now, hnow, hlive⟩ | ⟨he, -⟩
  · cases hpc'.symm.trans he
  · exact ⟨(hsteps.reads now (hnow ▸ rfl)).1.trans_lt hlive, hdb⟩
  · cases hpc.symm.trans he

include hsha h hs in
/-- While a mark may still be dispatched, its row stays in progress. -/
theorem marked_kept (hget : s.calls c = some call) (hget' : t.calls c = some call)
    (hpc : call.pc = .marked attemptId) (hlive : s.clock < call.request.expiresAt)
    (hrow : s.db.requests.select call.request.requestId = some row) (hstate : row.state = .inProgress) :
    t.db.requests.select call.request.requestId = some row := by
  have hnext := serviceStep_of_next h.happens.next
  have hadmitted : call.pc.Admitted := by
    rw [hpc]
    trivial
  obtain ⟨row₁, hrow₁, howner⟩ := hs.owned c call hget hadmitted hlive
  obtain rfl := Option.some.inj (hrow.symm.trans hrow₁)
  have hexpiry := expiry_eq hsha hs hrow howner (hs.dated c call hget)
  obtain ⟨row', hrow', ⟨-, rfl⟩ | ⟨settings, storeCall, hcall, hmove⟩⟩ :=
    live_event hsha h hs hrow howner (hs.dated c call hget) hlive
  · exact hrow'
  · rw [hrow', inProgress_kept hmove hstate ?_ ?_ ?_]
    · rw [hexpiry]
      exact (storeCall_now hnext hs.policed hcall).trans_lt hlive
    · intro a hattempt
      obtain ⟨c', action, call', -, hget₁, -, hwhere⟩ := attempt_storeCall hcall hattempt
      have hholds : call'.pc.Holds := by
        rcases hwhere with ⟨he, -⟩ | ⟨outcome, now, nonce, -, he, -⟩ | ⟨he, -⟩ <;>
          · rw [he]
            trivial
      obtain rfl := hs.lane.unique hget (by rw [hpc]; trivial) hget₁ hholds
      obtain rfl := Option.some.inj (hget.symm.trans hget₁)
      rw [hpc] at hwhere
      rcases hwhere with ⟨he, -⟩ | ⟨outcome, now, nonce, -, he, -⟩ | ⟨he, -⟩ <;> cases he
    · rintro now rfl
      simp [restart_calls hnext hcall] at hget'

include hsha h hs in
theorem marked_step (hget : t.calls c = some call) (hpc : call.pc = .marked attemptId)
    (hsince : call.since < call.request.expiresAt) :
    (∀ a, ¬ Pending (logDispatch l s e t) call.dispatched a) ∧ (t.clock < call.request.expiresAt →
      ∃ row, t.db.requests.select call.request.requestId = some row ∧ row.state = .inProgress ∧
        row.attemptId = some attemptId) := by
  have hnext := serviceStep_of_next h.happens.next
  rcases hnext.calls hget with hsame | harrived | ⟨call₀, action, hsteps⟩
  · obtain ⟨hnone, hrow⟩ := hs.marked c call attemptId hsame hpc hsince
    refine ⟨fun a hpending => ?_, fun hlive => ?_⟩
    · rcases pending_event h hpending with ⟨hbefore, -⟩ |
        ⟨c', call₁, action, call', hsteps, hget', hpc₁, ⟨a', hpc'⟩, -⟩
      · exact hnone a hbefore
      · obtain rfl := hs.lane.unique hsame (by rw [hpc]; trivial) hsteps.before (by rw [hpc₁]; trivial)
        obtain rfl := Option.some.inj (hget.symm.trans hget')
        cases hpc.symm.trans hpc'
    · have hlive₀ := (clock_step hnext).trans_lt hlive
      obtain ⟨row, hrow, hstate, hattempt⟩ := hrow hlive₀
      exact ⟨row, marked_kept hsha h hs hsame hget hpc hlive₀ hrow hstate, hstate, hattempt⟩
  · cases hpc.symm.trans harrived
  · rcases hsteps.step.attempting (.inl hpc) with ⟨hclaimed, -, now, record, hmark⟩ | ⟨-, he, -⟩ |
      ⟨-, -, outcome, he⟩
    · obtain ⟨row, hrow, hstate, hrow'⟩ := marked_row hmark
      refine ⟨fun a hpending => ?_, fun _ => ⟨_, hsteps.request ▸ hrow', rfl, rfl⟩⟩
      rcases pending_event h hpending with ⟨hbefore, -⟩ | ⟨c', call₁, action, call', hsteps', -, hpc₁, -⟩
      · -- a pending invocation would have kept the row from being reserved
        have hdispatched : call.dispatched = call₀.dispatched := by
          rw [InferCall.dispatched, InferCall.dispatched, hsteps.request, hsteps.identity]
        have hlive : s.clock < call₀.request.expiresAt := by
          rw [hsteps.request, ← hsteps.since]
          exact hsince
        rw [hdispatched] at hbefore
        obtain ⟨row₁, hrow₁, -, hne, -⟩ := hs.opened _ a _ hbefore (hs.dated c call₀ hsteps.before) hlive
        obtain rfl := Option.some.inj (hrow.symm.trans hrow₁)
        exact hne hstate
      · obtain rfl := hs.lane.unique hsteps.before (by rw [hclaimed]; trivial) hsteps'.before
          (by rw [hpc₁]; trivial)
        obtain rfl := Option.some.inj (hsteps.before.symm.trans hsteps'.before)
        cases hclaimed.symm.trans hpc₁
    · cases hpc.symm.trans he
    · cases hpc.symm.trans he

include hsha h hs in
theorem occupied_step {key : Dispatched} (hpending : Pending (logDispatch l s e t) key attemptId)
    (hd : Dated checkSchema sha256 key.who d) (hlive : t.clock < d) : Occupied t key attemptId := by
  have hnext := serviceStep_of_next h.happens.next
  have hlive₀ := (clock_step hnext).trans_lt hlive
  rcases pending_event h hpending with ⟨hbefore, hlog⟩ |
    ⟨c, call, action, call', hsteps, -, hpc, hpc', rfl⟩
  · obtain ⟨row, hrow, hid, hne, hattempt⟩ := hs.opened key attemptId d hbefore hd hlive₀
    obtain ⟨row', hrow', ⟨-, rfl⟩ | ⟨settings, storeCall, hcall, hmove⟩⟩ :=
      live_event hsha h hs hrow hid hd hlive₀
    · exact ⟨row', hrow', hid, hne, hattempt⟩
    · rcases unreserved_move hmove hne with ⟨hne', hsame⟩ | ⟨a, now, rfl, hstate, ha⟩
      · refine ⟨row', hrow', (rowMove_identity hmove).identity.symm.trans hid, hne', fun hstate => ?_⟩
        obtain rfl := hsame hstate
        exact hattempt hstate
      · -- the reset of this very attempt is in the log
        obtain rfl := Option.some.inj (ha.symm.trans (hattempt hstate))
        obtain ⟨c, call, outcome, hget, hcall, hpc, hclosed⟩ := reset_logged hnext hcall hrow
        have hattempts : call.Attempts a :=
          ⟨.inr (.inr ⟨outcome, hpc⟩), fun he => by cases hpc.symm.trans he⟩
        have howner := hs.attempted c call a row hget hattempts (hcall ▸ hrow) ha
        have hkey : call.dispatched = key := by
          rw [InferCall.dispatched, hcall, ← howner, hid]
        rw [hkey] at hclosed
        exact (hlog hclosed).elim
  · obtain ⟨hsince, hdb⟩ := dispatched_in_time hsteps hpc hpc'
    obtain rfl := dated_unique hsha (hs.dated c call hsteps.before) hd
    obtain ⟨row, hrow, hstate, hattempt⟩ := (hs.marked c call attemptId hsteps.before hpc hsince).2 hlive₀
    have hadmitted : call.pc.Admitted := by
      rw [hpc]
      trivial
    obtain ⟨row₁, hrow₁, howner⟩ := hs.owned c call hsteps.before hadmitted hlive₀
    obtain rfl := Option.some.inj (hrow.symm.trans hrow₁)
    exact ⟨row, hdb ▸ hrow, howner, by simp [hstate], fun _ => hattempt⟩

include h hs in
theorem once_step : Exclusive (logDispatch l s e t) := by
  unfold logDispatch
  rcases loggedBy_cases (serviceStep_of_next h.happens.next) with hnone |
    ⟨c, call, action, call', hsteps, -, a, ⟨⟨hpc, hpc'⟩, hlog⟩ | ⟨-, hlog⟩⟩
  · rw [hnone, List.append_nil]
    exact hs.once
  · rw [hlog]
    refine Openings.exclusive_snoc hs.once fun key b he => ?_
    obtain ⟨rfl, -⟩ := Entry.opened.inj he
    exact (hs.marked c call a hsteps.before hpc (dispatched_in_time hsteps hpc hpc').1).1
  · rw [hlog]
    exact Openings.exclusive_snoc hs.once fun key b he => by cases he

include hsha h hs in
theorem dispatchInvariant_step : DispatchInvariant checkSchema sha256 t (logDispatch l s e t) := by
  have hnext := serviceStep_of_next h.happens.next
  refine ⟨?_, fun c call => dated_step h hs, timely_step hnext hs.since,
    fun c call now => policed_step h hs, laneHeld_step hnext hs.lane,
    fun c call => owned_step hsha h hs, fun c call a row => attempted_step hsha h hs,
    fun c call a => marked_step hsha h hs, fun key a d => occupied_step hsha h hs, once_step h hs⟩
  refine hnext.rows (fun row row' hid hdated => ?_) (fun c call now hget => hs.dated c call hget) hs.rows
  rw [← hid.identity, ← hid.expiresAt]
  exact hdated

end Step

/-! Runs. -/

theorem dispatchInvariant_started (h : Started s) : DispatchInvariant checkSchema sha256 s [] := by
  obtain ⟨-, hcalls, hrows⟩ := started_empty h
  constructor
  · intro k row hrow
    simp [hrows] at hrow
  · intro c call hget
    simp [hcalls] at hget
  · intro c call hget
    simp [hcalls] at hget
  · intro c call now hget
    simp [hcalls] at hget
  · exact laneHeld_started h
  · intro c call hget
    simp [hcalls] at hget
  · intro c call a row hget
    simp [hcalls] at hget
  · intro c call a hget
    simp [hcalls] at hget
  · exact fun key a d hpending => (Openings.not_pending_nil hpending).elim
  · exact Openings.exclusive_nil

/-- One call of the worker at a time, a free lane in a free process, and between two invocations for
one identity the first has ended in `WorkerUnavailable` and its reset has been committed. -/
structure AtMostOnce (s : GatewayService) (l : List (Entry Dispatched Str)) : Prop where
  single : ∀ c c' call call' a a', s.calls c = some call → call.pc = .dispatched a →
    s.calls c' = some call' → call'.pc = .dispatched a' → c = c'
  free : (∀ c call, s.calls c = some call → ∃ result, call.pc = .done result) → s.active = none
  again : ∀ before key a b between after,
    l = before ++ .opened key b :: (between ++ .opened key a :: after) → .closed key b ∈ between

/-- In every run from the first start that deletes no row before its request expires. -/
theorem dispatch_at_most_once (hsha : Function.Injective sha256) (hstart : Started s₀)
    {events : List Event}
    (hrun : Run (Recording (RetainingStep checkSchema cipher sha256) logDispatch) (s₀, []) events
      (s, l)) : AtMostOnce s l := by
  have hinvariant : DispatchInvariant checkSchema sha256 s l := by
    refine hrun.invariant (P := fun p : GatewayService × List (Entry Dispatched Str) =>
      DispatchInvariant checkSchema sha256 p.1 p.2) ?_ (dispatchInvariant_started hstart)
    rintro ⟨s, l⟩ e ⟨t, l'⟩ ⟨hstep, hlog⟩ hs
    obtain rfl : l' = logDispatch l s e t := hlog
    exact dispatchInvariant_step hsha hstep hs
  refine ⟨?_, hinvariant.lane.free, fun before key a b between after =>
    hinvariant.once.closed_between⟩
  intro c c' call call' a a' hget hpc hget' hpc'
  exact hinvariant.lane.unique hget (by rw [hpc]; trivial) hget' (by rw [hpc']; trivial)

/-! A request that is dispatched again. -/

/-- The canonical bytes of the sample request. -/
def sampleBytes : Bytes :=
  match encodeJsonBytes (sampleRequest false).modelDump true with
  | .ok b => b
  | .error _ => []

/-- A hash without collisions that agrees with the real one on the sample. -/
def injectiveSha256 (b : Bytes) : Str := if b = sampleBytes then sampleSha256 b else 0 :: b

theorem injectiveSha256_injective : Function.Injective injectiveSha256 := by
  have hhead : ∀ b c, sampleSha256 b ≠ 0 :: c := by
    intro b c he
    have hhead := congrArg List.head? he
    have hdigest : (sampleSha256 b).head? = some 98 := rfl
    rw [hdigest] at hhead
    cases hhead
  intro b c he
  unfold injectiveSha256 at he
  split_ifs at he with hb hc hc
  · rw [hb, hc]
  · exact (hhead _ _ he).elim
  · exact (hhead _ _ he.symm).elim
  · exact (List.cons.inj he).2

/-- The worker cannot be reached, the attempt is reset, and an exact repeat is dispatched. -/
def redispatchedEvents : List Event :=
  let six := sampleMoment 18 0 0 0
  let asked (c : ℕ) (attemptId : Str) : List Event :=
    [.arrive c sampleCredential (sampleRequest false), .act c (.policy six), .act c .admission,
      .act c (.lane attemptId), .act c (.mark six), .act c (.dispatch six)]
  asked 0 (str "a0") ++ [.act 0 (.outcome (.error (.unavailable "worker connection was unavailable"))),
    .act 0 (.close six [0]), .act 0 .release] ++ asked 1 (str "a1")

theorem redispatched_promised : ∀ e ∈ redispatchedEvents, e.Promised (fun _ => true) := by
  have hascii : Template.Ascii sampleCredential.identityHash := by decide
  simp only [redispatchedEvents, List.cons_append, List.nil_append, List.forall_mem_cons]
  simp only [Event.Promised, sampleRequest_accepted, hascii, List.not_mem_nil, false_implies,
    implies_true, and_self]

def redispatched : Dispatched :=
  ⟨(sampleRequest false).requestId, sampleCredential.identityHash, sampleSha256 sampleBytes⟩

/-- Both invocations are in the log, the reset of the first between them. -/
def redispatchedLog : List (Entry Dispatched Str) :=
  [.opened redispatched (str "a0"), .closed redispatched (str "a0"), .opened redispatched (str "a1")]

/-- An event at a time when no row is closed, with the log beside it. -/
def nextLogged (p : GatewayService × List (Entry Dispatched Str)) (e : Event) :
    Option (GatewayService × List (Entry Dispatched Str)) :=
  if p.1.db.requests.rows.all (fun row => !row.isClosed) then
    (p.1.next plainCipher injectiveSha256 e).map (fun t => (t, logDispatch p.2 p.1 e t))
  else none

theorem recording_of_nextLogged {p q : GatewayService × List (Entry Dispatched Str)}
    (he : e ∈ redispatchedEvents) (h : nextLogged p e = some q) :
    Recording (RetainingStep (fun _ => true) plainCipher injectiveSha256) logDispatch p e q := by
  unfold nextLogged at h
  split_ifs at h with hopen
  obtain ⟨t, hnext, rfl⟩ := Option.map_eq_some_iff.mp h
  refine ⟨⟨⟨hnext, redispatched_promised e he⟩, fun k row hrow hclosed => ?_⟩, rfl⟩
  have hrowOpen := List.all_eq_true.mp hopen row (KeyedTable.mem_of_select hrow)
  simp [hclosed] at hrowOpen

/-- The request is dispatched twice. -/
theorem dispatch_at_most_once_again : ∃ s₀ s : GatewayService, startedAtSix = some s₀ ∧
    Run (Recording (RetainingStep (fun _ => true) plainCipher injectiveSha256) logDispatch) (s₀, [])
      redispatchedEvents (s, redispatchedLog) ∧ AtMostOnce s redispatchedLog := by
  have hresult : (startedAtSix.bind (fun s => redispatchedEvents.foldlM nextLogged (s, []))).map
      Prod.snd = some redispatchedLog := by
    decide +kernel
  obtain ⟨⟨s, l⟩, hplayed, rfl⟩ := Option.map_eq_some_iff.mp hresult
  obtain ⟨s₀, hstart, hplay⟩ := Option.bind_eq_some_iff.mp hplayed
  have hrun : Run (Recording (RetainingStep (fun _ => true) plainCipher injectiveSha256) logDispatch)
      (s₀, []) redispatchedEvents (s, redispatchedLog) :=
    run_of_foldlM (fun _ _ _ he h => recording_of_nextLogged he h) hplay
  have hstarted : Started s₀ := ⟨shortRetention, 2, sampleMoment 18 0 0 0, by norm_num, hstart⟩
  exact ⟨s₀, s, hstart, hrun,
    dispatch_at_most_once injectiveSha256_injective hstarted hrun⟩

end Gateway
