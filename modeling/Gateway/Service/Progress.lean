import Gateway.Service.Attempts

/-! Calls end: each takes few steps, can always take its next one, and waits for one that can. -/
namespace Gateway

open Template (Ascii)
open Transition (Run Reachable)

variable {cipher : Cipher} {sha256 : Bytes → Str} {checkSchema : Json → Bool} {s t : GatewayService}
variable {call call' : InferCall} {c c' : ℕ} {pc pc' : Pc} {action : Action} {db : Database}
variable {active : Option ActiveAttempt} {attempt : ActiveAttempt} {e : Event}

/-! Waiting. -/

/-- The attempt is one for the same request, under way on the lane or ended. -/
def WaitsFor (s : GatewayService) (call : InferCall) (attempt : ActiveAttempt) : Prop :=
  ∃ owner, s.calls attempt.owner = some owner ∧ owner.request.requestId = call.request.requestId ∧
    (s.active = some attempt ∧ owner.pc.Holds ∨ ∃ result, owner.pc = .done result)

/-- Whoever waits, waits for an attempt at its own request. -/
def Waits (s : GatewayService) : Prop :=
  ∀ c call attempt, s.calls c = some call → call.pc = .waiting attempt → WaitsFor s call attempt

theorem ownerStep_not_waiting {α : Type} {attemptId : Str} {next : α → Pc} {result : Except Raised α}
    (h : ∀ x, next x ≠ .waiting attempt) : ownerStep attemptId next result ≠ .waiting attempt := by
  unfold ownerStep
  split
  · exact h _
  · split_ifs <;> simp

/-- A call comes to wait for the attempt that is on the lane, at the record it was admitted with. -/
theorem CallStep.waiting (h : CallStep cipher s call c pc action (.waiting attempt) db active) :
    s.active = some attempt ∧ active = s.active ∧
      ∃ record, pc = .admitted record ∧ attempt.requestId = record.requestId := by
  generalize hpc' : Pc.waiting attempt = pc' at h
  cases h with
  | policy now =>
    cases hp : validatePolicy s.settings call.credential call.request now <;>
      simp [hp, afterPolicy] at hpc'
  | admission now r hr =>
    unfold afterAdmission at hpc'
    repeat' split at hpc'
    all_goals cases hpc'
  | lane record attemptId =>
    unfold afterLane at hpc' ⊢
    repeat' split at hpc'
    all_goals first
      | cases hpc'; done
      | simp_all
  | late attemptId now r hat hexpired hr =>
    exact (ownerStep_not_waiting (fun _ => by simp) hpc'.symm).elim
  | mark attemptId now r hlive hr => exact (ownerStep_not_waiting (fun _ => by simp) hpc'.symm).elim
  | close attemptId outcome now nonce r hr =>
    subst hr
    unfold InferCall.closing at hpc'
    split at hpc'
    · exact (ownerStep_not_waiting (fun done => by cases done <;> simp) hpc'.symm).elim
    all_goals exact (ownerStep_not_waiting (fun _ => by simp) hpc'.symm).elim
  | finish attemptId now r hr => exact (ownerStep_not_waiting (fun _ => by simp) hpc'.symm).elim
  | _ => cases hpc'

/-- Whoever leaves the lane has ended. -/
theorem CallStep.ended (h : CallStep cipher s call c pc action pc' db active) (hholds : pc.Holds)
    (hnot : ¬ pc'.Holds) : ∃ result, pc' = .done result := by
  cases h with
  | late attemptId now r hat hexpired hr => exact (hnot (holds_ownerStep fun _ => trivial)).elim
  | mark attemptId now r hlive hr => exact (hnot (holds_ownerStep fun _ => trivial)).elim
  | close attemptId outcome now nonce r hr =>
    subst hr
    exact (hnot holds_closing).elim
  | finish attemptId now r hr => exact (hnot (holds_ownerStep fun _ => trivial)).elim
  | release result => exact ⟨result, rfl⟩
  | dispatch attemptId now hlive => exact (hnot trivial).elim
  | outcome attemptId outcome => exact (hnot trivial).elim
  | recover attemptId now r hr => exact (hnot trivial).elim
  | _ => exact hholds.elim

theorem done_stays {result : Except Escape Response} (hpc : pc = .done result)
    (h : CallStep cipher s call c pc action pc' db active) : False := by
  have hrank := h.rank
  rw [hpc] at hrank
  exact Nat.not_lt_zero _ hrank

/-- An attempt that is waited for goes on being under way or ended. -/
theorem waitsFor_act (hs : s.Intact checkSchema sha256) (hget : s.calls c = some call)
    (hstep : CallStep cipher s call c call.pc action pc db active) (h : WaitsFor s call' attempt) :
    WaitsFor (s.after c call pc db active) call' attempt := by
  obtain ⟨owner, howner, hid, hat⟩ := h
  by_cases hc : attempt.owner = c
  · obtain rfl := Option.some.inj (hget.symm.trans (hc ▸ howner))
    refine ⟨{ call with since := s.clock, pc := pc }, by rw [hc, after_self], hid, ?_⟩
    rcases hat with ⟨hactive, hholds⟩ | ⟨result, hdone⟩
    · rcases hstep.lane_cases with ⟨hkept, hiff⟩ | ⟨hfree, -⟩ | ⟨-, hnot, -⟩
      · exact .inl ⟨hkept.trans hactive, hiff.mpr hholds⟩
      · cases hfree.symm.trans hactive
      · exact .inr (hstep.ended hholds hnot)
    · exact (done_stays hdone hstep).elim
  · refine ⟨owner, by rw [after_other hc]; exact howner, hid, ?_⟩
    rcases hat with ⟨hactive, hholds⟩ | hdone
    · rcases hstep.lane_cases with ⟨hkept, -⟩ | ⟨hfree, -⟩ | ⟨hheld, -⟩
      · exact .inl ⟨hkept.trans hactive, hholds⟩
      · cases hfree.symm.trans hactive
      · exact (hc (hs.lane.unique howner hholds hget hheld)).elim
    · exact .inr hdone

theorem waits_step (hs : s.Intact checkSchema sha256) (h : ServiceStep cipher sha256 s e t)
    (hw : Waits s) : Waits t := by
  intro c call attempt hget hpc
  cases h with
  | arrive hfree hdigest =>
    simp only [Function.update_apply] at hget
    split_ifs at hget with hc
    · obtain rfl := Option.some.inj hget
      cases hpc
    · obtain ⟨owner, howner, hid, hat⟩ := hw c call attempt hget hpc
      refine ⟨owner, ?_, hid, hat⟩
      simp only [Function.update_apply]
      split_ifs with hnew
      · rw [hnew, hfree] at howner
        cases howner
      · exact howner
  | act hget' hreads hstep =>
    rcases after_calls hget with ⟨rfl, rfl⟩ | ⟨-, hget⟩
    · simp only at hpc
      subst hpc
      obtain ⟨hactive, hkept, record, hadmitted, hname⟩ := hstep.waiting
      obtain ⟨owner, howner, hholds⟩ := hs.lane.held attempt hactive
      refine waitsFor_act hs hget' hstep ⟨owner, howner, ?_, .inl ⟨hactive, hholds⟩⟩
      rw [← hs.named attempt owner hactive howner, hname]
      exact (hs.calls _ _ hget').admitted record hadmitted
    · exact waitsFor_act hs hget' hstep (hw c call attempt hget hpc)
  | restart hclock hopens => cases hget
  | _ => exact hw c call attempt hget hpc

theorem waits_reachable (hascii : ∀ b, Ascii (sha256 b))
    (h : Reachable Started (Happens checkSchema cipher sha256) s) : Waits s := by
  have hboth : s.Intact checkSchema sha256 ∧ Waits s := by
    refine Transition.reachable_invariant (P := fun s => s.Intact checkSchema sha256 ∧ Waits s)
      ?_ ?_ h
    · intro s hstart
      refine ⟨intact_started hstart, fun c call attempt hget => ?_⟩
      simp [(started_empty hstart).2.1] at hget
    · rintro s e t hstep ⟨hs, hw⟩
      exact ⟨intact_step hascii hstep hs, waits_step hs (serviceStep_of_next hstep.next) hw⟩
  exact hboth.2

/-! The steps of one call. -/

/-- A step of this call. -/
def Event.isStepOf (c : ℕ) : Event → Bool
  | .act c' _ => c' = c
  | _ => false

def Event.isRestart : Event → Bool
  | .restart _ _ _ => true
  | _ => false

/-- The steps a call still has to take, at most; one that is still to come has all of them. -/
def GatewayService.ownSteps (s : GatewayService) (c : ℕ) : ℕ :=
  (s.calls c).elim Pc.arrived.rank (fun call => call.pc.rank)

theorem ownSteps_event (h : ServiceStep cipher sha256 s e t) (hstays : e.isRestart = false) :
    (if e.isStepOf c then 1 else 0) + t.ownSteps c ≤ s.ownSteps c := by
  cases h with
  | arrive hfree hdigest =>
    rename_i c' credential request digest
    by_cases hc : c = c'
    · subst hc
      simp [Event.isStepOf, GatewayService.ownSteps, hfree, Pc.rank]
    · simp [Event.isStepOf, GatewayService.ownSteps, Function.update_of_ne hc]
  | act hget hreads hstep =>
    rename_i c' action call pc db active
    have hrank := hstep.rank
    by_cases hc : c' = c
    · subst hc
      simp only [Event.isStepOf, decide_true, if_true, GatewayService.ownSteps, after_self, hget,
        Option.elim_some]
      omega
    · simp [Event.isStepOf, GatewayService.ownSteps, after_other (Ne.symm hc), hc]
  | restart hclock hopens => cases hstays
  | _ => simp [Event.isStepOf, GatewayService.ownSteps]

/-- A call that has not ended can take a step. -/
theorem step_promised (hs : s.Intact checkSchema sha256) (hget : s.calls c = some call)
    (hended : ∀ result, call.pc ≠ .done result) :
    ∃ action t, Happens checkSchema cipher sha256 s (.act c action) t := by
  obtain ⟨d, hopened⟩ := hs.opened
  have hsince := (hopened.since c call hget).2
  have hhappens : ∀ {action : Action} {r : Pc × Database × Option ActiveAttempt},
      call.step cipher s c call.pc action = some r → (∀ now, action.now? = some now → now = s.clock) →
      (Event.act c action).Promised checkSchema →
      ∃ action t, Happens checkSchema cipher sha256 s (.act c action) t := by
    intro action r hstep hnow hpromised
    obtain ⟨t, hnext⟩ := @next_possible cipher sha256 s call c action hget hsince r hstep hnow
    exact ⟨action, t, hnext, hpromised⟩
  by_cases hwaiting : ∃ attempt, call.pc = .waiting attempt
  · obtain ⟨attempt, hpc⟩ := hwaiting
    refine @hhappens .timeout (_, _, _) (by rw [hpc]; rfl) (fun now h => ?_) trivial
    cases h
  by_cases hdispatched : ∃ attemptId, call.pc = .dispatched attemptId
  · obtain ⟨attemptId, hpc⟩ := hdispatched
    refine @hhappens (.outcome (.error (.unavailable ""))) (_, _, _) (by rw [hpc]; rfl)
      (fun now h => ?_) trivial
    cases h
  · obtain ⟨action, r, hstep, hnow⟩ := step_possible (fun attempt hpc => hwaiting ⟨attempt, hpc⟩)
      hended s.clock
    refine hhappens hstep hnow ?_
    cases action with
    | outcome outcome =>
      cases hpc : call.pc with
      | dispatched attemptId => exact (hdispatched ⟨attemptId, hpc⟩).elim
      | _ =>
        rw [hpc] at hstep
        cases hstep
    | _ => trivial

/-- Taken alone, a call ends within the steps it has left. -/
theorem call_ends (hascii : ∀ b, Ascii (sha256 b)) (hs : s.Intact checkSchema sha256)
    (hget : s.calls c = some call) :
    ∃ events t call' result, Run (Happens checkSchema cipher sha256) s events t ∧
      (∀ e ∈ events, e.isStepOf c = true) ∧ t.calls c = some call' ∧ call'.pc = .done result := by
  induction hn : call.pc.rank using Nat.strong_induction_on generalizing s call with
  | _ n ih =>
    by_cases hended : ∃ result, call.pc = .done result
    · obtain ⟨result, hdone⟩ := hended
      exact ⟨[], s, call, result, .refl, by simp, hget, hdone⟩
    · obtain ⟨action, u, hstep⟩ := @step_promised cipher _ _ _ _ _ hs hget fun result hdone =>
        hended ⟨result, hdone⟩
      have hu := intact_step hascii hstep hs
      have hnext : ∃ call', u.calls c = some call' ∧ call'.pc.rank < n := by
        cases serviceStep_of_next hstep.next with
        | act hget' hreads hcall =>
          obtain rfl := Option.some.inj (hget.symm.trans hget')
          exact ⟨_, after_self, hn ▸ hcall.rank⟩
      obtain ⟨call', hget', hlt⟩ := hnext
      obtain ⟨events, t, call'', result, hrun, hsteps, hget'', hdone⟩ := ih _ hlt hu hget' rfl
      refine ⟨.act c action :: events, t, call'', result, .stepL hstep hrun, ?_, hget'', hdone⟩
      exact List.forall_mem_cons.mpr ⟨by simp [Event.isStepOf], hsteps⟩

/-- A call takes few steps, whatever else happens in the process; alone it ends; and if it waits, it
waits for an attempt at its own request that is under way or has ended. -/
structure CallProgress (checkSchema : Json → Bool) (cipher : Cipher) (sha256 : Bytes → Str)
    (s : GatewayService) (c : ℕ) (call : InferCall) : Prop where
  bounded : ∀ events t, Run (Happens checkSchema cipher sha256) s events t →
    (∀ e ∈ events, e.isRestart = false) → events.countP (Event.isStepOf c) ≤ call.pc.rank
  ends : ∃ events t call' result, Run (Happens checkSchema cipher sha256) s events t ∧
    (∀ e ∈ events, e.isStepOf c = true) ∧ t.calls c = some call' ∧ call'.pc = .done result
  waits : ∀ attempt, call.pc = .waiting attempt → WaitsFor s call attempt

/-- In every state that the running service reaches, of every call. -/
theorem call_progress (hascii : ∀ b, Ascii (sha256 b))
    (h : Reachable Started (Happens checkSchema cipher sha256) s) (hget : s.calls c = some call) :
    CallProgress checkSchema cipher sha256 s c call := by
  have hs := intact_reachable hascii h
  refine ⟨?_, call_ends hascii hs hget, fun attempt => waits_reachable hascii h c call attempt hget⟩
  intro events t hrun hstays
  have hcounted : events.countP (Event.isStepOf c) + t.ownSteps c ≤ s.ownSteps c :=
    hrun.counted fun s e t he hstep =>
      ownSteps_event (serviceStep_of_next hstep.next) (hstays e he)
  have hleft : s.ownSteps c = call.pc.rank := by simp [GatewayService.ownSteps, hget]
  omega

/-- The second of two calls of one request, while it waits for the first. -/
theorem call_progress_waiting : ∃ s call, s.calls 1 = some call ∧ call.pc.rank = 3 ∧
    CallProgress (fun _ => true) plainCipher sampleSha256 s 1 call := by
  have hresult : (((GatewayService.initial hastySettings 2 (sampleMoment 18 0 0 0)).bind
      (fun s => s.play plainCipher sampleSha256 (fun _ _ => true) (overtakenEvents.take 10))).bind
        (fun s => s.calls 1)).map (fun call => call.pc.rank) = some 3 := by
    decide +kernel
  obtain ⟨call, hcall, hrank⟩ := Option.map_eq_some_iff.mp hresult
  obtain ⟨s, hplayed, hget⟩ := Option.bind_eq_some_iff.mp hcall
  obtain ⟨s₀, hstart, hplay⟩ := Option.bind_eq_some_iff.mp hplayed
  have hreachable : Reachable Started (Happens (fun _ => true) plainCipher sampleSha256) s :=
    ⟨s₀, _, ⟨hastySettings, 2, sampleMoment 18 0 0 0, by norm_num, hstart⟩, run_of_play
      (fun s e t he hnext _ => ⟨hnext, overtakenEvents_promised e (List.mem_of_mem_take he)⟩) hplay⟩
  exact ⟨s, call, hget, hrank, call_progress sampleSha256_ascii hreachable hget⟩

end Gateway
