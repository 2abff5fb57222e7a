import Gateway.Service.Ownership

/-! The lane: one call holds it from its claim to its release. -/
namespace Gateway

variable {cipher : Cipher} {sha256 : Bytes → Str} {s t : GatewayService} {call call' : InferCall}
variable {c c' : ℕ} {pc pc' : Pc} {action : Action} {db : Database} {active : Option ActiveAttempt}
variable {now : Datetime} {e : Event} {attemptId : Str}

/-- Inside the `try` of the owner, or in its `finally`. -/
def Pc.Holds : Pc → Prop
  | .claimed _ => True
  | .marked _ => True
  | .dispatched _ => True
  | .settling _ _ => True
  | .stored _ => True
  | .recovering _ => True
  | .leaving _ => True
  | _ => False

/-- Whoever holds the lane is on it, and whoever is on it holds it. -/
structure LaneHeld (s : GatewayService) : Prop where
  holder : ∀ c call, s.calls c = some call → call.pc.Holds →
    ∃ attempt, s.active = some attempt ∧ attempt.owner = c
  held : ∀ attempt, s.active = some attempt →
    ∃ call, s.calls attempt.owner = some call ∧ call.pc.Holds

theorem holds_ownerStep {α : Type} {next : α → Pc} {result : Except Raised α}
    (h : ∀ a, (next a).Holds) : (ownerStep attemptId next result).Holds := by
  unfold ownerStep
  split
  · exact h _
  · split_ifs <;> trivial

theorem holds_closing {nonce : Bytes} {outcome : Except WorkerRaised WorkerResult} :
    (call.closing cipher s attemptId now nonce outcome).1.Holds := by
  unfold InferCall.closing
  split
  · exact holds_ownerStep fun done => by cases done <;> trivial
  all_goals exact holds_ownerStep fun _ => trivial

theorem not_holds_afterPolicy {result : Except Escape Unit} : ¬ (afterPolicy now result).Holds := by
  cases result <;> exact id

theorem not_holds_afterAdmission {settings : Settings} {result : Except Raised RequestRecord} :
    ¬ (afterAdmission settings cipher result).Holds := by
  unfold afterAdmission
  repeat' split
  all_goals exact id

/-- A free lane is claimed, or the lane stays as it is. -/
theorem afterLane_cases (settings : Settings) (active : Option ActiveAttempt) (c : ℕ)
    (record : RequestRecord) (attemptId : Str) :
    (active = none ∧ (afterLane settings active c record attemptId).1.Holds ∧
      (afterLane settings active c record attemptId).2 = some ⟨record.requestId, c⟩) ∨
    (¬ (afterLane settings active c record attemptId).1.Holds ∧
      (afterLane settings active c record attemptId).2 = active) := by
  unfold afterLane
  repeat' split
  all_goals simp_all [Pc.Holds]

/-- A step claims the lane, leaves it, or keeps it as the call has it. -/
theorem CallStep.lane_cases (h : CallStep cipher s call c pc action pc' db active) :
    (active = s.active ∧ (pc'.Holds ↔ pc.Holds)) ∨
    (s.active = none ∧ pc'.Holds ∧ ∃ requestId, active = some ⟨requestId, c⟩) ∨
    (pc.Holds ∧ ¬ pc'.Holds ∧ active = none) := by
  cases h with
  | policy now => exact .inl ⟨rfl, iff_of_false not_holds_afterPolicy id⟩
  | admission now r hr => exact .inl ⟨rfl, iff_of_false not_holds_afterAdmission id⟩
  | lane record attemptId =>
    rcases afterLane_cases s.settings s.active c record attemptId with ⟨hfree, hholds, hactive⟩ |
      ⟨hnot, hactive⟩
    · exact .inr (.inl ⟨hfree, hholds, _, hactive⟩)
    · exact .inl ⟨hactive, iff_of_false hnot id⟩
  | wake attempt howner hdone => exact .inl ⟨rfl, .rfl⟩
  | timeout attempt => exact .inl ⟨rfl, .rfl⟩
  | reload now r hr => exact .inl ⟨rfl, .rfl⟩
  | late attemptId now r hat hexpired hr =>
    refine .inl ⟨rfl, iff_of_true (holds_ownerStep fun _ => trivial) ?_⟩
    rcases hat with ⟨rfl, -⟩ | ⟨rfl, -⟩ <;> trivial
  | mark attemptId now r hlive hr =>
    exact .inl ⟨rfl, iff_of_true (holds_ownerStep fun _ => trivial) trivial⟩
  | dispatch attemptId now hlive => exact .inl ⟨rfl, .rfl⟩
  | outcome attemptId outcome => exact .inl ⟨rfl, .rfl⟩
  | close attemptId outcome now nonce r hr =>
    subst hr
    exact .inl ⟨rfl, iff_of_true holds_closing trivial⟩
  | finish attemptId now r hr =>
    exact .inl ⟨rfl, iff_of_true (holds_ownerStep fun _ => trivial) trivial⟩
  | recover attemptId now r hr => exact .inl ⟨rfl, .rfl⟩
  | release result => exact .inr (.inr ⟨trivial, id, rfl⟩)

theorem LaneHeld.unique (h : LaneHeld s) (hget : s.calls c = some call) (hholds : call.pc.Holds)
    (hget' : s.calls c' = some call') (hholds' : call'.pc.Holds) : c = c' := by
  obtain ⟨attempt, hactive, rfl⟩ := h.holder c call hget hholds
  obtain ⟨attempt', hactive', rfl⟩ := h.holder c' call' hget' hholds'
  rw [Option.some.inj (hactive.symm.trans hactive')]

theorem laneHeld_free (hactive : s.active = none) (hcalls : ∀ c, s.calls c = none) : LaneHeld s where
  holder := fun c call hget => by simp [hcalls] at hget
  held := fun attempt h => by simp [hactive] at h

/-- A step of one call keeps the lane and its holder together. -/
theorem laneHeld_act (hs : LaneHeld s) (hget : s.calls c = some call)
    (hstep : CallStep cipher s call c call.pc action pc db active) :
    LaneHeld (s.after c call pc db active) := by
  have hother : ∀ {c' call'}, c' ≠ c → (s.after c call pc db active).calls c' = some call' →
      s.calls c' = some call' := by
    intro c' call' hne hget'
    rwa [after_other hne] at hget'
  have hself : (s.after c call pc db active).calls c = some { call with since := s.clock, pc := pc } :=
    after_self
  rcases hstep.lane_cases with ⟨rfl, hiff⟩ | ⟨hfree, hholds, requestId, rfl⟩ | ⟨hholds, hnot, rfl⟩
  · constructor
    · intro c' call' hget' hholds'
      by_cases hc : c' = c
      · subst hc
        obtain rfl := Option.some.inj (hself.symm.trans hget')
        exact hs.holder c' call hget (hiff.mp hholds')
      · exact hs.holder c' call' (hother hc hget') hholds'
    · intro attempt hactive
      obtain ⟨owner, howner, hheld⟩ := hs.held attempt hactive
      by_cases hc : attempt.owner = c
      · rw [hc] at howner ⊢
        obtain rfl := Option.some.inj (hget.symm.trans howner)
        exact ⟨_, hself, hiff.mpr hheld⟩
      · refine ⟨owner, ?_, hheld⟩
        rwa [after_other hc]
  · constructor
    · intro c' call' hget' hholds'
      by_cases hc : c' = c
      · exact ⟨⟨requestId, c⟩, rfl, hc.symm⟩
      · obtain ⟨attempt, hactive, -⟩ := hs.holder c' call' (hother hc hget') hholds'
        simp [hfree] at hactive
    · intro attempt hactive
      obtain rfl := Option.some.inj hactive
      exact ⟨_, hself, hholds⟩
  · constructor
    · intro c' call' hget' hholds'
      by_cases hc : c' = c
      · subst hc
        obtain rfl := Option.some.inj (hself.symm.trans hget')
        exact (hnot hholds').elim
      · exact (hc (hs.unique (hother hc hget') hholds' hget hholds)).elim
    · intro attempt hactive
      cases hactive

theorem laneHeld_step (h : ServiceStep cipher sha256 s e t) (hs : LaneHeld s) : LaneHeld t := by
  cases h with
  | tick hclock => exact ⟨hs.holder, hs.held⟩
  | arrive hfree hdigest =>
    constructor
    · intro c' call' hget hholds
      simp only [Function.update_apply] at hget
      split_ifs at hget with hc
      · obtain rfl := Option.some.inj hget
        exact hholds.elim
      · exact hs.holder c' call' hget hholds
    · intro attempt hactive
      obtain ⟨owner, howner, hheld⟩ := hs.held attempt hactive
      refine ⟨owner, ?_, hheld⟩
      simp only [Function.update_apply]
      split_ifs with hc
      · simp [hc, hfree] at howner
      · exact howner
  | act hget hreads hstep => exact laneHeld_act hs hget hstep
  | acknowledge hclock => exact ⟨hs.holder, hs.held⟩
  | maintain hclock => exact ⟨hs.holder, hs.held⟩
  | restart hclock hopens => exact laneHeld_free rfl fun _ => rfl

theorem laneHeld_started (h : Started s) : LaneHeld s :=
  laneHeld_free (started_empty h).1 (started_empty h).2.1

/-- A free process has a free lane. -/
theorem LaneHeld.free (h : LaneHeld s)
    (hended : ∀ c call, s.calls c = some call → ∃ result, call.pc = .done result) :
    s.active = none := by
  cases hactive : s.active with
  | none => rfl
  | some attempt =>
    obtain ⟨call, hget, hholds⟩ := h.held attempt hactive
    obtain ⟨result, hdone⟩ := hended _ call hget
    rw [hdone] at hholds
    exact hholds.elim

end Gateway
