import Gateway.Foundation.Sequencing
import Gateway.Worker.Fallback

/-! Health over the two workers: it asks what routing asks, and foretells what routing does. -/
namespace Gateway

open Program (Ends Trace)

/-- `_fallback_ready`, which takes no task too. -/
def FallbackWorker.readyFor (library : Library) (worker : FallbackWorker) (deadline : ℚ) :
    Option Task → Work Bool
  | none => pure false
  | some task => worker.fallbackReady library task deadline

/-- `except WorkerUnavailable`. -/
def WorkerRaised.isUnavailable : WorkerRaised → Bool
  | .unavailable _ => true
  | _ => false

/-- `FallbackWorker.health`. -/
def FallbackWorker.health (library : Library) (worker : FallbackWorker) (task : Option Task)
    (timeout : ℚ) : Work Bool :=
  let probe : Work Bool := do
    let start ← Work.clock
    let deadline := start + timeout
    let _ ← remaining deadline
    match ← availability library.recursionLimit (.ollama worker.primary) task with
    | .available => return true
    | .unavailable => worker.readyFor library deadline task
    | .unknown => return false
  probe.handle (fun e => if e.isUnavailable then pure false else Program.throw e)

/-! The route, and what is done on it. -/

/-- Where a call for a task goes, and until when; nowhere if no worker takes it. -/
def FallbackWorker.routing (library : Library) (worker : FallbackWorker) (task : Task) (timeout : ℚ)
    (deadline : Option ℚ) : Work (Option (Worker × ℚ)) := do
  let start ← Work.clock
  let deadline := routingDeadline start timeout deadline
  let _ ← remaining deadline
  match ← availability library.recursionLimit (.ollama worker.primary) (some task) with
  | .available => return some (.ollama worker.primary, deadline)
  | .unavailable => do
    if ← worker.fallbackReady library task deadline then
      return some (.lmStudio worker.fallback, deadline)
    else return none
  | .unknown => return none

def dispatchTo (library : Library) (request : InferenceRequest) :
    Option (Worker × ℚ) → Work WorkerResult
  | some (w, deadline) => do
    let left ← remaining deadline
    inferOn library w request left (some deadline)
  | none => Program.throw (.unavailable "no worker is safely available before dispatch")

variable {library : Library} {worker : FallbackWorker} {request : InferenceRequest} {task : Task}
variable {timeout : ℚ} {deadline : Option ℚ} {probes trace : Trace Query.Answer}

/-- `infer` is the route and then the dispatch. -/
theorem infer_eq_routing : worker.infer library request timeout deadline =
    worker.routing library request.taskKey timeout deadline >>= dispatchTo library request := by
  simp only [FallbackWorker.infer, FallbackWorker.routing, bind_assoc]
  refine bind_congr fun start => bind_congr fun _ => bind_congr fun verdict => ?_
  cases verdict with
  | available => rfl
  | unknown => rfl
  | unavailable =>
    simp only [FallbackWorker.route, bind_assoc]
    refine bind_congr fun ready => ?_
    cases ready <;> rfl

/-- `health` is the route, and whether there is one. -/
theorem health_eq_routing : worker.health library (some task) timeout =
    (worker.routing library task timeout none >>= fun route => pure route.isSome).handle
      (fun e => if e.isUnavailable then pure false else Program.throw e) := by
  rw [FallbackWorker.health]
  congr 1
  simp only [FallbackWorker.routing, bind_assoc]
  refine bind_congr fun start => bind_congr fun _ => bind_congr fun verdict => ?_
  cases verdict with
  | available => rfl
  | unknown => rfl
  | unavailable =>
    simp only [bind_assoc]
    refine (bind_pure (worker.fallbackReady library task (start + timeout))).symm.trans ?_
    refine bind_congr fun ready => ?_
    cases ready <;> rfl

theorem quiet_routing : Quiet (worker.routing library task timeout deadline) := by
  refine quiet_clock.bind fun start => quiet_remaining.bind fun _ => quiet_availability.bind fun verdict => ?_
  cases verdict with
  | available => trivial
  | unknown => trivial
  | unavailable =>
    refine quiet_fallbackReady.bind fun ready => ?_
    cases ready <;> trivial

theorem quiet_fallbackHealth : Quiet (worker.health library (some task) timeout) := by
  rw [health_eq_routing]
  have hprobe : Quiet (worker.routing library task timeout none >>= fun route =>
      pure route.isSome) := quiet_routing.bind fun _ => trivial
  refine hprobe.handle fun e => ?_
  split_ifs <;> trivial

/-- A route leads to the primary worker, or to the fallback for a task that may go there. -/
theorem routing_worker {w : Worker} {until_ : ℚ}
    (h : Ends (worker.routing library task timeout deadline) probes (.ok (some (w, until_)))) :
    w = .ollama worker.primary ∨ w = .lmStudio worker.fallback ∧ task ∈ worker.eligibleTasks ∧
      requiredContextTokens (some task) = 0 := by
  obtain ⟨start, -, t₁, -, hstarted, -⟩ := Program.ends_bind_ok.mp h
  obtain ⟨left, -, t₂, -, htimely, -⟩ := Program.ends_bind_ok.mp hstarted
  obtain ⟨verdict, -, t₃, -, hrest, -⟩ := Program.ends_bind_ok.mp htimely
  cases verdict with
  | available =>
    obtain ⟨-, hr⟩ := Program.ends_pure.mp hrest
    obtain ⟨rfl, -⟩ := Prod.mk.inj (Option.some.inj (Except.ok.inj hr))
    exact .inl rfl
  | unknown =>
    obtain ⟨-, hr⟩ := Program.ends_pure.mp hrest
    cases Except.ok.inj hr
  | unavailable =>
    obtain ⟨ready, asked, t₄, hready, hrouted, -⟩ := Program.ends_bind_ok.mp hrest
    cases ready with
    | false =>
      obtain ⟨-, hr⟩ := Program.ends_pure.mp hrouted
      cases Except.ok.inj hr
    | true =>
      obtain ⟨-, hr⟩ := Program.ends_pure.mp hrouted
      obtain ⟨rfl, -⟩ := Prod.mk.inj (Option.some.inj (Except.ok.inj hr))
      obtain ⟨heligible, hrequired, -⟩ := ends_fallbackReady hready
      exact .inr ⟨rfl, heligible, hrequired⟩

/-- What health says, and what a call of `infer` whose first answers are the same then does. -/
inductive Foretold (library : Library) (worker : FallbackWorker) (request : InferenceRequest)
    (timeout : ℚ) (probes : Trace Query.Answer) : Except WorkerRaised Bool → Prop where
  /-- It dispatches to a worker that may have the task. -/
  | dispatched (w : Worker) (until_ : ℚ)
      (hworker : w = .ollama worker.primary ∨ w = .lmStudio worker.fallback ∧
        request.taskKey ∈ worker.eligibleTasks ∧ requiredContextTokens (some request.taskKey) = 0)
      (h : ∀ rest r, Ends (worker.infer library request timeout none) (probes ++ rest) r ↔
        Ends (dispatchTo library request (some (w, until_))) rest r) :
      Foretold library worker request timeout probes (.ok true)
  /-- It asks nothing more, and ends in `WorkerUnavailable`. -/
  | refused (message : String)
      (h : ∀ rest r, Ends (worker.infer library request timeout none) (probes ++ rest) r ↔
        rest = [] ∧ r = .error (.unavailable message)) :
      Foretold library worker request timeout probes (.ok false)
  /-- It ends in what nothing catches. -/
  | failed (e : WorkerRaised) (hescapes : e.isUnavailable = false)
      (h : ∀ rest r, Ends (worker.infer library request timeout none) (probes ++ rest) r ↔
        rest = [] ∧ r = .error e) :
      Foretold library worker request timeout probes (.error e)

theorem ends_routing {r : Except WorkerRaised (Option (Worker × ℚ))}
    (h : Ends (worker.routing library request.taskKey timeout none) probes r) :
    ∃ said, Ends (worker.health library (some request.taskKey) timeout) probes said ∧
      Foretold library worker request timeout probes said := by
  rw [health_eq_routing]
  cases r with
  | ok route =>
    have hsaid : Ends (worker.routing library request.taskKey timeout none >>= fun route =>
        pure route.isSome) probes (.ok route.isSome) :=
      Program.ends_bind_ok.mpr ⟨route, probes, [], h, Program.ends_pure.mpr ⟨rfl, rfl⟩, by simp⟩
    refine ⟨.ok route.isSome, Program.ends_handle.mpr (.inl ⟨_, hsaid, rfl⟩), ?_⟩
    cases route with
    | some route =>
      obtain ⟨w, until_⟩ := route
      refine .dispatched w until_ (routing_worker h) fun rest r => ?_
      rw [infer_eq_routing, Program.ends_bind_append h]
    | none =>
      refine .refused "no worker is safely available before dispatch" fun rest r => ?_
      rw [infer_eq_routing, Program.ends_bind_append h, dispatchTo, Program.ends_throw]
  | error e =>
    have herror : Ends (worker.routing library request.taskKey timeout none >>= fun route =>
        pure route.isSome) probes (.error e) := Program.ends_bind.mpr (.inl ⟨e, h, rfl⟩)
    have hinfer : ∀ rest r, Ends (worker.infer library request timeout none) (probes ++ rest) r ↔
        rest = [] ∧ r = .error e := fun rest r => by
      rw [infer_eq_routing, Program.ends_bind_append_error h]
    cases hunavailable : e.isUnavailable with
    | false =>
      refine ⟨.error e, Program.ends_handle.mpr (.inr ⟨e, probes, [], herror, ?_, by simp⟩),
        .failed e hunavailable hinfer⟩
      simp [hunavailable]
    | true =>
      refine ⟨.ok false, Program.ends_handle.mpr (.inr ⟨e, probes, [], herror, ?_, by simp⟩), ?_⟩
      · simp [hunavailable]
      · cases e with
        | unavailable message => exact .refused message hinfer
        | _ => cases hunavailable

/-- Health submits nothing, and foretells what a call does whose first answers are the same; and every
call begins as health does. -/
theorem health_foretells :
    (∀ probes said, Ends (worker.health library (some request.taskKey) timeout) probes said →
      completions probes = [] ∧ Foretold library worker request timeout probes said) ∧
    ∀ trace r, Ends (worker.infer library request timeout none) trace r →
      ∃ probes rest said, trace = probes ++ rest ∧
        Ends (worker.health library (some request.taskKey) timeout) probes said := by
  constructor
  · intro probes said h
    refine ⟨completions_quiet quiet_fallbackHealth h, ?_⟩
    have hrun := h
    rw [health_eq_routing] at hrun
    obtain ⟨first, rest, r, rfl, hfirst⟩ : ∃ first rest r, probes = first ++ rest ∧
        Ends (worker.routing library request.taskKey timeout none) first r := by
      rcases Program.ends_handle.mp hrun with ⟨a, hok, -⟩ | ⟨e, first, rest, herror, -, rfl⟩
      · exact Program.ends_bind_prefix hok
      · obtain ⟨first', rest', r, rfl, hfirst⟩ := Program.ends_bind_prefix herror
        exact ⟨first', rest' ++ rest, r, by simp, hfirst⟩
    obtain ⟨said', hsaid, hforetold⟩ := ends_routing hfirst
    obtain ⟨hsame, rfl, -⟩ := Program.ends_prefix hsaid h (List.append_nil (first ++ rest)).symm
    rw [← hsame]
    exact hforetold
  · intro trace r h
    rw [infer_eq_routing] at h
    obtain ⟨probes, rest, r', rfl, hprobes⟩ := Program.ends_bind_prefix h
    obtain ⟨said, hsaid, -⟩ := ends_routing hprobes
    exact ⟨probes, rest, said, rfl, hsaid⟩

end Gateway
