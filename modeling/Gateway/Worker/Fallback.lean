import Gateway.Worker.Capacity
import Gateway.Worker.Infer

/-! Routing between the two workers: at most one completion, and when LM Studio gets it. -/
namespace Gateway

open Json (get)
open Program (Ends Only Trace)

structure FallbackWorker where
  primary : OllamaWorker
  fallback : LMStudioWorker
  eligibleTasks : List Task

/-- `_remaining`. -/
def remaining (deadline : ℚ) : Work ℚ := do
  let now ← Work.clock
  if deadline - now ≤ 0 then
    Program.throw (.unavailable "worker routing deadline expired before dispatch")
  else return deadline - now

/-- `_fallback_ready`. -/
def FallbackWorker.fallbackReady (library : Library) (worker : FallbackWorker) (task : Task)
    (deadline : ℚ) : Work Bool := do
  if task ∉ worker.eligibleTasks then return false
  let _ ← remaining deadline
  if !(← fallbackCapacityAvailable library.recursionLimit (.ollama worker.primary)) then return false
  let _ ← remaining deadline
  health library.recursionLimit (.lmStudio worker.fallback) (some task)

/-- Where `infer` goes once the availability of the primary worker is known. -/
def FallbackWorker.route (library : Library) (worker : FallbackWorker) (request : InferenceRequest)
    (deadline : ℚ) : WorkerAvailability → Work WorkerResult
  | .available => do
    let left ← remaining deadline
    inferOn library (.ollama worker.primary) request left (some deadline)
  | .unknown => Program.throw (.unavailable "no worker is safely available before dispatch")
  | .unavailable => do
    if ← worker.fallbackReady library request.taskKey deadline then
      let left ← remaining deadline
      inferOn library (.lmStudio worker.fallback) request left (some deadline)
    else Program.throw (.unavailable "no worker is safely available before dispatch")

/-- The deadline of a call that starts at `start`. -/
def routingDeadline (start timeout : ℚ) (deadline : Option ℚ) : ℚ :=
  deadline.elim (start + timeout) (min · (start + timeout))

/-- `FallbackWorker.infer`. -/
def FallbackWorker.infer (library : Library) (worker : FallbackWorker) (request : InferenceRequest)
    (timeout : ℚ) (deadline : Option ℚ) : Work WorkerResult := do
  let start ← Work.clock
  let deadline := routingDeadline start timeout deadline
  let _ ← remaining deadline
  let availability ← availability library.recursionLimit (.ollama worker.primary)
    (some request.taskKey)
  worker.route library request deadline availability

variable {limit : ℕ} {library : Library} {w : Worker} {worker : FallbackWorker}
  {request : InferenceRequest} {trace : Trace Query.Answer} {task : Option Task}
  {timeout deadline : ℚ} {α : Type}

/-! What is no completion. -/

/-- A query that submits nothing. -/
def Query.IsQuiet : Query → Prop
  | .send request => request.IsCompletion = false
  | _ => True

abbrev Quiet (p : Work α) : Prop := Only Query.IsQuiet p

theorem quiet_clock : Quiet Work.clock := ⟨trivial, fun _ => trivial⟩

theorem quiet_awaitClient : Quiet Work.awaitClient := ⟨trivial, fun _ => trivial⟩

theorem quiet_probe {r : HttpRequest} (h : r.IsCompletion = false) : Quiet (Work.probe limit r) :=
  ⟨h, fun _ => trivial⟩

theorem quiet_withClient {block : Work α} (h : Quiet block) : Quiet block.withClient :=
  quiet_awaitClient.bind fun _ => h.attempt.bind fun _ => quiet_awaitClient.bind fun _ => trivial

theorem quiet_remaining : Quiet (remaining deadline) := by
  refine quiet_clock.bind fun now => ?_
  split_ifs <;> trivial

theorem quiet_dispatchTimeout {deadline : Option ℚ} : Quiet (dispatchTimeout timeout deadline) := by
  cases deadline with
  | none => trivial
  | some deadline =>
    refine quiet_clock.bind fun now => ?_
    split_ifs <;> trivial

theorem quiet_contextAvailability {minimum : ℤ} : Quiet (contextAvailability limit w minimum) := by
  cases w with
  | lmStudio worker => trivial
  | ollama worker =>
    unfold contextAvailability
    simp only
    split_ifs
    · trivial
    · refine (quiet_probe rfl).bind fun configuration => ?_
      cases configuration with
      | none => trivial
      | some configuration =>
        simp only
        cases configurationVerdict minimum configuration with
        | some verdict => trivial
        | none =>
          refine (quiet_probe rfl).bind fun resident => ?_
          cases resident <;> trivial

theorem quiet_availability : Quiet (availability limit w task) := by
  refine (quiet_withClient ((quiet_probe rfl).bind fun document => ?_)).handle fun e => ?_
  · cases document with
    | none => trivial
    | some document =>
      simp only
      cases modelIds document with
      | none => trivial
      | some ids =>
        simp only
        split_ifs
        · exact quiet_contextAvailability
        · trivial
  · split_ifs <;> trivial

theorem quiet_health : Quiet (health limit w task) := quiet_availability.bind fun _ => trivial

theorem quiet_fallbackCapacity : Quiet (fallbackCapacityAvailable limit w) := by
  cases w with
  | lmStudio worker => trivial
  | ollama worker =>
    refine (quiet_withClient ((quiet_probe rfl).bind fun document => ?_)).handle fun e => ?_
    · trivial
    · split_ifs <;> trivial

theorem quiet_checkCapacity {deadline : Option ℚ} :
    Quiet (checkCapacity library w request timeout deadline) := by
  refine quiet_dispatchTimeout.bind fun _ => quiet_contextAvailability.bind fun capacity => ?_
  split_ifs <;> trivial

/-! What a run of one worker submits. -/

/-- The exchanges that submit a completion. -/
def completions (trace : Trace Query.Answer) : Trace Query.Answer :=
  trace.filter (fun x => match x.1 with
    | .send request => request.IsCompletion
    | _ => false)

theorem completions_append (first second : Trace Query.Answer) :
    completions (first ++ second) = completions first ++ completions second :=
  List.filter_append _ _

theorem completions_eq_nil (h : ∀ x ∈ trace, x.1.IsQuiet) : completions trace = [] := by
  rw [completions, List.filter_eq_nil_iff]
  intro x hx
  have hquiet := h x hx
  revert hquiet
  rcases x with ⟨query, answer⟩
  cases query <;> simp [Query.IsQuiet]

theorem completions_quiet {p : Work α} {r : Except WorkerRaised α} (hp : Quiet p)
    (h : Ends p trace r) : completions trace = [] :=
  completions_eq_nil (hp.mem h)

/-- A completion that this worker submits. -/
def SubmitsTo (w : Worker) (x : Σ query, Query.Answer query) : Prop :=
  ∃ content, x.1 = .send ⟨w, .completion content⟩

/-- At most one completion, to the endpoint of this worker. -/
def Submits (w : Worker) (p : Work α) : Prop :=
  ∀ trace r, Ends p trace r →
    (completions trace).length ≤ 1 ∧ ∀ x ∈ completions trace, SubmitsTo w x

variable {β : Type} {p : Work α} {f : α → Work β}

theorem Quiet.submits (hp : Quiet p) : Submits w p := by
  intro trace r h
  simp [completions_quiet hp h]

theorem Quiet.bind_submits (hp : Quiet p) (hf : ∀ a, Submits w (f a)) : Submits w (p >>= f) := by
  intro trace r h
  rcases Program.ends_bind.mp h with ⟨e, herror, rfl⟩ | ⟨a, first, second, hfirst, hsecond, rfl⟩
  · exact Quiet.submits hp _ _ herror
  · rw [completions_append, completions_quiet hp hfirst]
    exact hf a _ _ hsecond

theorem Submits.bind_quiet (hp : Submits w p) (hf : ∀ a, Quiet (f a)) : Submits w (p >>= f) := by
  intro trace r h
  rcases Program.ends_bind.mp h with ⟨e, herror, rfl⟩ | ⟨a, first, second, hfirst, hsecond, rfl⟩
  · exact hp _ _ herror
  · rw [completions_append, completions_quiet (hf a) hsecond, List.append_nil]
    exact hp _ _ hfirst

theorem Submits.attempt (hp : Submits w p) : Submits w p.attempt := by
  intro trace r h
  obtain ⟨r', h, -⟩ := Program.ends_attempt.mp h
  exact hp _ _ h

theorem submits_submit : Submits w (submit library w request) := by
  intro trace r h
  unfold submit at h
  split at h
  · obtain ⟨rfl, -⟩ := Program.ends_throw.mp h
    simp [completions]
  · rename_i content hcontent
    obtain ⟨answer, rest, rfl, hend⟩ := Program.ends_ask.mp h
    obtain ⟨rfl, -⟩ := Program.ends_done.mp hend
    simp [completions, HttpRequest.IsCompletion, SubmitsTo]

theorem submits_exchange {deadline : Option ℚ} :
    Submits w (exchange library w request timeout deadline) := by
  refine Quiet.bind_submits quiet_checkCapacity.attempt fun outcome => ?_
  cases outcome with
  | error e => exact Quiet.submits trivial
  | ok u => exact submits_submit.attempt.bind_quiet fun _ => trivial

theorem submits_clientExchange {deadline : Option ℚ} :
    Submits w (clientExchange library w request timeout deadline) := by
  refine Quiet.bind_submits quiet_awaitClient.attempt fun opened => ?_
  cases opened with
  | error e => exact Quiet.submits trivial
  | ok u =>
    refine submits_exchange.bind_quiet fun outcome => quiet_awaitClient.attempt.bind fun closed => ?_
    cases closed <;> trivial

/-- One worker submits at most one completion, to its own endpoint. -/
theorem submits_inferOn {deadline : Option ℚ} :
    Submits w (inferOn library w request timeout deadline) := by
  refine submits_clientExchange.bind_quiet fun outcome => ?_
  rcases outcome with ⟨submitted, outcome⟩
  cases outcome <;> trivial

/-! What the probes prove. -/

variable {r : HttpRequest} {document : List (Str × Json)}

/-- The answer is a list of models, each with its id. -/
def Lists (limit : ℕ) (answer : Except Fault HttpResponse) (ids : List Str) : Prop :=
  ∃ document, Delivers limit answer document ∧ modelIds document = some ids

/-- The answer shows no resident model at all. -/
def ShowsNone (limit : ℕ) (answer : Except Fault HttpResponse) : Prop :=
  ∃ document, Delivers limit answer document ∧
    get document (str "models") = some (.list [])

/-- A probe asks once; what it returns was delivered. -/
theorem ends_probe {a : Option (List (Str × Json))}
    (h : Ends (Work.probe limit r) trace (.ok a)) :
    ∃ answer : Except Fault HttpResponse, trace = [⟨.send r, answer⟩] ∧
      ∀ document, a = some document → Delivers limit answer document := by
  obtain ⟨answer, rest, rfl, hend⟩ := Program.ends_ask.mp h
  obtain ⟨rfl, hr⟩ := Program.ends_done.mp hend
  refine ⟨answer, rfl, ?_⟩
  rintro document rfl
  exact settle_probe.mp hr.symm

theorem ends_withClient {block : Work α} {a : α} (h : Ends block.withClient trace (.ok a)) :
    ∃ opened inner closed, Ends block inner (.ok a) ∧ trace = opened ++ inner ++ closed := by
  obtain ⟨u, opened, rest, -, hopened, rfl⟩ := Program.ends_bind_ok.mp h
  obtain ⟨outcome, inner, rest, hinner, hend, rfl⟩ := Program.ends_bind_ok.mp hopened
  obtain ⟨u, closed, rest, -, hclosed, rfl⟩ := Program.ends_bind_ok.mp hend
  obtain ⟨rfl, rfl⟩ := Program.ends_done.mp hclosed
  obtain ⟨r', hblock, hr'⟩ := Program.ends_attempt.mp hinner
  obtain rfl : Except.ok a = r' := by simpa using hr'
  exact ⟨opened, inner, closed, hblock, by simp⟩

/-- A verdict rests on a list of models; where the configured one is there, on the context. -/
theorem ends_availability {verdict : WorkerAvailability}
    (h : Ends (availability limit w task) trace (.ok verdict)) (hknown : verdict ≠ .unknown) :
    ∃ (answer : Except Fault HttpResponse) (ids : List Str),
      (⟨.send ⟨w, .models⟩, answer⟩ : Σ query, Query.Answer query) ∈ trace ∧
      Lists limit answer ids ∧
      (w.model ∉ ids ∧ verdict = .unavailable ∨ w.model ∈ ids ∧
        ∃ rest, Ends (contextAvailability limit w (requiredContextTokens task)) rest (.ok verdict)) := by
  rcases Program.ends_handle.mp h with ⟨a, hprobe, ha⟩ | ⟨e, first, second, -, hhandler, rfl⟩
  · obtain rfl : verdict = a := by simpa using ha
    obtain ⟨opened, inner, closed, hblock, rfl⟩ := ends_withClient hprobe
    obtain ⟨document?, first, second, hfirst, hsecond, rfl⟩ := Program.ends_bind_ok.mp hblock
    obtain ⟨answer, rfl, hdelivered⟩ := ends_probe hfirst
    cases document? with
    | none =>
      obtain ⟨-, hr⟩ := Program.ends_pure.mp hsecond
      exact absurd (Except.ok.inj hr) hknown
    | some document =>
      simp only at hsecond
      cases hids : modelIds document with
      | none =>
        rw [hids] at hsecond
        obtain ⟨-, hr⟩ := Program.ends_pure.mp hsecond
        exact absurd (Except.ok.inj hr) hknown
      | some ids =>
        simp only [hids] at hsecond
        refine ⟨answer, ids, by simp, ⟨document, hdelivered _ rfl, hids⟩, ?_⟩
        split_ifs at hsecond with hmodel
        · exact .inr ⟨hmodel, second, hsecond⟩
        · obtain ⟨-, hr⟩ := Program.ends_pure.mp hsecond
          exact .inl ⟨hmodel, Except.ok.inj hr⟩
  · split_ifs at hhandler
    · obtain ⟨-, hr⟩ := Program.ends_pure.mp hhandler
      exact absurd (Except.ok.inj hr) hknown
    · obtain ⟨-, hr⟩ := Program.ends_throw.mp hhandler
      cases hr

theorem ends_fallbackCapacity {o : OllamaWorker}
    (h : Ends (fallbackCapacityAvailable limit (.ollama o)) trace (.ok true)) :
    ∃ answer : Except Fault HttpResponse,
      (⟨.send ⟨.ollama o, .residents⟩, answer⟩ : Σ query, Query.Answer query) ∈ trace ∧
      ShowsNone limit answer := by
  rcases Program.ends_handle.mp h with ⟨a, hprobe, ha⟩ | ⟨e, first, second, -, hhandler, rfl⟩
  · obtain rfl : true = a := by simpa using ha
    obtain ⟨opened, inner, closed, hblock, rfl⟩ := ends_withClient hprobe
    obtain ⟨document?, first, second, hfirst, hsecond, rfl⟩ := Program.ends_bind_ok.mp hblock
    obtain ⟨answer, rfl, hdelivered⟩ := ends_probe hfirst
    obtain ⟨-, hr⟩ := Program.ends_pure.mp hsecond
    cases document? with
    | none => simp at hr
    | some document =>
      refine ⟨answer, by simp, document, hdelivered _ rfl, ?_⟩
      have hlist : listsNoModels document = true := by simpa using hr.symm
      simpa [listsNoModels, Option.any_eq_true] using hlist
  · split_ifs at hhandler
    · obtain ⟨-, hr⟩ := Program.ends_pure.mp hhandler
      simp at hr
    · obtain ⟨-, hr⟩ := Program.ends_throw.mp hhandler
      cases hr

/-- LM Studio is healthy for a task without extended context, with its model listed. -/
theorem ends_health {s : LMStudioWorker} (h : Ends (health limit (.lmStudio s) task) trace (.ok true)) :
    requiredContextTokens task = 0 ∧ ∃ (answer : Except Fault HttpResponse) (ids : List Str),
      (⟨.send ⟨.lmStudio s, .models⟩, answer⟩ : Σ query, Query.Answer query) ∈ trace ∧
      Lists limit answer ids ∧ s.model ∈ ids := by
  obtain ⟨verdict, first, second, hfirst, hsecond, rfl⟩ := Program.ends_bind_ok.mp h
  obtain ⟨rfl, hr⟩ := Program.ends_pure.mp hsecond
  obtain rfl : verdict = .available := by simpa using hr.symm
  obtain ⟨answer, ids, hmem, hlists, ⟨-, hverdict⟩ | ⟨hmodel, rest, hcontext⟩⟩ :=
    ends_availability hfirst (by simp)
  · cases hverdict
  · obtain ⟨-, hr⟩ := Program.ends_pure.mp hcontext
    refine ⟨?_, answer, ids, by simpa using hmem, hlists, hmodel⟩
    by_contra hne
    simp [hne] at hr

theorem ends_remaining {left : ℚ} (h : Ends (remaining deadline) trace (.ok left)) :
    ∃ now : ℚ, trace = [⟨.monotonic, now⟩] ∧ now < deadline := by
  obtain ⟨now, first, second, hfirst, hsecond, rfl⟩ := Program.ends_bind_ok.mp h
  obtain ⟨answer, rest, rfl, hend⟩ := Program.ends_ask.mp hfirst
  obtain ⟨rfl, hr⟩ := Program.ends_done.mp hend
  obtain rfl : now = answer := Except.ok.inj hr
  split_ifs at hsecond with hle
  · obtain ⟨-, hr⟩ := Program.ends_throw.mp hsecond
    cases hr
  · obtain ⟨rfl, -⟩ := Program.ends_pure.mp hsecond
    exact ⟨now, rfl, by linarith⟩

/-! The route. -/

/-- What has been asked and answered before LM Studio gets a completion. -/
structure RoutedToFallback (limit : ℕ) (worker : FallbackWorker) (request : InferenceRequest)
    (timeout : ℚ) (deadline : Option ℚ) (before : Trace Query.Answer) : Prop where
  eligible : request.taskKey ∈ worker.eligibleTasks
  notExtended : request.taskKey ≠ documentTaskV2
  asked : ∃ (start now : ℚ) (first probes capacity listing rest : Trace Query.Answer)
    (missing none_ listed : Except Fault HttpResponse) (ids ids' : List Str),
    before = ⟨.monotonic, start⟩ :: first ++ probes ++ capacity ++ listing ++
      ⟨.monotonic, now⟩ :: rest ∧
    now < routingDeadline start timeout deadline ∧
    Ends (availability limit (.ollama worker.primary) (some request.taskKey)) probes
      (.ok .unavailable) ∧
    ⟨.send ⟨.ollama worker.primary, .models⟩, missing⟩ ∈ probes ∧ Lists limit missing ids ∧
    worker.primary.model ∉ ids ∧
    ⟨.send ⟨.ollama worker.primary, .residents⟩, none_⟩ ∈ capacity ∧ ShowsNone limit none_ ∧
    ⟨.send ⟨.lmStudio worker.fallback, .models⟩, listed⟩ ∈ listing ∧ Lists limit listed ids' ∧
    worker.fallback.model ∈ ids'
  unsubmitted : completions before = []

theorem ends_fallbackReady {task : Task}
    (h : Ends (worker.fallbackReady library task deadline) trace (.ok true)) :
    task ∈ worker.eligibleTasks ∧ requiredContextTokens (some task) = 0 ∧
    ∃ (capacity listing : Trace Query.Answer) (none_ listed : Except Fault HttpResponse)
      (ids : List Str), trace = capacity ++ listing ∧
      ⟨.send ⟨.ollama worker.primary, .residents⟩, none_⟩ ∈ capacity ∧
      ShowsNone library.recursionLimit none_ ∧
      ⟨.send ⟨.lmStudio worker.fallback, .models⟩, listed⟩ ∈ listing ∧
      Lists library.recursionLimit listed ids ∧ worker.fallback.model ∈ ids := by
  unfold FallbackWorker.fallbackReady at h
  by_cases heligible : task ∈ worker.eligibleTasks
  · rw [if_neg (not_not.mpr heligible)] at h
    obtain ⟨left, first, rest, -, hrest, rfl⟩ := Program.ends_bind_ok.mp h
    obtain ⟨ready, capacity, rest, hcapacity, hready, rfl⟩ := Program.ends_bind_ok.mp hrest
    cases ready with
    | false =>
      obtain ⟨-, hr⟩ := Program.ends_pure.mp hready
      simp at hr
    | true =>
      obtain ⟨left, second, listing, -, hhealth, rfl⟩ := Program.ends_bind_ok.mp hready
      obtain ⟨hrequired, listed, ids, hmem, hlists, hmodel⟩ := ends_health hhealth
      obtain ⟨none_, hnone, hshows⟩ := ends_fallbackCapacity hcapacity
      exact ⟨heligible, hrequired, first ++ capacity, second ++ listing, none_, listed, ids,
        by simp, by simp [hnone], hshows, by simp [hmem], hlists, hmodel⟩
  · rw [if_pos heligible] at h
    obtain ⟨-, hr⟩ := Program.ends_pure.mp h
    simp at hr

theorem quiet_fallbackReady {task : Task} : Quiet (worker.fallbackReady library task deadline) := by
  unfold FallbackWorker.fallbackReady
  by_cases heligible : task ∈ worker.eligibleTasks
  · rw [if_neg (not_not.mpr heligible)]
    refine quiet_remaining.bind fun _ => quiet_fallbackCapacity.bind fun ready => ?_
    cases ready
    · trivial
    · exact quiet_remaining.bind fun _ => quiet_health
  · rw [if_pos heligible]
    trivial

theorem submits_route (verdict : WorkerAvailability) :
    Submits (if verdict = .available then .ollama worker.primary else .lmStudio worker.fallback)
      (worker.route library request deadline verdict) := by
  cases verdict with
  | available => exact Quiet.bind_submits quiet_remaining fun _ => submits_inferOn
  | unknown => exact Quiet.submits trivial
  | unavailable =>
    refine Quiet.bind_submits quiet_fallbackReady fun ready => ?_
    cases ready with
    | false => exact Quiet.submits trivial
    | true => exact Quiet.bind_submits quiet_remaining fun _ => submits_inferOn

/-- Either nothing is submitted, or the availability became known and the call was routed. -/
theorem ends_infer {r : Except WorkerRaised WorkerResult} {deadline : Option ℚ}
    (h : Ends (worker.infer library request timeout deadline) trace r) :
    completions trace = [] ∨ ∃ start first probes rest verdict,
      trace = ⟨.monotonic, start⟩ :: first ++ probes ++ rest ∧
      completions (⟨.monotonic, start⟩ :: first ++ probes) = [] ∧
      Ends (availability library.recursionLimit (.ollama worker.primary) (some request.taskKey))
        probes (.ok verdict) ∧
      Ends (worker.route library request (routingDeadline start timeout deadline) verdict) rest r := by
  rcases Program.ends_bind.mp h with ⟨e, herror, -⟩ | ⟨start, t0, t, hstart, hrest, rfl⟩
  · exact .inl (completions_quiet quiet_clock herror)
  obtain ⟨answer, t1, rfl, hend⟩ := Program.ends_ask.mp hstart
  obtain ⟨rfl, hr⟩ := Program.ends_done.mp hend
  obtain rfl : start = answer := Except.ok.inj hr
  have hclock : completions ([⟨.monotonic, start⟩] : Trace Query.Answer) = [] :=
    completions_quiet quiet_clock hstart
  rcases Program.ends_bind.mp hrest with ⟨e, herror, -⟩ | ⟨left, first, t2, hfirst, hrest', rfl⟩
  · exact .inl (by rw [completions_append, hclock, completions_quiet quiet_remaining herror]; rfl)
  have hleft := completions_quiet quiet_remaining hfirst
  rcases Program.ends_bind.mp hrest' with ⟨e, herror, -⟩ | ⟨verdict, probes, rest, hprobes, hroute, rfl⟩
  · refine .inl ?_
    rw [completions_append, completions_append, hclock, hleft,
      completions_quiet quiet_availability herror]
    rfl
  · refine .inr ⟨start, first, probes, rest, verdict, by simp, ?_, hprobes, hroute⟩
    rw [completions_append, ← List.singleton_append, completions_append, hclock, hleft,
      completions_quiet quiet_availability hprobes]
    rfl

/-- An element that is not in the first part lies in the second. -/
theorem split_after {γ : Type} {first rest before after : List γ} {x : γ}
    (h : first ++ rest = before ++ x :: after) (hx : x ∉ first) :
    ∃ middle, before = first ++ middle ∧ rest = middle ++ x :: after := by
  rcases List.append_eq_append_iff.mp h with ⟨middle, hbefore, hrest⟩ | ⟨middle, hfirst, hafter⟩
  · exact ⟨middle, hbefore, hrest⟩
  · cases middle with
    | nil => exact ⟨[], by simpa using hfirst.symm, by simpa using hafter.symm⟩
    | cons y middle =>
      obtain ⟨rfl, -⟩ := List.cons.inj hafter
      exact absurd (by simp [hfirst]) hx

/-- The exchange that submits a completion to LM Studio. -/
def fallbackExchange (worker : FallbackWorker) (content : Bytes)
    (answer : Except Fault HttpResponse) : Σ query, Query.Answer query :=
  ⟨.send ⟨.lmStudio worker.fallback, .completion content⟩, answer⟩

variable {content : Bytes} {answer : Except Fault HttpResponse}

theorem fallbackExchange_mem (h : fallbackExchange worker content answer ∈ trace) :
    fallbackExchange worker content answer ∈ completions trace :=
  List.mem_filter.mpr ⟨h, rfl⟩

/-- Only the branch for an unavailable primary worker submits to LM Studio. -/
theorem route_unavailable {verdict : WorkerAvailability} {r : Except WorkerRaised WorkerResult}
    (h : Ends (worker.route library request deadline verdict) trace r)
    (hmem : fallbackExchange worker content answer ∈ trace) : verdict = .unavailable := by
  have hsubmits := (submits_route verdict _ _ h).2 _ (fallbackExchange_mem hmem)
  cases verdict with
  | available =>
    obtain ⟨content', hc⟩ := hsubmits
    simp [fallbackExchange] at hc
  | unavailable => rfl
  | unknown =>
    obtain ⟨rfl, -⟩ := Program.ends_throw.mp h
    simp at hmem

/-- What the branch has asked by the time it submits to LM Studio. -/
theorem route_before {r : Except WorkerRaised WorkerResult} {before after : Trace Query.Answer}
    (h : Ends (worker.route library request deadline .unavailable) trace r)
    (htrace : trace = before ++ fallbackExchange worker content answer :: after) :
    ∃ ready now rest, before = ready ++ ⟨.monotonic, now⟩ :: rest ∧ now < deadline ∧
      Ends (worker.fallbackReady library request.taskKey deadline) ready (.ok true) := by
  have hmem : fallbackExchange worker content answer ∈ trace := by simp [htrace]
  have hquiet : ∀ {γ : Type} {p : Work γ} {t r}, Quiet p → Ends p t r →
      fallbackExchange worker content answer ∉ t := by
    intro γ p t r hp hend hmem
    simpa [completions_quiet hp hend] using fallbackExchange_mem hmem
  rcases Program.ends_bind.mp h with ⟨e, herror, -⟩ | ⟨ready?, ready, t, hready, hrest, rfl⟩
  · exact absurd hmem (hquiet quiet_fallbackReady herror)
  obtain ⟨middle, rfl, rfl⟩ := split_after htrace (hquiet quiet_fallbackReady hready)
  cases ready? with
  | false =>
    obtain ⟨hnil, -⟩ := Program.ends_throw.mp hrest
    simp at hnil
  | true =>
    rcases Program.ends_bind.mp hrest with ⟨e, herror, -⟩ | ⟨left, clock, t, hclock, -, ht⟩
    · exact absurd (by simp) (hquiet quiet_remaining herror)
    · obtain ⟨rest, rfl, -⟩ := split_after ht.symm (hquiet quiet_remaining hclock)
      obtain ⟨now, rfl, hnow⟩ := ends_remaining hclock
      exact ⟨ready, now, rest, by simp, hnow, hready⟩

/-- At most one completion is submitted over both workers, and LM Studio gets it only where the
primary worker was shown to lack its model and to have no model resident. -/
theorem fallback_routing {r : Except WorkerRaised WorkerResult} {deadline : Option ℚ}
    (h : Ends (worker.infer library request timeout deadline) trace r) :
    (completions trace).length ≤ 1 ∧
    (∀ x ∈ completions trace,
      SubmitsTo (.ollama worker.primary) x ∨ SubmitsTo (.lmStudio worker.fallback) x) ∧
    ∀ before content answer after,
      trace = before ++ fallbackExchange worker content answer :: after →
      RoutedToFallback library.recursionLimit worker request timeout deadline before := by
  rcases ends_infer h with hnone | ⟨start, first, probes, rest, verdict, rfl, hquiet, hprobes, hroute⟩
  · refine ⟨by simp [hnone], by simp [hnone], ?_⟩
    rintro before content answer after rfl
    have hmem : fallbackExchange worker content answer ∈
        before ++ fallbackExchange worker content answer :: after := by simp
    exact absurd (fallbackExchange_mem hmem) (by simp [hnone])
  have hcompletions : completions (⟨.monotonic, start⟩ :: first ++ probes ++ rest) =
      completions rest := by
    rw [completions_append, hquiet, List.nil_append]
  obtain ⟨hone, hto⟩ := submits_route verdict _ _ hroute
  rw [hcompletions]
  refine ⟨hone, ?_, ?_⟩
  · intro x hx
    have hx := hto x hx
    split_ifs at hx
    · exact .inl hx
    · exact .inr hx
  intro before content answer after htrace
  have hunsubmitted : completions before = [] := by
    have hcount := congrArg List.length (hcompletions.symm.trans (congrArg completions htrace))
    rw [completions_append, List.length_append] at hcount
    have hpos : 1 ≤ (completions (fallbackExchange worker content answer :: after)).length := by
      simp [completions, fallbackExchange, HttpRequest.IsCompletion]
    exact List.length_eq_zero_iff.mp (by omega)
  have hprefix : fallbackExchange worker content answer ∉ ⟨.monotonic, start⟩ :: first ++ probes :=
    fun hmem => absurd (hquiet ▸ fallbackExchange_mem hmem) List.not_mem_nil
  obtain ⟨middle, rfl, rfl⟩ := split_after htrace hprefix
  have hmem : fallbackExchange worker content answer ∈
      middle ++ fallbackExchange worker content answer :: after := by simp
  obtain rfl := route_unavailable hroute hmem
  obtain ⟨ready, now, tail, rfl, hnow, hready⟩ := route_before hroute rfl
  obtain ⟨heligible, hrequired, capacity, listing, none_, listed, ids', rfl, hnone, hshows, hlisted,
    hlists', hmodel'⟩ := ends_fallbackReady hready
  obtain ⟨missing, ids, hmissing, hlists, ⟨hmodel, -⟩ | ⟨-, context, hcontext⟩⟩ :=
    ends_availability hprobes (by simp)
  · refine ⟨heligible, ?_, ⟨start, now, first, probes, capacity, listing, tail, missing, none_,
      listed, ids, ids', by simp, hnow, hprobes, hmissing, hlists, hmodel, hnone, hshows, hlisted,
      hlists', hmodel'⟩, hunsubmitted⟩
    rintro hv2
    rw [hv2] at hrequired
    exact absurd hrequired (by decide)
  · simp [contextAvailability, hrequired] at hcontext

def sampleFallback : FallbackWorker :=
  ⟨sampleOllama, ⟨⟨str "http://127.0.0.1:1234", str "s"⟩, str "t", 300⟩, [(sampleRequest false).taskKey]⟩

/-- Ollama lacks its model and has none resident; LM Studio lists its own and answers. -/
def sampleFallbackAnswers : ∀ query, Query.Answer query
  | .send request => match request.call with
    | .models => .ok (plainResponse (str "\x7b\"data\":[\x7b\"id\":\"s\"\x7d]\x7d"))
    | .show _ => .error .httpError
    | .residents => .ok (plainResponse (str "\x7b\"models\":[]\x7d"))
    | .completion _ => .ok (plainResponse [])
  | .monotonic => (0 : ℚ)
  | .client => (none : Option Fault)

/-- The exchanges of the sample's call. -/
def sampleExchanges : Trace Query.Answer :=
  ((sampleFallback.infer ⟨100, fun _ _ => true⟩ (sampleRequest false) 60 none).run
    sampleFallbackAnswers).1

/-- The sample's call is routed to LM Studio. -/
theorem fallback_routing_sample :
    (completions sampleExchanges).length ≤ 1 ∧ (completions sampleExchanges).length = 1 ∧
      ∀ x ∈ completions sampleExchanges,
        SubmitsTo (.ollama sampleOllama) x ∨ SubmitsTo (.lmStudio sampleFallback.fallback) x :=
  ⟨(fallback_routing (Program.ends_run sampleFallbackAnswers _)).1, by decide +kernel,
    (fallback_routing (Program.ends_run sampleFallbackAnswers _)).2.1⟩

end Gateway
