import Gateway.Service.Routes
import Gateway.Worker.Health

/-! The health of tasks, as callers are told of it. -/
namespace Gateway

open Program (Ends Trace)

/-- The worker of the service. -/
inductive InferenceWorker where
  | ollama (worker : OllamaWorker)
  | fallback (worker : FallbackWorker)

/-- `health(task)`, with the timeout that each worker defaults to. -/
def InferenceWorker.health (library : Library) (task : Task) : InferenceWorker → Work Bool
  | .ollama worker => Gateway.health library.recursionLimit (.ollama worker) (some task)
  | .fallback worker => worker.health library (some task) 15

/-- What is said of one task. -/
structure TaskHealth where
  task : Task
  available : Bool
deriving DecidableEq

/-- Tuples in the order of Python. -/
def taskLe (a b : Task) : Prop := toLex a ≤ toLex b

instance : DecidableRel taskLe := fun a b => inferInstanceAs (Decidable (toLex a ≤ toLex b))

/-- `sorted(task for task in TASK_POLICIES if task in credential.tasks)`. -/
def authorizedTasks (credential : Credential) : List Task :=
  ((taskPolicies.map Prod.fst).filter (· ∈ credential.tasks)).insertionSort taskLe

/-- The status and the diagnostic code of a task. -/
def statusFields (available : Bool) : List (Str × Json) :=
  [(str "status", .string (if available then str "available" else str "unavailable")),
    (str "diagnostic_code", .string (if available then str "ready" else str "worker_unavailable"))]

def TaskHealth.entry (h : TaskHealth) : Json :=
  .dict ([(str "id", .string h.task.1), (str "version", .int h.task.2)] ++ statusFields h.available)

def healthBody (tasks : List TaskHealth) : Json :=
  .dict [(str "protocol_version", .int protocolVersion), (str "tasks", .list (tasks.map TaskHealth.entry))]

/-- `document_task_profile`. -/
def documentTaskProfile : Json :=
  .dict [(str "version", .int 1), (str "context_tokens", .int documentContextTokens),
    (str "max_output_tokens", .int documentMaxOutputTokens),
    (str "max_schema_bytes", .int maxSchemaBytes),
    (str "schema_features", .list [.string (str "bounded_source_passages_v1")])]

def profileBody (h : TaskHealth) : Json :=
  .dict ([(str "protocol_version", .int protocolVersion),
    (str "task", .dict [(str "id", .string h.task.1), (str "version", .int h.task.2)]),
    (str "profile", documentTaskProfile)] ++ statusFields h.available)

section Service

variable (library : Library) (worker : InferenceWorker)

/-- One task asked about. -/
def askHealth (task : Task) : Work TaskHealth := do
  let available ← worker.health library task
  return ⟨task, available⟩

/-- `GatewayService.health`. -/
def GatewayService.health (credential : Credential) : Work (List TaskHealth) :=
  (authorizedTasks credential).mapM (askHealth library worker)

/-- `GatewayService.task_profile`. -/
def GatewayService.taskProfile (credential : Credential) (task : Task) :
    Work (Except GatewayFailure TaskHealth) :=
  if task ∉ credential.tasks then return .error ⟨str "forbidden", false, 403, none⟩
  else if task ≠ documentTaskV2 then return .error ⟨str "unsupported_task", false, 404, none⟩
  else do
    let health ← askHealth library worker task
    return .ok health

/-- `GET /v1/health`. -/
def healthRoute (sha256 : Bytes → Str) (credentials : CredentialStore) (web : WebRequest) :
    Work WebReply :=
  match authenticateRequest sha256 credentials web with
  | none => return genericAuthFailure
  | some credential => do
    let tasks ← GatewayService.health library worker credential.toCredential
    return ⟨200, healthBody tasks⟩

/-- `GET /v1/tasks/{task_id}/{task_version}/profile`. -/
def profileRoute (sha256 : Bytes → Str) (credentials : CredentialStore) (web : WebRequest)
    (task : Task) : Work WebReply :=
  match authenticateRequest sha256 credentials web with
  | none => return genericAuthFailure
  | some credential => do
    match ← GatewayService.taskProfile library worker credential.toCredential task with
    | .ok health => return ⟨200, profileBody health⟩
    | .error failure => return failureResponse none failure

end Service

variable {library : Library} {worker : InferenceWorker} {credential : Credential} {task : Task}
variable {sha256 : Bytes → Str} {credentials : CredentialStore} {web : WebRequest} {reply : WebReply}
variable {trace : Trace Query.Answer} {entry : CredentialEntry}

/-! The tasks of a caller. -/

theorem taskPolicy?_isSome : (taskPolicy? task).isSome ↔ task ∈ taskPolicies.map Prod.fst := by
  simp [taskPolicy?, List.find?_isSome, and_comm]

theorem mem_authorizedTasks :
    task ∈ authorizedTasks credential ↔ task ∈ credential.tasks ∧ (taskPolicy? task).isSome := by
  rw [authorizedTasks, List.mem_insertionSort, List.mem_filter, taskPolicy?_isSome, and_comm]
  simp

/-- Each task is named once, in order. -/
theorem authorizedTasks_sorted :
    (authorizedTasks credential).Pairwise (fun a b => toLex a < toLex b) := by
  have hle : (authorizedTasks credential).Pairwise taskLe := by
    have htotal : Std.Total taskLe := ⟨fun a b => le_total (toLex a) (toLex b)⟩
    have htrans : IsTrans Task taskLe := ⟨fun a b c => le_trans (α := Lex Task)⟩
    exact List.pairwise_insertionSort _ _
  have hnodup : (authorizedTasks credential).Nodup := by
    refine (List.perm_insertionSort _ _).nodup_iff.mpr (List.Nodup.filter _ ?_)
    decide
  refine List.Pairwise.imp₂ (fun a b hle hne => ?_) hle hnodup
  exact lt_of_le_of_ne hle fun he => hne (toLex.injective he)

/-! What is asked for a caller. -/

theorem quiet_workerHealth : Quiet (worker.health library task) := by
  cases worker with
  | ollama worker => exact quiet_health
  | fallback worker => exact quiet_fallbackHealth

theorem quiet_askHealth : Quiet (askHealth library worker task) :=
  quiet_workerHealth.bind fun _ => trivial

theorem ends_askHealth {health : TaskHealth} :
    Ends (askHealth library worker task) trace (.ok health) ↔
      health.task = task ∧ Ends (worker.health library task) trace (.ok health.available) := by
  rw [askHealth, Program.ends_bind_ok]
  constructor
  · rintro ⟨available, first, second, hfirst, hsecond, rfl⟩
    obtain ⟨rfl, hhealth⟩ := Program.ends_pure.mp hsecond
    obtain rfl := Except.ok.inj hhealth
    exact ⟨rfl, by simpa using hfirst⟩
  · rintro ⟨rfl, h⟩
    exact ⟨health.available, trace, [], h, Program.ends_pure.mpr ⟨rfl, rfl⟩, by simp⟩

theorem ends_health_ok {tasks : List TaskHealth} :
    Ends (GatewayService.health library worker credential) trace (.ok tasks) ↔
      ∃ runs : List (Trace Query.Answer × TaskHealth), trace = (runs.map Prod.fst).flatten ∧
        tasks = runs.map Prod.snd ∧
        List.Forall₂ (fun task run => run.2.task = task ∧
          Ends (worker.health library task) run.1 (.ok run.2.available))
          (authorizedTasks credential) runs := by
  rw [GatewayService.health, Program.ends_mapM_ok]
  simp only [ends_askHealth]

theorem ends_taskProfile {answer : Except GatewayFailure TaskHealth} :
    Ends (GatewayService.taskProfile library worker credential task) trace (.ok answer) ↔
      (task ∉ credential.tasks ∧ trace = [] ∧ answer = .error ⟨str "forbidden", false, 403, none⟩) ∨
      (task ∈ credential.tasks ∧ task ≠ documentTaskV2 ∧ trace = [] ∧
        answer = .error ⟨str "unsupported_task", false, 404, none⟩) ∨
      (task ∈ credential.tasks ∧ task = documentTaskV2 ∧ ∃ available,
        Ends (worker.health library task) trace (.ok available) ∧ answer = .ok ⟨task, available⟩) := by
  rw [GatewayService.taskProfile]
  by_cases hmine : task ∈ credential.tasks
  · rw [if_neg (not_not.mpr hmine)]
    by_cases hdocument : task = documentTaskV2
    · rw [if_neg (not_not.mpr hdocument), Program.ends_bind_ok]
      constructor
      · rintro ⟨health, first, second, hfirst, hsecond, rfl⟩
        obtain ⟨rfl, he⟩ := Program.ends_pure.mp hsecond
        obtain rfl := Except.ok.inj he
        obtain ⟨rfl, hhealth⟩ := ends_askHealth.mp hfirst
        exact .inr (.inr ⟨hmine, hdocument, health.available, by simpa using hhealth, rfl⟩)
      · rintro (⟨hnot, -⟩ | ⟨-, hnot, -⟩ | ⟨-, -, available, h, rfl⟩)
        · exact absurd hmine hnot
        · exact absurd hdocument hnot
        · exact ⟨⟨task, available⟩, trace, [], ends_askHealth.mpr ⟨rfl, h⟩,
            Program.ends_pure.mpr ⟨rfl, rfl⟩, by simp⟩
    · rw [if_pos hdocument, Program.ends_pure]
      simp [hmine, hdocument]
  · rw [if_pos hmine, Program.ends_pure]
    simp [hmine]

/-- What the two routes tell a caller, and what they ask the workers for it. -/
structure HealthTold (library : Library) (worker : InferenceWorker) (sha256 : Bytes → Str)
    (credentials : CredentialStore) (web : WebRequest) : Prop where
  /-- Nothing is submitted to any worker. -/
  quiet : ∀ trace r, Ends (healthRoute library worker sha256 credentials web) trace r →
    completions trace = []
  profileQuiet : ∀ task trace r,
    Ends (profileRoute library worker sha256 credentials web task) trace r → completions trace = []
  /-- For a stranger no worker is asked anything. -/
  stranger : (∀ entry token, ¬ web.Presents sha256 credentials entry token) → ∀ task trace r,
    (Ends (healthRoute library worker sha256 credentials web) trace r ↔
      trace = [] ∧ r = .ok genericAuthFailure) ∧
    (Ends (profileRoute library worker sha256 credentials web task) trace r ↔
      trace = [] ∧ r = .ok genericAuthFailure)
  /-- A caller is told of the tasks it may use that have a policy, each once, in order, and each by a
  health check of its own. -/
  told : ∀ entry token, web.Presents sha256 credentials entry token → ∃ tasks : List Task,
    tasks.Pairwise (fun a b => toLex a < toLex b) ∧
    (∀ task, task ∈ tasks ↔ task ∈ entry.tasks ∧ (taskPolicy? task).isSome) ∧
    ∀ trace reply, Ends (healthRoute library worker sha256 credentials web) trace (.ok reply) ↔
      ∃ runs : List (Trace Query.Answer × TaskHealth), trace = (runs.map Prod.fst).flatten ∧
        reply = ⟨200, healthBody (runs.map Prod.snd)⟩ ∧
        List.Forall₂ (fun task run => run.2.task = task ∧
          Ends (worker.health library task) run.1 (.ok run.2.available)) tasks runs
  /-- The profile is that of one task alone, and needs the same right to it. -/
  profiled : ∀ entry token, web.Presents sha256 credentials entry token → ∀ task trace reply,
    Ends (profileRoute library worker sha256 credentials web task) trace (.ok reply) ↔
      (task ∉ entry.tasks ∧ trace = [] ∧
        reply = failureResponse none ⟨str "forbidden", false, 403, none⟩) ∨
      (task ∈ entry.tasks ∧ task ≠ documentTaskV2 ∧ trace = [] ∧
        reply = failureResponse none ⟨str "unsupported_task", false, 404, none⟩) ∨
      (task ∈ entry.tasks ∧ task = documentTaskV2 ∧ ∃ available,
        Ends (worker.health library task) trace (.ok available) ∧
        reply = ⟨200, profileBody ⟨task, available⟩⟩)

theorem healthRoute_eq (h : authenticateRequest sha256 credentials web = some entry) :
    healthRoute library worker sha256 credentials web =
      GatewayService.health library worker entry.toCredential >>= fun tasks =>
        pure ⟨200, healthBody tasks⟩ := by
  rw [healthRoute, h]

/-- What a route makes of the answer to a profile. -/
def profileReply : Except GatewayFailure TaskHealth → WebReply
  | .ok health => ⟨200, profileBody health⟩
  | .error failure => failureResponse none failure

theorem profileRoute_eq (h : authenticateRequest sha256 credentials web = some entry) :
    profileRoute library worker sha256 credentials web task =
      GatewayService.taskProfile library worker entry.toCredential task >>= fun answer =>
        pure (profileReply answer) := by
  rw [profileRoute, h]
  refine bind_congr fun answer => ?_
  cases answer <;> rfl

theorem quiet_taskProfile : Quiet (GatewayService.taskProfile library worker credential task) := by
  rw [GatewayService.taskProfile]
  split
  · trivial
  · split
    · trivial
    · exact quiet_askHealth.bind fun _ => trivial

theorem health_told : HealthTold library worker sha256 credentials web where
  quiet trace r h := by
    refine completions_quiet ?_ h
    cases hentry : authenticateRequest sha256 credentials web with
    | none =>
      rw [healthRoute, hentry]
      trivial
    | some entry =>
      rw [healthRoute_eq hentry]
      have hhealth : Quiet (GatewayService.health library worker entry.toCredential) :=
        Program.Only.mapM fun _ _ => quiet_askHealth
      exact hhealth.bind fun _ => trivial
  profileQuiet task trace r h := by
    refine completions_quiet ?_ h
    cases hentry : authenticateRequest sha256 credentials web with
    | none =>
      rw [profileRoute, hentry]
      trivial
    | some entry =>
      rw [profileRoute_eq hentry]
      exact quiet_taskProfile.bind fun _ => trivial
  stranger hstranger task trace r := by
    have hnone : authenticateRequest sha256 credentials web = none := by
      refine Option.eq_none_iff_forall_ne_some.mpr fun entry hentry => ?_
      obtain ⟨token, hpresents⟩ := authenticateRequest_eq_some.mp hentry
      exact hstranger entry token hpresents
    rw [healthRoute, profileRoute, hnone]
    exact ⟨Program.ends_pure, Program.ends_pure⟩
  told entry token hpresents := by
    have hentry := authenticateRequest_eq_some.mpr ⟨token, hpresents⟩
    refine ⟨authorizedTasks entry.toCredential, authorizedTasks_sorted, fun _ => mem_authorizedTasks,
      fun trace reply => ?_⟩
    rw [healthRoute_eq hentry, Program.ends_bind_ok]
    constructor
    · rintro ⟨tasks, first, second, hfirst, hsecond, rfl⟩
      obtain ⟨rfl, hreply⟩ := Program.ends_pure.mp hsecond
      obtain ⟨runs, rfl, rfl, hruns⟩ := ends_health_ok.mp hfirst
      exact ⟨runs, by simp, Except.ok.inj hreply, hruns⟩
    · rintro ⟨runs, rfl, rfl, hruns⟩
      exact ⟨runs.map Prod.snd, _, [], ends_health_ok.mpr ⟨runs, rfl, rfl, hruns⟩,
        Program.ends_pure.mpr ⟨rfl, rfl⟩, by simp⟩
  profiled entry token hpresents task trace reply := by
    have hentry := authenticateRequest_eq_some.mpr ⟨token, hpresents⟩
    have hends : Ends (profileRoute library worker sha256 credentials web task) trace (.ok reply) ↔
        ∃ answer, Ends (GatewayService.taskProfile library worker entry.toCredential task) trace
          (.ok answer) ∧ reply = profileReply answer := by
      rw [profileRoute_eq hentry, Program.ends_bind_ok]
      constructor
      · rintro ⟨answer, first, second, hfirst, hsecond, rfl⟩
        obtain ⟨rfl, hreply⟩ := Program.ends_pure.mp hsecond
        exact ⟨answer, by simpa using hfirst, Except.ok.inj hreply⟩
      · rintro ⟨answer, h, rfl⟩
        exact ⟨answer, trace, [], h, Program.ends_pure.mpr ⟨rfl, rfl⟩, by simp⟩
    rw [hends]
    constructor
    · rintro ⟨answer, h, rfl⟩
      rcases ends_taskProfile.mp h with ⟨hmine, rfl, rfl⟩ | ⟨hmine, hdocument, rfl, rfl⟩ |
        ⟨hmine, hdocument, available, hhealth, rfl⟩
      · exact .inl ⟨hmine, rfl, rfl⟩
      · exact .inr (.inl ⟨hmine, hdocument, rfl, rfl⟩)
      · exact .inr (.inr ⟨hmine, hdocument, available, hhealth, rfl⟩)
    · rintro (⟨hmine, rfl, rfl⟩ | ⟨hmine, hdocument, rfl, rfl⟩ |
        ⟨hmine, hdocument, available, hhealth, rfl⟩)
      · exact ⟨_, ends_taskProfile.mpr (.inl ⟨hmine, rfl, rfl⟩), rfl⟩
      · exact ⟨_, ends_taskProfile.mpr (.inr (.inl ⟨hmine, hdocument, rfl, rfl⟩)), rfl⟩
      · exact ⟨_, ends_taskProfile.mpr (.inr (.inr ⟨hmine, hdocument, available, hhealth, rfl⟩)), rfl⟩

end Gateway
