import Gateway.Worker.Capacity
import Gateway.Worker.Infer

/-! When a call gets to its submission, and for which models a completion can be written. -/
namespace Gateway

open Program (Ends Trace)

/-- An answer to this request holds the document. -/
def Told (limit : ℕ) (trace : Trace Query.Answer) (request : HttpRequest)
    (document : List (Str × Json)) : Prop :=
  ∃ answer, (⟨.send request, answer⟩ : Σ query, Query.Answer query) ∈ trace ∧
    Delivers limit answer document

/-- The clock has been read before the deadline. -/
def InTime (deadline : Option ℚ) (trace : Trace Query.Answer) : Prop :=
  ∀ d, deadline = some d →
    ∃ now : ℚ, (⟨.monotonic, now⟩ : Σ query, Query.Answer query) ∈ trace ∧ now < d

/-- The task needs no context, or both answers of Ollama prove that it has enough. -/
def CapacityTold (limit : ℕ) (w : Worker) (minimum : ℤ) (trace : Trace Query.Answer) : Prop :=
  minimum = 0 ∨ ∃ (worker : OllamaWorker) (configuration resident : List (Str × Json)),
    w = .ollama worker ∧ Told limit trace ⟨w, .show worker.model⟩ configuration ∧
    Told limit trace ⟨w, .residents⟩ resident ∧
    ContextProven worker.model minimum configuration resident

/-- The ttl is one that can be configured. -/
def Worker.Configured : Worker → Prop
  | .ollama _ => True
  | .lmStudio worker => 1 ≤ worker.idleTtlSeconds ∧ worker.idleTtlSeconds ≤ 3600

variable {limit : ℕ} {library : Library} {w : Worker} {request : InferenceRequest} {minimum : ℤ}
variable {trace first second : Trace Query.Answer} {document : List (Str × Json)} {r : HttpRequest}
variable {timeout : ℚ} {deadline : Option ℚ} {checkSchema : Json → Bool}

/-- A completion can be written exactly where the model's name has no lone surrogate. -/
theorem completionBody_worker (haccepted : request.Accepted checkSchema) (hw : w.Configured) :
    (∃ b, completionBody w.payload request = .ok b) ↔ Scalars w.model := by
  have hmodel : (str "model", Json.string w.model) ∈ w.payload request := by
    cases w <;> simp [Worker.payload, Worker.model, ollamaPayload, lmStudioPayload]
  constructor
  · rintro ⟨b, hb⟩
    exact scalars_of_completionBody hmodel hb
  · intro hscalars
    cases w with
    | ollama worker => exact completionBody_ollama hscalars haccepted
    | lmStudio worker => exact completionBody_lmStudio hscalars hw.1 hw.2 haccepted

/-! The probes. -/

theorem told_append : Told limit (first ++ second) r document ↔
    Told limit first r document ∨ Told limit second r document := by
  simp only [Told, List.mem_append, or_and_right, exists_or]

theorem told_singleton {r' : HttpRequest} {answer : Except Fault HttpResponse} :
    Told limit [⟨.send r', answer⟩] r document ↔ r = r' ∧ Delivers limit answer document := by
  constructor
  · rintro ⟨answer', hmem, hdelivers⟩
    obtain ⟨hquery, hanswer⟩ := Sigma.mk.inj (List.mem_singleton.mp hmem)
    obtain rfl := Query.send.inj hquery
    obtain rfl := eq_of_heq hanswer
    exact ⟨rfl, hdelivers⟩
  · rintro ⟨rfl, hdelivers⟩
    exact ⟨answer, List.mem_singleton_self _, hdelivers⟩

/-- A probe reads a document where its answer holds it, and nothing of another request. -/
theorem told_probe {r' : HttpRequest} {outcome : Except WorkerRaised (Option (List (Str × Json)))}
    (h : Ends (Work.probe limit r') trace outcome) :
    Told limit trace r document ↔ r = r' ∧ outcome = .ok (some document) := by
  obtain ⟨answer, rest, rfl, hend⟩ := Program.ends_ask.mp h
  obtain ⟨rfl, rfl⟩ := Program.ends_done.mp hend
  exact told_singleton.trans (and_congr_right' settle_probe.symm)

/-- The capacity is there exactly where the answers tell so. -/
theorem ends_contextAvailability {outcome : Except WorkerRaised WorkerAvailability}
    (h : Ends (contextAvailability limit w minimum) trace outcome) :
    outcome = .ok .available ↔ CapacityTold limit w minimum trace := by
  unfold CapacityTold
  by_cases hzero : minimum = 0
  · cases w <;> simp_all [contextAvailability]
  rw [or_iff_right hzero]
  cases w with
  | lmStudio worker => simp_all [contextAvailability]
  | ollama worker =>
    simp only [Worker.ollama.injEq, exists_and_left, exists_eq_left']
    rw [contextAvailability, if_neg hzero] at h
    rcases Program.ends_bind.mp h with ⟨e, hshow, rfl⟩ |
      ⟨configuration, first, second, hshow, hrest, rfl⟩
    · simp [told_probe hshow]
    cases configuration with
    | none =>
      obtain ⟨rfl, rfl⟩ := Program.ends_pure.mp hrest
      simp [told_probe hshow]
    | some configuration =>
      simp only at hrest
      cases hverdict : configurationVerdict minimum configuration with
      | some verdict =>
        rw [hverdict] at hrest
        obtain ⟨rfl, rfl⟩ := Program.ends_pure.mp hrest
        simp [told_probe hshow, configurationVerdict_ne_available hverdict]
      | none =>
        rw [hverdict] at hrest
        rcases Program.ends_bind.mp hrest with ⟨e, hps, rfl⟩ | ⟨resident, third, last, hps, hlast, rfl⟩
        · simp [told_append, told_probe hshow, told_probe hps]
        cases resident with
        | none =>
          obtain ⟨rfl, rfl⟩ := Program.ends_pure.mp hlast
          simp [told_append, told_probe hshow, told_probe hps]
        | some resident =>
          obtain ⟨rfl, rfl⟩ := Program.ends_pure.mp hlast
          simp [told_append, told_probe hshow, told_probe hps, contextProven_iff, hverdict, eq_comm]

/-! What comes before the submission. -/

theorem ends_clock_bind {α : Type} {f : ℚ → Work α} {outcome : Except WorkerRaised α}
    (h : Ends (Work.clock >>= f) trace outcome) :
    ∃ (now : ℚ) (rest : Trace Query.Answer), trace = ⟨.monotonic, now⟩ :: rest ∧
      Ends (f now) rest outcome := by
  obtain ⟨now, rest, rfl, hrest⟩ := Program.ends_ask.mp h
  exact ⟨now, rest, rfl, hrest⟩

/-- The clock is read before the deadline, or no timeout is left. -/
theorem ends_dispatchTimeout {outcome : Except WorkerRaised ℚ}
    (h : Ends (dispatchTimeout timeout deadline) trace outcome) :
    (∃ remaining, outcome = .ok remaining) ↔ InTime deadline trace := by
  cases deadline with
  | none =>
    obtain ⟨rfl, rfl⟩ := Program.ends_pure.mp h
    simp [InTime]
  | some deadline =>
    obtain ⟨now, rest, rfl, hend⟩ := ends_clock_bind h
    split_ifs at hend with hdue
    · obtain ⟨rfl, rfl⟩ := Program.ends_throw.mp hend
      refine iff_of_false (by simp) fun hin => ?_
      obtain ⟨now', hmem, hlt⟩ := hin deadline rfl
      obtain rfl := eq_of_heq (Sigma.mk.inj (List.mem_singleton.mp hmem)).2
      exact absurd (sub_nonpos.mp hdue) (not_le.mpr hlt)
    · obtain ⟨rfl, rfl⟩ := Program.ends_pure.mp hend
      refine iff_of_true ⟨_, rfl⟩ fun d hd => ?_
      obtain rfl := Option.some.inj hd
      exact ⟨now, List.mem_singleton_self _, not_le.mp (mt sub_nonpos.mpr hdue)⟩

/-- A look at the clock tells no document. -/
theorem not_told_dispatchTimeout {outcome : Except WorkerRaised ℚ}
    (h : Ends (dispatchTimeout timeout deadline) trace outcome) : ¬ Told limit trace r document := by
  rintro ⟨answer, hmem, -⟩
  cases deadline with
  | none =>
    obtain ⟨rfl, -⟩ := Program.ends_pure.mp h
    cases hmem
  | some deadline =>
    obtain ⟨now, rest, rfl, hend⟩ := ends_clock_bind h
    have hrest : rest = [] := by
      split_ifs at hend
      · exact (Program.ends_throw.mp hend).1
      · exact (Program.ends_pure.mp hend).1
    rw [hrest, List.mem_singleton] at hmem
    cases (Sigma.mk.inj hmem).1

/-- A call gets to its submission exactly where there is time left and capacity. -/
theorem ends_checkCapacity {outcome : Except WorkerRaised Unit}
    (h : Ends (checkCapacity library w request timeout deadline) trace outcome) :
    outcome = .ok () ↔ InTime deadline trace ∧ CapacityTold library.recursionLimit w
      (requiredContextTokens (some request.taskKey)) trace := by
  rcases Program.ends_bind.mp h with ⟨e, hdue, rfl⟩ | ⟨remaining, first, second, hdue, hrest, rfl⟩
  · refine iff_of_false (by simp) ?_
    rintro ⟨hin, -⟩
    obtain ⟨remaining, he⟩ := (ends_dispatchTimeout hdue).mpr hin
    cases he
  have htold : ∀ r document, Told library.recursionLimit (first ++ second) r document ↔
      Told library.recursionLimit second r document :=
    fun _ _ => told_append.trans (or_iff_right (not_told_dispatchTimeout hdue))
  have hcapacity : InTime deadline (first ++ second) ∧ CapacityTold library.recursionLimit w
        (requiredContextTokens (some request.taskKey)) (first ++ second) ↔
      CapacityTold library.recursionLimit w (requiredContextTokens (some request.taskKey)) second := by
    simp only [CapacityTold, htold]
    refine and_iff_right fun d hd => ?_
    obtain ⟨now, hmem, hlt⟩ := (ends_dispatchTimeout hdue).mp ⟨remaining, rfl⟩ d hd
    exact ⟨now, List.mem_append_left _ hmem, hlt⟩
  rw [hcapacity]
  rcases Program.ends_bind.mp hrest with ⟨e, hcontext, rfl⟩ |
    ⟨capacity, third, last, hcontext, hlast, rfl⟩
  · rw [← ends_contextAvailability hcontext]
    simp
  · split_ifs at hlast with havailable
    · obtain ⟨rfl, rfl⟩ := Program.ends_throw.mp hlast
      rw [List.append_nil, ← ends_contextAvailability hcontext]
      simp [havailable]
    · obtain ⟨rfl, rfl⟩ := Program.ends_pure.mp hlast
      rw [List.append_nil, ← ends_contextAvailability hcontext]
      simp [not_not.mp havailable]

end Gateway
