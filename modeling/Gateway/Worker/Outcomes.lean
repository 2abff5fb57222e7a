import Gateway.Worker.Choking
import Gateway.Worker.Submission

/-! What leaves a worker, whatever its endpoint does. -/
namespace Gateway

open Program (Ends Trace)

/-- One of the three exceptions that are meant to leave `infer`. -/
def WorkerRaised.Named : WorkerRaised → Prop
  | .unavailable _ | .outcomeAmbiguous _ | .invalidOutput _ => True
  | _ => False

def Fault.IsConnection : Fault → Prop
  | .connectError | .connectTimeout => True
  | _ => False

variable {limit : ℕ} {library : Library} {w : Worker} {request : InferenceRequest}
variable {trace probes : Trace Query.Answer} {schema : List (Str × Json)} {α β : Type}
variable {response : HttpResponse} {e : WorkerRaised} {timeout : ℚ} {deadline : Option ℚ}

/-! The submission. -/

/-- What `infer` makes of its block, the client closed. -/
def concluded (library : Library) (schema : List (Str × Json)) (submitted : Bool) :
    Except WorkerRaised (List (Str × Json)) → Except WorkerRaised WorkerResult
  | .error e => .error (classify submitted e)
  | .ok document => validatedResult library schema document

/-- The inside of the client: the checks, and after them the submission. -/
theorem ends_exchange {r : Except WorkerRaised (Bool × Except WorkerRaised (List (Str × Json)))}
    (h : Ends (exchange library w request timeout deadline) trace r) :
    (∃ e, Ends (checkCapacity library w request timeout deadline) trace (.error e) ∧
      r = .ok (false, .error e)) ∨
    ∃ (probes inner : Trace Query.Answer) (outcome : Except WorkerRaised (List (Str × Json))),
      Ends (checkCapacity library w request timeout deadline) probes (.ok ()) ∧
      Ends (submit library w request) inner outcome ∧ trace = probes ++ inner ∧
      r = .ok (true, outcome) := by
  obtain ⟨checked, probes, rest, hprobes, hrest, rfl⟩ := Program.ends_attempt_bind.mp h
  cases checked with
  | error e =>
    obtain ⟨rfl, rfl⟩ := Program.ends_pure.mp hrest
    exact .inl ⟨e, by rwa [List.append_nil], rfl⟩
  | ok u =>
    obtain ⟨outcome, inner, last, hinner, hlast, rfl⟩ := Program.ends_attempt_bind.mp hrest
    obtain ⟨rfl, rfl⟩ := Program.ends_pure.mp hlast
    exact .inr ⟨probes, inner, outcome, hprobes, hinner, by simp, rfl⟩

/-- The same with its client, whose fault takes the place of what is raised or returned inside. -/
theorem ends_clientExchange {r : Except WorkerRaised (Bool × Except WorkerRaised (List (Str × Json)))}
    (h : Ends (clientExchange library w request timeout deadline) trace r) :
    (∃ f : Fault, trace = [⟨.client, some f⟩] ∧ r = .ok (false, .error (.fault f))) ∨
    ∃ (inner : Trace Query.Answer) (closed : Option Fault) (submitted : Bool)
      (outcome : Except WorkerRaised (List (Str × Json))),
      Ends (exchange library w request timeout deadline) inner (.ok (submitted, outcome)) ∧
      trace = clientTrace inner closed ∧ r = .ok (submitted, settled closed outcome) := by
  obtain ⟨opened, first, rest, hopened, hrest, rfl⟩ := Program.ends_attempt_bind.mp h
  obtain ⟨answer, rfl, rfl⟩ := ends_awaitClient.mp hopened
  cases answer with
  | some f =>
    obtain ⟨rfl, rfl⟩ := Program.ends_pure.mp hrest
    exact .inl ⟨f, rfl, rfl⟩
  | none =>
    rcases Program.ends_bind.mp hrest with ⟨e, herror, -⟩ | ⟨⟨submitted, outcome⟩, inner, tail, hinner,
      htail, rfl⟩
    · rcases ends_exchange herror with ⟨e, -, he⟩ | ⟨_, _, _, -, -, -, he⟩ <;> cases he
    · obtain ⟨closing, closed, last, hclosed, hlast, rfl⟩ := Program.ends_attempt_bind.mp htail
      obtain ⟨answer, rfl, rfl⟩ := ends_awaitClient.mp hclosed
      refine .inr ⟨inner, answer, submitted, outcome, hinner, ?_⟩
      cases answer with
      | some f =>
        obtain ⟨rfl, rfl⟩ := Program.ends_pure.mp hlast
        exact ⟨by simp [clientTrace], rfl⟩
      | none =>
        obtain ⟨rfl, rfl⟩ := Program.ends_pure.mp hlast
        exact ⟨by simp [clientTrace], rfl⟩

/-- A call has no client, or fails before its submission, or gets to it. -/
theorem ends_inferOn {r : Except WorkerRaised WorkerResult}
    (h : Ends (inferOn library w request timeout deadline) trace r) :
    (∃ f : Fault, trace = [⟨.client, some f⟩] ∧ r = .error (classify false (.fault f))) ∨
    (∃ (probes : Trace Query.Answer) (closed : Option Fault) (e : WorkerRaised),
      Ends (checkCapacity library w request timeout deadline) probes (.error e) ∧
      trace = clientTrace probes closed ∧ r = .error (classify false (closed.elim e .fault))) ∨
    ∃ (probes inner : Trace Query.Answer) (closed : Option Fault)
      (outcome : Except WorkerRaised (List (Str × Json))),
      Ends (checkCapacity library w request timeout deadline) probes (.ok ()) ∧
      Ends (submit library w request) inner outcome ∧ trace = clientTrace (probes ++ inner) closed ∧
      r = concluded library request.generation.responseSchema true (settled closed outcome) := by
  rcases Program.ends_bind.mp h with ⟨e, herror, -⟩ | ⟨⟨submitted, outcome⟩, first, last, hfirst, hlast,
    rfl⟩
  · rcases ends_clientExchange herror with ⟨f, -, he⟩ | ⟨_, _, _, _, -, -, he⟩ <;> cases he
  · have hend : last = [] ∧
        r = concluded library request.generation.responseSchema submitted outcome := by
      cases outcome with
      | error e => exact Program.ends_throw.mp hlast
      | ok document => exact Program.ends_done.mp hlast
    obtain ⟨rfl, rfl⟩ := hend
    rw [List.append_nil]
    rcases ends_clientExchange hfirst with ⟨f, rfl, he⟩ | ⟨inner, closed, submitted', o, hinner, rfl, he⟩
    · obtain ⟨rfl, rfl⟩ := Prod.mk.inj (Except.ok.inj he)
      exact .inl ⟨f, rfl, rfl⟩
    · obtain ⟨rfl, rfl⟩ := Prod.mk.inj (Except.ok.inj he)
      rcases ends_exchange hinner with ⟨e, hchecked, he⟩ |
        ⟨probes, posted, o', hchecked, hsubmit, rfl, he⟩
      · obtain ⟨rfl, rfl⟩ := Prod.mk.inj (Except.ok.inj he)
        refine .inr (.inl ⟨inner, closed, e, hchecked, rfl, ?_⟩)
        cases closed <;> rfl
      · obtain ⟨rfl, rfl⟩ := Prod.mk.inj (Except.ok.inj he)
        exact .inr (.inr ⟨probes, posted, closed, _, hchecked, hsubmit, rfl, rfl⟩)

/-! Faithful outcomes. -/

/-- A status that refuses the completion: 404, 429, or of a failing server. -/
def HttpResponse.Rejects (response : HttpResponse) : Prop :=
  response.statusCode = 404 ∨ response.statusCode = 429 ∨
    500 ≤ response.statusCode ∧ response.statusCode ≤ 599

/-- The response holds a document that offers this result, and the result is acceptable. -/
def HttpResponse.Yields (library : Library) (schema : List (Str × Json)) (response : HttpResponse)
    (result : WorkerResult) : Prop :=
  response.statusCode < 400 ∧ result.mediaType = str "application/json" ∧
    ∃ document, boundedJson library.recursionLimit response = .ok document ∧
      Offers document result.content ∧ Accepts library schema result.content

/-- The transport fails with this: before the response, while it is read or closed, or when the client
is closed. -/
def TransportFails (trace : Trace Query.Answer) (answer : Except Fault HttpResponse) (f : Fault) :
    Prop :=
  answer = .error f ∨ (∃ response, answer = .ok response ∧
    (response.closing = some f ∨ response.cut = some f)) ∨ ClosedByFault trace f

/-- The completion was sent and answered so. -/
def Submitted (trace : Trace Query.Answer) (answer : Except Fault HttpResponse) : Prop :=
  ∃ request, (⟨.send request, answer⟩ : Σ query, Query.Answer query) ∈ completions trace

/-- The outcome is a result or one of the three named exceptions, and says what has become of the
completion. -/
structure Faithful (library : Library) (schema : List (Str × Json)) (trace : Trace Query.Answer)
    (r : Except WorkerRaised WorkerResult) : Prop where
  named : ∀ e, r = .error e → e.Named
  unsubmitted : completions trace = [] → ∃ message, r = .error (.unavailable message)
  unavailable : ∀ answer message, Submitted trace answer → r = .error (.unavailable message) →
    (∃ f, f.IsConnection ∧ TransportFails trace answer f) ∨
      ∃ response, answer = .ok response ∧ response.Rejects
  ambiguous : ∀ answer message, Submitted trace answer → r = .error (.outcomeAmbiguous message) →
    ∃ f, ¬ f.IsConnection ∧ TransportFails trace answer f
  received : ∀ response, Submitted trace (.ok response) →
    (∀ f, ¬ TransportFails trace (.ok response) f) → ¬ response.Rejects →
    (∃ result, response.Yields library schema result ∧ r = .ok result) ∨
      (¬ ∃ result, response.Yields library schema result) ∧
        ∃ message, r = .error (.invalidOutput message)

theorem not_named_of_stray (h : e.Stray) : ¬ e.Named := by
  cases e <;> first | exact h.elim | exact id

theorem not_faithful_of_stray {r : Except WorkerRaised WorkerResult} (hr : r = .error e) (he : e.Stray) :
    ¬ Faithful library schema trace r :=
  fun h => not_named_of_stray he (h.named e hr)

/-- Before a submission it is enough to be unavailable. -/
theorem faithful_unsubmitted {r : Except WorkerRaised WorkerResult} (htrace : completions trace = []) :
    Faithful library schema trace r ↔ ∃ message, r = .error (.unavailable message) := by
  have hnone : ∀ answer, ¬ Submitted trace answer := by
    rintro answer ⟨request, hmem⟩
    simp [htrace] at hmem
  refine ⟨fun h => h.unsubmitted htrace, ?_⟩
  rintro ⟨message, rfl⟩
  refine ⟨?_, fun _ => ⟨message, rfl⟩, fun answer _ h => (hnone answer h).elim,
    fun answer _ h => (hnone answer h).elim, fun response h => (hnone _ h).elim⟩
  rintro e he
  obtain rfl := Except.error.inj he
  trivial

theorem classify_unsubmitted {e : WorkerRaised} :
    (∃ message, classify false e = .unavailable message) ↔
      (∃ message, e = .unavailable message) ∨ e.failsProbe = true := by
  cases e with
  | fault f => cases f <;> simp [classify, WorkerRaised.failsProbe]
  | _ => simp [classify, WorkerRaised.failsProbe]

/-- The fault of a client before a submission. -/
theorem classify_fault (f : Fault) : ∃ message, classify false (.fault f) = .unavailable message :=
  classify_unsubmitted.mpr (.inr rfl)

/-- A call that fails before its submission is faithful unless an answer has choked it. -/
theorem faithful_checked {r : Except WorkerRaised WorkerResult} {closed : Option Fault}
    (h : Ends (checkCapacity library w request timeout deadline) probes (.error e))
    (hr : r = .error (classify false (closed.elim e .fault))) :
    Faithful library schema (clientTrace probes closed) r ↔
      ¬ Choked library.recursionLimit (clientTrace probes closed) := by
  have hquiet : completions (clientTrace probes closed) = [] :=
    completions_clientTrace.trans (completions_quiet quiet_checkCapacity h)
  rw [faithful_unsubmitted hquiet, choked_clientTrace, hr]
  obtain ⟨hraises, hchokes⟩ := tells_checkCapacity probes _ h
  rw [← hchokes]
  cases closed with
  | some f =>
    obtain ⟨message, hmessage⟩ := classify_fault f
    exact iff_of_true ⟨message, congrArg Except.error hmessage⟩ (by simp)
  | none =>
    rcases hraises e rfl with hfails | rfl
    · obtain ⟨message, hmessage⟩ := classify_unsubmitted.mpr hfails
      refine iff_of_true ⟨message, congrArg Except.error hmessage⟩ ?_
      rintro ⟨he, -⟩
      obtain rfl := Except.error.inj he
      rcases hfails with ⟨_, he⟩ | he <;> cases he
    · exact iff_of_false (by simp [classify]) (by simp)

/-! A submission and its answer. -/

/-- A request that cannot be written is not sent; else one answer comes back. -/
theorem ends_submit {r : Except WorkerRaised (List (Str × Json))}
    (h : Ends (submit library w request) trace r) :
    (∃ e, completionBody w.payload request = .error e ∧ trace = [] ∧ r = .error (.json e)) ∨
    ∃ (content : Bytes) (answer : Except Fault HttpResponse),
      completionBody w.payload request = .ok content ∧
      trace = [⟨.send ⟨w, .completion content⟩, answer⟩] ∧
      r = Work.settle (readCompletion library) answer := by
  unfold submit at h
  split at h
  · rename_i e he
    obtain ⟨rfl, rfl⟩ := Program.ends_throw.mp h
    exact .inl ⟨e, he, rfl, rfl⟩
  · rename_i content hcontent
    obtain ⟨answer, rest, rfl, hend⟩ := Program.ends_ask.mp h
    obtain ⟨rfl, rfl⟩ := Program.ends_done.mp hend
    exact .inr ⟨content, answer, hcontent, rfl, rfl⟩

theorem readCompletion_of_rejects (h : response.Rejects) :
    ∃ message, readCompletion library response = .error (.unavailable message) :=
  ⟨_, if_pos h⟩

theorem readCompletion_of_accepted (h : ¬ response.Rejects) (hstatus : response.statusCode < 400) :
    readCompletion library response = boundedJson library.recursionLimit response :=
  (if_neg h).trans (if_neg (not_le.mpr hstatus))

theorem readCompletion_of_refused (h : ¬ response.Rejects) (hstatus : 400 ≤ response.statusCode) :
    ∃ message, readCompletion library response = .error (.invalidOutput message) :=
  ⟨_, (if_neg h).trans (if_pos hstatus)⟩

theorem not_rejects (hstatus : response.statusCode < 400) : ¬ response.Rejects := by
  unfold HttpResponse.Rejects
  omega

/-- What a response below 400 that is closed comes to. -/
theorem concluded_response {r : Except WorkerRaised WorkerResult}
    (hr : r = concluded library schema true (boundedJson library.recursionLimit response))
    (hstatus : response.statusCode < 400) :
    (∃ f, r = .error (classify true (.fault f)) ∧ response.cut = some f) ∨
    (∃ result, response.Yields library schema result ∧ r = .ok result) ∨
    ((¬ ∃ result, response.Yields library schema result) ∧
      ∃ message, r = .error (.invalidOutput message)) ∨
    ∃ e, r = .error e ∧ e.Stray ∧ (response.Overflows library.recursionLimit ∨
      ∃ document, boundedJson library.recursionLimit response = .ok document ∧
        DocumentChokes library.recursionLimit document) := by
  cases hbody : boundedJson library.recursionLimit response with
  | error e =>
    rw [hbody] at hr
    rcases boundedJson_error hbody with ⟨message, rfl⟩ | ⟨f, rfl, hcut⟩ | ⟨rfl, hover⟩
    · refine .inr (.inr (.inl ⟨?_, message, hr⟩))
      rintro ⟨result, -, -, document, hdocument, -⟩
      cases hbody.symm.trans hdocument
    · exact .inl ⟨f, hr, hcut⟩
    · exact .inr (.inr (.inr ⟨_, hr, trivial, .inl hover⟩))
  | ok document =>
    rw [hbody] at hr
    cases hvalid : validatedResult library schema document with
    | ok result =>
      obtain ⟨hmedia, hoffers, haccepts⟩ := validatedResult_eq_ok.mp hvalid
      exact .inr (.inl ⟨result, ⟨hstatus, hmedia, document, hbody, hoffers, haccepts⟩,
        hr.trans hvalid⟩)
    | error e =>
      rcases validatedResult_error hvalid with ⟨message, rfl⟩ | ⟨hstray, hchokes⟩
      · refine .inr (.inr (.inl ⟨?_, message, hr.trans hvalid⟩))
        rintro ⟨result, -, hmedia, document', hdocument, hyields⟩
        obtain rfl := Except.ok.inj (hbody.symm.trans hdocument)
        cases hvalid.symm.trans (validatedResult_eq_ok.mpr ⟨hmedia, hyields⟩)
      · exact .inr (.inr (.inr ⟨e, hr.trans hvalid, hstray, .inr ⟨document, rfl, hchokes⟩⟩))

/-- An answer that chokes leaves a stray exception. -/
theorem concluded_chokes (hstatus : response.statusCode < 400)
    (h : response.Overflows library.recursionLimit ∨
      ∃ document, boundedJson library.recursionLimit response = .ok document ∧
        DocumentChokes library.recursionLimit document) :
    ∃ e, concluded library schema true (readCompletion library response) = .error e ∧ e.Stray := by
  rw [readCompletion_of_accepted (not_rejects hstatus) hstatus]
  rcases h with hover | ⟨document, hbody, hchokes⟩
  · rw [boundedJson_overflows hover]
    exact ⟨_, rfl, trivial⟩
  · rw [hbody]
    exact validatedResult_chokes hchokes

section Submitted

variable {content : Bytes} {answer : Except Fault HttpResponse} {closed : Option Fault}
variable {r : Except WorkerRaised WorkerResult}

/-- The exchange that submits a completion to a worker. -/
def completionExchange (w : Worker) (content : Bytes) (answer : Except Fault HttpResponse) :
    Σ query, Query.Answer query :=
  ⟨.send ⟨w, .completion content⟩, answer⟩

/-- What a submission comes to: a fault, a rejection, a result, invalid output, or a stray exception. -/
theorem concluded_answer
    (hr : r = concluded library schema true
      (settled closed (Work.settle (readCompletion library) answer))) :
    (∃ f, r = .error (classify true (.fault f)) ∧
      TransportFails (clientTrace (probes ++ [completionExchange w content answer]) closed) answer f) ∨
    (∃ response, answer = .ok response ∧ response.Rejects ∧
      ∃ message, r = .error (.unavailable message)) ∨
    (∃ response, answer = .ok response ∧
      ((∃ result, response.Yields library schema result ∧ r = .ok result) ∨
        (¬ ∃ result, response.Yields library schema result) ∧
          ∃ message, r = .error (.invalidOutput message))) ∨
    closed = none ∧ CompletionChokes library.recursionLimit (completionExchange w content answer) := by
  cases closed with
  | some f =>
    exact .inl ⟨f, hr, .inr (.inr (closedByFault_clientTrace.mpr rfl))⟩
  | none =>
    cases answer with
    | error f => exact .inl ⟨f, hr, .inl rfl⟩
    | ok response =>
      cases hclosing : response.closing with
      | some f =>
        have hsettle : Work.settle (readCompletion library) (.ok response) = .error (.fault f) := by
          simp only [Work.settle, hclosing]
        rw [hsettle] at hr
        exact .inl ⟨f, hr, .inr (.inl ⟨response, rfl, .inl hclosing⟩)⟩
      | none =>
        have hsettle : Work.settle (readCompletion library) (.ok response) =
            readCompletion library response := by
          simp only [Work.settle, hclosing]
        rw [hsettle] at hr
        by_cases hrejects : response.Rejects
        · obtain ⟨message, hread⟩ := @readCompletion_of_rejects library response hrejects
          rw [hread] at hr
          exact .inr (.inl ⟨response, rfl, hrejects, message, hr⟩)
        · rcases lt_or_ge response.statusCode 400 with hstatus | hstatus
          · rw [readCompletion_of_accepted hrejects hstatus] at hr
            rcases concluded_response hr hstatus with ⟨f, he, hcut⟩ | hresult | hinvalid |
              ⟨e, -, -, hchokes⟩
            · exact .inl ⟨f, he, .inr (.inl ⟨response, rfl, .inr hcut⟩)⟩
            · exact .inr (.inr (.inl ⟨response, rfl, .inl hresult⟩))
            · exact .inr (.inr (.inl ⟨response, rfl, .inr hinvalid⟩))
            · exact .inr (.inr (.inr ⟨rfl, _, response, rfl, rfl, hclosing, hstatus, hchokes⟩))
          · obtain ⟨message, hread⟩ := @readCompletion_of_refused library response hrejects hstatus
            rw [hread] at hr
            refine .inr (.inr (.inl ⟨response, rfl, .inr ⟨?_, message, hr⟩⟩))
            rintro ⟨result, hyields, -⟩
            exact absurd hstatus (not_le.mpr hyields)

/-- The completion is the one exchange that submits. -/
theorem completions_submitted (hquiet : completions probes = []) :
    completions (clientTrace (probes ++ [completionExchange w content answer]) closed) =
      [completionExchange w content answer] := by
  rw [completions_clientTrace, completions_append, hquiet]
  rfl

theorem classify_submitted (f : Fault) :
    (f.IsConnection ∧ ∃ message, classify true (.fault f) = .unavailable message) ∨
      ¬ f.IsConnection ∧ ∃ message, classify true (.fault f) = .outcomeAmbiguous message := by
  cases f <;> simp [Fault.IsConnection, classify]

section Ended

variable (htrace : completions trace = [completionExchange w content answer])
include htrace

theorem submitted_unique {answer' : Except Fault HttpResponse} (h : Submitted trace answer') :
    answer' = answer := by
  obtain ⟨request', hmem⟩ := h
  rw [htrace] at hmem
  exact eq_of_heq (Sigma.mk.inj (List.mem_singleton.mp hmem)).2

/-- A fault after the submission is told by its kind. -/
theorem faithful_fault {f : Fault} (hr : r = .error (classify true (.fault f)))
    (hfails : TransportFails trace answer f) : Faithful library schema trace r := by
  refine ⟨?_, fun h => (by cases htrace.symm.trans h), ?_, ?_, ?_⟩
  · intro e he
    obtain rfl := Except.error.inj (hr.symm.trans he)
    rcases classify_submitted f with ⟨-, message, hm⟩ | ⟨-, message, hm⟩ <;>
      · rw [hm]
        trivial
  · intro answer' message hsubmitted he
    obtain rfl := submitted_unique htrace hsubmitted
    rcases classify_submitted f with ⟨hconnection, -⟩ | ⟨-, message', hm⟩
    · exact .inl ⟨f, hconnection, hfails⟩
    · cases hm.symm.trans (Except.error.inj (hr.symm.trans he))
  · intro answer' message hsubmitted he
    obtain rfl := submitted_unique htrace hsubmitted
    rcases classify_submitted f with ⟨-, message', hm⟩ | ⟨hconnection, -⟩
    · cases hm.symm.trans (Except.error.inj (hr.symm.trans he))
    · exact ⟨f, hconnection, hfails⟩
  · intro response hsubmitted hnone
    obtain rfl := submitted_unique htrace hsubmitted
    exact (hnone f hfails).elim

theorem faithful_rejected {message : String} (hanswer : answer = .ok response)
    (hrejects : response.Rejects) (hr : r = .error (.unavailable message)) :
    Faithful library schema trace r := by
  refine ⟨?_, fun h => (by cases htrace.symm.trans h), ?_, ?_, ?_⟩
  · intro e he
    obtain rfl := Except.error.inj (hr.symm.trans he)
    trivial
  · intro answer' message' hsubmitted he
    exact .inr ⟨response, (submitted_unique htrace hsubmitted).trans hanswer, hrejects⟩
  · intro answer' message' hsubmitted he
    cases hr.symm.trans he
  · intro response' hsubmitted hnone hrejects'
    obtain rfl := Except.ok.inj ((submitted_unique htrace hsubmitted).trans hanswer)
    exact (hrejects' hrejects).elim

theorem faithful_received (hanswer : answer = .ok response)
    (hr : (∃ result, response.Yields library schema result ∧ r = .ok result) ∨
      (¬ ∃ result, response.Yields library schema result) ∧
        ∃ message, r = .error (.invalidOutput message)) : Faithful library schema trace r := by
  have hending : (∃ result, r = .ok result) ∨ ∃ message, r = .error (.invalidOutput message) := by
    rcases hr with ⟨result, -, he⟩ | ⟨-, hinvalid⟩
    · exact .inl ⟨result, he⟩
    · exact .inr hinvalid
  refine ⟨?_, fun h => (by cases htrace.symm.trans h), ?_, ?_, ?_⟩
  · intro e he
    rcases hending with ⟨result, he'⟩ | ⟨message, he'⟩
    · cases he'.symm.trans he
    · obtain rfl := Except.error.inj (he'.symm.trans he)
      trivial
  · intro answer' message' hsubmitted he
    rcases hending with ⟨result, he'⟩ | ⟨message, he'⟩ <;> cases he'.symm.trans he
  · intro answer' message' hsubmitted he
    rcases hending with ⟨result, he'⟩ | ⟨message, he'⟩ <;> cases he'.symm.trans he
  · intro response' hsubmitted hnone hrejects
    obtain rfl := Except.ok.inj ((submitted_unique htrace hsubmitted).trans hanswer)
    exact hr

end Ended

/-- A completion that chokes its worker ends in a stray exception. -/
theorem stray_completion (hchokes : Chokes library.recursionLimit (completionExchange w content answer))
    (hr : r = concluded library schema true (Work.settle (readCompletion library) answer)) :
    ∃ e, r = .error e ∧ e.Stray := by
  rcases hchokes with ⟨request', response, he, hprobe, -⟩ |
    ⟨request', response, he, -, hclosing, hstatus, hchokes⟩
  · obtain rfl := Query.send.inj (Sigma.mk.inj he).1
    cases hprobe
  · obtain rfl := eq_of_heq (Sigma.mk.inj he).2
    obtain ⟨e, he, hstray⟩ := @concluded_chokes library schema response hstatus hchokes
    refine ⟨e, ?_, hstray⟩
    simp only [hr, Work.settle, hclosing, he]

/-- A submission is faithful unless an answer has choked the worker. -/
theorem faithful_submitted
    (hchecked : Ends (checkCapacity library w request timeout deadline) probes (.ok ()))
    (hr : r = concluded library schema true
      (settled closed (Work.settle (readCompletion library) answer))) :
    Faithful library schema (clientTrace (probes ++ [completionExchange w content answer]) closed) r ↔
      ¬ Choked library.recursionLimit
        (clientTrace (probes ++ [completionExchange w content answer]) closed) := by
  have htrace := @completions_submitted w probes content answer closed
    (completions_quiet quiet_checkCapacity hchecked)
  rw [choked_clientTrace]
  constructor
  · rintro hfaithful ⟨⟨x, hx, hchokes⟩, rfl⟩
    rcases List.mem_append.mp hx with hx | hx
    · cases (tells_checkCapacity probes _ hchecked).2.mpr ⟨x, hx, hchokes⟩
    · obtain rfl := List.mem_singleton.mp hx
      obtain ⟨e, he, hstray⟩ := stray_completion hchokes hr
      exact not_faithful_of_stray he hstray hfaithful
  · intro hnot
    rcases @concluded_answer library w probes schema content answer closed r hr with
      ⟨f, he, hfails⟩ | ⟨response, hanswer, hrejects, message, he⟩ | ⟨response, hanswer, hreceived⟩ |
        ⟨hclosed, hchokes⟩
    · exact faithful_fault htrace he hfails
    · exact faithful_rejected htrace hanswer hrejects he
    · exact faithful_received htrace hanswer hreceived
    · have hmem : completionExchange w content answer ∈ probes ++ [completionExchange w content answer] :=
        List.mem_append_right _ (List.mem_singleton_self _)
      exact (hnot ⟨⟨_, hmem, .inr hchokes⟩, hclosed⟩).elim

end Submitted

/-! Whole calls. -/

/-- The call gets to its submission, the name of its model cannot be written, and its client does not
fail to connect. -/
structure Unwritten (limit : ℕ) (w : Worker) (request : InferenceRequest) (deadline : Option ℚ)
    (trace : Trace Query.Answer) : Prop where
  surrogate : ¬ Scalars w.model
  opened : trace.head? = some ⟨.client, (none : Option Fault)⟩
  inTime : InTime deadline trace
  capacity : CapacityTold limit w (requiredContextTokens (some request.taskKey)) trace
  closed : ∀ f, ClosedByFault trace f → ¬ f.IsConnection

theorem mem_clientTrace {x : Σ query, Query.Answer query} {closed : Option Fault} (hx : x.1 ≠ .client) :
    x ∈ clientTrace probes closed ↔ x ∈ probes := by
  have hne : ∀ a : Option Fault, x ≠ ⟨.client, a⟩ := by
    rintro a rfl
    exact hx rfl
  simp [clientTrace, hne]

/-- With its checks passed, only the name of the model can keep a call from being written. -/
theorem unwritten_clientTrace {outcome : Except WorkerRaised Unit} {closed : Option Fault}
    (h : Ends (checkCapacity library w request timeout deadline) probes outcome) :
    Unwritten library.recursionLimit w request deadline (clientTrace probes closed) ↔
      ¬ Scalars w.model ∧ outcome = .ok () ∧ ∀ f, closed = some f → ¬ f.IsConnection := by
  have htime : InTime deadline (clientTrace probes closed) ↔ InTime deadline probes := by
    simp only [InTime, mem_clientTrace, ne_eq, reduceCtorEq, not_false_eq_true]
  have hcapacity : ∀ minimum, CapacityTold library.recursionLimit w minimum (clientTrace probes closed) ↔
      CapacityTold library.recursionLimit w minimum probes := by
    intro minimum
    simp only [CapacityTold, Told, mem_clientTrace, ne_eq, reduceCtorEq, not_false_eq_true]
  constructor
  · intro hunwritten
    refine ⟨hunwritten.surrogate, (ends_checkCapacity h).mpr ⟨htime.mp hunwritten.inTime,
      (hcapacity _).mp hunwritten.capacity⟩, fun f hf => hunwritten.closed f (closedByFault_clientTrace.mpr hf)⟩
  · rintro ⟨hsurrogate, hok, hconnection⟩
    obtain ⟨hin, htold⟩ := (ends_checkCapacity h).mp hok
    exact ⟨hsurrogate, rfl, htime.mpr hin, (hcapacity _).mpr htold,
      fun f hf => hconnection f (closedByFault_clientTrace.mp hf)⟩

theorem not_unwritten_client {f : Fault} :
    ¬ Unwritten limit w request deadline [⟨.client, some f⟩] := by
  intro h
  cases eq_of_heq (Sigma.mk.inj (Option.some.inj h.opened)).2

/-- A request that cannot be written is not sent, and its call says so only if its client fails to
connect. -/
theorem faithful_unwritten {r : Except WorkerRaised WorkerResult} {closed : Option Fault} {e : JsonError}
    (hquiet : completions probes = [])
    (hr : r = concluded library schema true (settled closed (.error (.json e)))) :
    Faithful library schema (clientTrace probes closed) r ↔
      ¬ ∀ f, closed = some f → ¬ f.IsConnection := by
  rw [faithful_unsubmitted (completions_clientTrace.trans hquiet), hr]
  cases closed with
  | none => exact iff_of_false (by simp [concluded, settled, classify]) (by simp)
  | some f =>
    rcases classify_submitted f with ⟨hconnection, message, hm⟩ | ⟨hconnection, message, hm⟩
    · refine iff_of_true ⟨message, ?_⟩ (fun h => h f rfl hconnection)
      exact congrArg Except.error hm
    · refine iff_of_false ?_ (not_not.mpr fun f' hf => Option.some.inj hf ▸ hconnection)
      rintro ⟨message', hm'⟩
      cases hm.symm.trans (Except.error.inj hm')

/-- The outcome of a call is faithful unless an answer has choked its worker, or the request could not
be written for it. -/
theorem faithful_inferOn {checkSchema : Json → Bool} {r : Except WorkerRaised WorkerResult}
    (haccepted : request.Accepted checkSchema) (hw : w.Configured)
    (h : Ends (inferOn library w request timeout deadline) trace r) :
    Faithful library request.generation.responseSchema trace r ↔
      ¬ Choked library.recursionLimit trace ∧
        ¬ Unwritten library.recursionLimit w request deadline trace := by
  rcases ends_inferOn h with ⟨f, rfl, hr⟩ | ⟨probes, closed, e, hchecked, rfl, hr⟩ |
    ⟨probes, inner, closed, outcome, hchecked, hsubmit, rfl, hr⟩
  · refine iff_of_true ?_ ⟨not_choked_client, not_unwritten_client⟩
    obtain ⟨message, hm⟩ := classify_fault f
    exact (faithful_unsubmitted rfl).mpr ⟨message, hm ▸ hr⟩
  · have hreached : ¬ Unwritten library.recursionLimit w request deadline (clientTrace probes closed) := by
      simp [unwritten_clientTrace hchecked]
    rw [faithful_checked hchecked hr, and_iff_left hreached]
  · rcases ends_submit hsubmit with ⟨e, hbody, rfl, rfl⟩ | ⟨content, answer, hbody, rfl, rfl⟩
    · have hsurrogate : ¬ Scalars w.model := by
        rw [← completionBody_worker haccepted hw]
        rintro ⟨b, hb⟩
        cases hbody.symm.trans hb
      have hquiet : ¬ Choked library.recursionLimit (clientTrace probes closed) := by
        rw [choked_clientTrace]
        rintro ⟨hchokes, -⟩
        cases (tells_checkCapacity probes _ hchecked).2.mpr hchokes
      rw [List.append_nil, and_iff_right hquiet, unwritten_clientTrace hchecked,
        and_iff_right hsurrogate, and_iff_right rfl]
      exact faithful_unwritten (completions_quiet quiet_checkCapacity hchecked) hr
    · have hwritten : ¬ Unwritten library.recursionLimit w request deadline
          (clientTrace (probes ++ [completionExchange w content answer]) closed) :=
        fun hunwritten => hunwritten.surrogate ((completionBody_worker haccepted hw).mp ⟨content, hbody⟩)
      exact (faithful_submitted hchecked hr).trans (and_iff_left hwritten).symm

/-! Two workers. -/

/-- Unless an answer chokes it, the program raises nothing but that no worker is available. -/
def RaisesUnavailable (limit : ℕ) (p : Work α) : Prop :=
  ∀ trace e, Ends p trace (.error e) → ¬ Choked limit trace → ∃ message, e = .unavailable message

/-- Unless an answer chokes it, the program sends a completion or ends with no worker available. -/
def SendsOrUnavailable (limit : ℕ) (p : Work α) : Prop :=
  ∀ trace r, Ends p trace r → completions trace = [] → ¬ Choked limit trace →
    ∃ message, r = .error (.unavailable message)

theorem Choked.append {first second : Trace Query.Answer} (h : Choked limit second) :
    Choked limit (first ++ second) := by
  obtain ⟨⟨x, hx, hchokes⟩, hclosed⟩ := h
  refine ⟨⟨x, List.mem_append_right _ hx, hchokes⟩, fun f hf => hclosed f ?_⟩
  rwa [ClosedByFault, List.getLast?_append_of_ne_nil _ (List.ne_nil_of_mem hx)] at hf

theorem SendsOrUnavailable.bind {p : Work α} {f : α → Work β} (hp : RaisesUnavailable limit p)
    (hf : ∀ a, SendsOrUnavailable limit (f a)) : SendsOrUnavailable limit (p >>= f) := by
  intro trace r h hnone hnot
  rcases Program.ends_bind.mp h with ⟨e, herror, rfl⟩ | ⟨a, first, second, hfirst, hsecond, rfl⟩
  · obtain ⟨message, rfl⟩ := hp trace e herror hnot
    exact ⟨message, rfl⟩
  · rw [completions_append, List.append_eq_nil_iff] at hnone
    exact hf a second r hsecond hnone.2 (mt Choked.append hnot)

theorem RaisesUnavailable.bind {p : Work α} {f : α → Work β} (hp : RaisesUnavailable limit p)
    (hf : ∀ a, RaisesUnavailable limit (f a)) : RaisesUnavailable limit (p >>= f) := by
  intro trace e h hnot
  rcases Program.ends_bind.mp h with ⟨e', herror, he⟩ | ⟨a, first, second, hfirst, hsecond, rfl⟩
  · obtain rfl := Except.error.inj he
    exact hp trace e herror hnot
  · exact hf a second e hsecond (mt Choked.append hnot)

theorem raisesUnavailable_pure {a : α} : RaisesUnavailable limit (pure a : Work α) := by
  intro trace e h
  cases (Program.ends_pure.mp h).2

theorem raisesUnavailable_throw {message : String} :
    RaisesUnavailable limit (Program.throw (.unavailable message) : Work α) := by
  intro trace e h _
  exact ⟨message, Except.error.inj (Program.ends_throw.mp h).2⟩

theorem raisesUnavailable_clock : RaisesUnavailable limit Work.clock := by
  intro trace e h
  obtain ⟨now, rest, rfl, hend⟩ := Program.ends_ask.mp h
  cases (Program.ends_done.mp hend).2

theorem raisesUnavailable_remaining {deadline : ℚ} : RaisesUnavailable limit (remaining deadline) := by
  refine raisesUnavailable_clock.bind fun now => ?_
  split_ifs
  · exact raisesUnavailable_throw
  · exact raisesUnavailable_pure

theorem raisesUnavailable_availability {task : Option Task} :
    RaisesUnavailable limit (availability limit w task) := by
  intro trace e h hnot
  obtain ⟨verdict, he⟩ := (ends_availability_verdict h).mpr hnot
  cases he

theorem raisesUnavailable_fallbackReady {worker : FallbackWorker} {task : Task} {deadline : ℚ} :
    RaisesUnavailable library.recursionLimit (worker.fallbackReady library task deadline) := by
  unfold FallbackWorker.fallbackReady
  by_cases heligible : task ∈ worker.eligibleTasks
  · rw [if_neg (not_not.mpr heligible)]
    refine raisesUnavailable_remaining.bind fun _ => RaisesUnavailable.bind ?_ fun free => ?_
    · intro trace e h hnot
      obtain ⟨free, he⟩ := (ends_fallbackCapacity_verdict h).mpr hnot
      cases he
    · cases free with
      | false => exact raisesUnavailable_pure
      | true =>
        refine raisesUnavailable_remaining.bind fun _ => fun trace e h hnot => ?_
        obtain ⟨healthy, he⟩ := (ends_health_verdict h).mpr hnot
        cases he
  · rw [if_pos heligible]
    exact raisesUnavailable_pure

theorem sendsOrUnavailable_throw {message : String} :
    SendsOrUnavailable limit (Program.throw (.unavailable message) : Work α) := by
  intro trace r h _ _
  exact ⟨message, (Program.ends_throw.mp h).2⟩

section Accepted

variable {checkSchema : Json → Bool} (haccepted : request.Accepted checkSchema)
include haccepted

theorem sendsOrUnavailable_inferOn (hw : w.Configured) (hscalars : Scalars w.model) :
    SendsOrUnavailable library.recursionLimit (inferOn library w request timeout deadline) :=
  fun _ _ h hnone hnot => ((faithful_inferOn haccepted hw h).mpr
    ⟨hnot, fun hunwritten => hunwritten.surrogate hscalars⟩).unsubmitted hnone

/-- Over both workers, unless an answer chokes one of them, a completion is sent or none is available. -/
theorem sendsOrUnavailable_infer {worker : FallbackWorker} (hprimary : Scalars worker.primary.model)
    (hfallback : Scalars worker.fallback.model)
    (hconfigured : (Worker.lmStudio worker.fallback).Configured) :
    SendsOrUnavailable library.recursionLimit (worker.infer library request timeout deadline) := by
  refine .bind raisesUnavailable_clock fun start => .bind raisesUnavailable_remaining fun _ =>
    .bind raisesUnavailable_availability fun verdict => ?_
  cases verdict with
  | available =>
    exact .bind raisesUnavailable_remaining fun _ =>
      sendsOrUnavailable_inferOn haccepted (w := .ollama worker.primary) trivial hprimary
  | unknown => exact sendsOrUnavailable_throw
  | unavailable =>
    refine .bind raisesUnavailable_fallbackReady fun ready => ?_
    cases ready with
    | false => exact sendsOrUnavailable_throw
    | true =>
      exact .bind raisesUnavailable_remaining fun _ =>
        sendsOrUnavailable_inferOn haccepted (w := .lmStudio worker.fallback) hconfigured hfallback

end Accepted

end Gateway
