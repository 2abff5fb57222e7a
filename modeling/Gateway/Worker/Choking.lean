import Gateway.Contracts.NumberAdmission
import Gateway.Worker.Content
import Gateway.Worker.Fallback

/-! Answers that choke a worker, and what its probes come to without them. -/
namespace Gateway

open Json (get)
open Program (Ends Trace)

/-- What no `except` clause of a worker takes. -/
def WorkerRaised.Stray : WorkerRaised → Prop
  | .typeError | .json _ => True
  | _ => False

/-! The documents that raise what nothing takes. -/

/-- The octets are read as JSON until a number that overflows. -/
def ScansOverflow (limit : ℕ) (raw : Bytes) : Prop := ∃ t, t.Overflows ∧ StopsAt limit raw t

/-- The body arrives within the limits, and holds such a number. -/
def HttpResponse.Overflows (limit : ℕ) (response : HttpResponse) : Prop :=
  checkHeaders response = .ok () ∧
    ∃ body, readChunks response.cut [] response.chunks = .ok body ∧ ScansOverflow limit body

/-- The first choice has a `finish_reason` that cannot be looked up, or a content that overflows. -/
def DocumentChokes (limit : ℕ) (document : List (Str × Json)) : Prop :=
  ∃ choice message, firstChoice document = .ok (choice, message) ∧
    ((∃ reason, get choice (str "finish_reason") = some reason ∧ reason.isContainer = true) ∨
      checkFinish choice = .ok () ∧ ∃ content, messageContent message = some content ∧
        Scalars content ∧ (utf8 content).length ≤ maxOutputContentBytes ∧
        ScansOverflow limit (utf8 content))

/-- A probe that is answered with status 200 and a body that overflows. -/
def ProbeChokes (limit : ℕ) (x : Σ query, Query.Answer query) : Prop :=
  ∃ (request : HttpRequest) (response : HttpResponse),
    x = ⟨.send request, (.ok response : Except Fault HttpResponse)⟩ ∧
    request.IsCompletion = false ∧ response.closing = none ∧ response.statusCode = 200 ∧
    response.Overflows limit

/-- A completion whose body overflows, or holds a document that cannot be read. -/
def CompletionChokes (limit : ℕ) (x : Σ query, Query.Answer query) : Prop :=
  ∃ (request : HttpRequest) (response : HttpResponse),
    x = ⟨.send request, (.ok response : Except Fault HttpResponse)⟩ ∧
    request.IsCompletion = true ∧ response.closing = none ∧ response.statusCode < 400 ∧
    (response.Overflows limit ∨
      ∃ document, boundedJson limit response = .ok document ∧ DocumentChokes limit document)

/-- An exchange whose answer chokes the worker. -/
def Chokes (limit : ℕ) (x : Σ query, Query.Answer query) : Prop :=
  ProbeChokes limit x ∨ CompletionChokes limit x

/-- The client is closed in the end, and that fails. -/
def ClosedByFault (trace : Trace Query.Answer) (f : Fault) : Prop :=
  trace.getLast? = some ⟨.client, (some f : Option Fault)⟩

/-- An answer chokes the worker, and no fault of the client takes the place of what is raised. -/
def Choked (limit : ℕ) (trace : Trace Query.Answer) : Prop :=
  (∃ x ∈ trace, Chokes limit x) ∧ ∀ f, ¬ ClosedByFault trace f

variable {limit : ℕ} {library : Library} {w : Worker} {request : InferenceRequest}
variable {trace probes : Trace Query.Answer} {document schema : List (Str × Json)} {α β : Type}
variable {response : HttpResponse} {e : WorkerRaised} {timeout : ℚ} {deadline : Option ℚ}

/-! Bodies. -/

theorem caught_eq_false {e : JsonError} : e.caught = false ↔ e = .overflow := by
  cases e <;> simp [JsonError.caught]

theorem loads_stray {raw : Bytes} {e : JsonError} (h : loads limit raw = .error e)
    (he : e.caught = false) : ScansOverflow limit raw :=
  loads_overflow.mp (caught_eq_false.mp he ▸ h)

theorem readChunks_error {cut : Option Fault} {body : Bytes} {chunks : List Bytes}
    (h : readChunks cut body chunks = .error e) :
    (∃ message, e = .invalidOutput message) ∨ ∃ f, e = .fault f ∧ cut = some f := by
  induction chunks generalizing body with
  | nil =>
    cases cut with
    | none => cases h
    | some f => exact .inr ⟨f, (Except.error.inj h).symm, rfl⟩
  | cons chunk chunks ih =>
    rw [readChunks] at h
    split_ifs at h
    · exact .inl ⟨_, (Except.error.inj h).symm⟩
    · exact ih h

theorem checkHeaders_error (h : checkHeaders response = .error e) :
    ∃ message, e = .invalidOutput message := by
  unfold checkHeaders at h
  split_ifs at h
  · split at h
    · cases h
    · split at h
      · exact ⟨_, (Except.error.inj h).symm⟩
      · split_ifs at h
        exact ⟨_, (Except.error.inj h).symm⟩
  · exact ⟨_, (Except.error.inj h).symm⟩

/-- A body that is not read is invalid, cut off, or overflows. -/
theorem boundedJson_error (h : boundedJson limit response = .error e) :
    (∃ message, e = .invalidOutput message) ∨ (∃ f, e = .fault f ∧ response.cut = some f) ∨
      e = .json .overflow ∧ response.Overflows limit := by
  rcases bind_eq_error.mp h with hheaders | ⟨u, hheaders, hrest⟩
  · exact .inl (checkHeaders_error hheaders)
  rcases bind_eq_error.mp hrest with hchunks | ⟨body, hchunks, hrest⟩
  · exact (readChunks_error hchunks).imp_right .inl
  split at hrest
  · rename_i e' hloads
    obtain rfl := Except.error.inj hrest
    cases hcaught : e'.caught with
    | true => exact .inl ⟨_, by rw [if_pos rfl]⟩
    | false =>
      obtain rfl := caught_eq_false.mp hcaught
      exact .inr (.inr ⟨rfl, hheaders, body, hchunks, loads_stray hloads hcaught⟩)
  · cases hrest
  · exact .inl ⟨_, (Except.error.inj hrest).symm⟩

theorem boundedJson_overflows (h : response.Overflows limit) :
    boundedJson limit response = .error (.json .overflow) := by
  obtain ⟨hheaders, body, hchunks, hscan⟩ := h
  have hloads := loads_overflow.mpr hscan
  simp only [boundedJson, hheaders, hchunks, hloads, bind, Except.bind]
  rfl

/-! The document of a completion. -/

theorem checkFinish_error {choice : List (Str × Json)} (h : checkFinish choice = .error e) :
    (∃ message, e = .invalidOutput message) ∨ e = .typeError ∧
      ∃ reason, get choice (str "finish_reason") = some reason ∧ reason.isContainer = true := by
  unfold checkFinish at h
  split at h
  · cases h
  · cases h
  · split_ifs at h
    exact .inl ⟨_, (Except.error.inj h).symm⟩
  · rename_i items hreason
    exact .inr ⟨(Except.error.inj h).symm, _, hreason, rfl⟩
  · rename_i fields hreason
    exact .inr ⟨(Except.error.inj h).symm, _, hreason, rfl⟩
  · exact .inl ⟨_, (Except.error.inj h).symm⟩

theorem checkFinish_container {choice : List (Str × Json)} {reason : Json}
    (h : get choice (str "finish_reason") = some reason) (hreason : reason.isContainer = true) :
    checkFinish choice = .error .typeError := by
  unfold checkFinish
  cases reason with
  | list items => rw [h]
  | dict fields => rw [h]
  | _ => cases hreason

theorem firstChoice_error (h : firstChoice document = .error e) :
    ∃ message, e = .invalidOutput message := by
  unfold firstChoice at h
  split at h
  · split at h
    · cases h
    · exact ⟨_, (Except.error.inj h).symm⟩
  · exact ⟨_, (Except.error.inj h).symm⟩

theorem generatedDocument_error {content : Str} (h : generatedDocument library content = .error e) :
    (∃ message, e = .invalidOutput message) ∨ e = .json .overflow ∧ Scalars content ∧
      (utf8 content).length ≤ maxOutputContentBytes ∧
      ScansOverflow library.recursionLimit (utf8 content) := by
  unfold generatedDocument at h
  split_ifs at h with hscalars hsize
  · exact .inl ⟨_, (Except.error.inj h).symm⟩
  · split at h
    · rename_i e' hloads
      obtain rfl := Except.error.inj h
      cases hcaught : e'.caught with
      | true => exact .inl ⟨_, by rw [if_pos rfl]⟩
      | false =>
        obtain rfl := caught_eq_false.mp hcaught
        exact .inr ⟨rfl, hscalars, not_lt.mp hsize, loads_stray hloads hcaught⟩
    · cases h
    · exact .inl ⟨_, (Except.error.inj h).symm⟩
  · exact .inl ⟨_, (Except.error.inj h).symm⟩

theorem generatedDocument_overflows {content : Str} (hscalars : Scalars content)
    (hsize : (utf8 content).length ≤ maxOutputContentBytes)
    (h : ScansOverflow library.recursionLimit (utf8 content)) :
    generatedDocument library content = .error (.json .overflow) := by
  have hloads := loads_overflow.mpr h
  unfold generatedDocument
  rw [if_neg (not_not.mpr hscalars), if_neg (not_lt.mpr hsize), hloads]
  rfl

/-- A document that gives no result is invalid output, or chokes the worker. -/
theorem validatedResult_error (h : validatedResult library schema document = .error e) :
    (∃ message, e = .invalidOutput message) ∨
      e.Stray ∧ DocumentChokes library.recursionLimit document := by
  rcases bind_eq_error.mp h with hchoice | ⟨⟨choice, message⟩, hchoice, hrest⟩
  · exact .inl (firstChoice_error hchoice)
  rcases bind_eq_error.mp hrest with hfinish | ⟨u, hfinish, hrest⟩
  · rcases checkFinish_error hfinish with hinvalid | ⟨rfl, hreason⟩
    · exact .inl hinvalid
    · exact .inr ⟨trivial, choice, message, hchoice, .inl hreason⟩
  split at hrest
  · exact .inl ⟨_, (Except.error.inj hrest).symm⟩
  · rename_i content hcontent
    rcases bind_eq_error.mp hrest with hgenerated | ⟨generated, -, hrest⟩
    · rcases generatedDocument_error hgenerated with hinvalid | ⟨rfl, hscalars, hsize, hscan⟩
      · exact .inl hinvalid
      · exact .inr ⟨trivial, choice, message, hchoice,
          .inr ⟨hfinish, content, hcontent, hscalars, hsize, hscan⟩⟩
    · split_ifs at hrest
      · cases hrest
      · exact .inl ⟨_, (Except.error.inj hrest).symm⟩

theorem validatedResult_chokes (h : DocumentChokes library.recursionLimit document) :
    ∃ e, validatedResult library schema document = .error e ∧ e.Stray := by
  obtain ⟨choice, message, hchoice, ⟨reason, hreason, hcontainer⟩ |
    ⟨hfinish, content, hcontent, hscalars, hsize, hscan⟩⟩ := h
  · have hfinish := checkFinish_container hreason hcontainer
    refine ⟨.typeError, ?_, trivial⟩
    simp only [validatedResult, hchoice, hfinish, bind, Except.bind]
  · have hgenerated := generatedDocument_overflows hscalars hsize hscan
    refine ⟨.json .overflow, ?_, trivial⟩
    simp only [validatedResult, hchoice, hfinish, hcontent, hgenerated, bind, Except.bind]

/-! Probes: what they raise, and which of their answers choke. -/

/-- The program raises only what `P` allows, but for an overflow, and that exactly where an answer on
its way chokes. -/
def Tells (limit : ℕ) (P : WorkerRaised → Prop) (p : Work α) : Prop :=
  ∀ trace r, Ends p trace r → (∀ e, r = .error e → P e ∨ e = .json .overflow) ∧
    (r = .error (.json .overflow) ↔ ∃ x ∈ trace, Chokes limit x)

variable {P : WorkerRaised → Prop} {p : Work α} {f : α → Work β}

theorem Tells.pure {a : α} : Tells limit P (Pure.pure a : Work α) := by
  intro trace r h
  obtain ⟨rfl, rfl⟩ := Program.ends_pure.mp h
  simp

theorem Tells.throw (he : P e) (hne : e ≠ .json .overflow) :
    Tells limit P (Program.throw e : Work α) := by
  intro trace r h
  obtain ⟨rfl, rfl⟩ := Program.ends_throw.mp h
  simp [he, hne]

theorem Tells.bind (hp : Tells limit P p) (hf : ∀ a, Tells limit P (f a)) :
    Tells limit P (p >>= f) := by
  intro trace r h
  rcases Program.ends_bind.mp h with ⟨e, herror, rfl⟩ | ⟨a, first, second, hfirst, hsecond, rfl⟩
  · obtain ⟨hraises, hchokes⟩ := hp trace _ herror
    rw [Except.error.injEq] at hchokes
    refine ⟨fun e' he' => Except.error.inj he' ▸ hraises e rfl, ?_⟩
    rw [Except.error.injEq]
    exact hchokes
  · obtain ⟨-, hchokes⟩ := hp first _ hfirst
    obtain ⟨hraises, hchokes'⟩ := hf a second _ hsecond
    have hquiet : ¬ ∃ x ∈ first, Chokes limit x := fun h => by cases hchokes.mpr h
    refine ⟨hraises, hchokes'.trans ?_⟩
    simp only [List.mem_append, or_and_right, exists_or]
    exact (or_iff_right hquiet).symm

/-- An answer that chokes is one of a request. -/
theorem Chokes.sends {query : Query} {answer : query.Answer}
    (h : Chokes limit ⟨query, answer⟩) : ∃ request, query = .send request := by
  rcases h with ⟨request, response, he, -⟩ | ⟨request, response, he, -⟩
  · exact ⟨request, congrArg Sigma.fst he⟩
  · exact ⟨request, congrArg Sigma.fst he⟩

theorem not_chokes_client {answer : Option Fault} :
    ¬ Chokes limit (⟨.client, answer⟩ : Σ query, Query.Answer query) := by
  intro h
  obtain ⟨request, he⟩ := h.sends
  cases he

theorem tells_clock : Tells limit P Work.clock := by
  intro trace r h
  obtain ⟨now, rest, rfl, hend⟩ := Program.ends_ask.mp h
  obtain ⟨rfl, rfl⟩ := Program.ends_done.mp hend
  refine ⟨fun e he => (by cases he), ⟨fun he => (by cases he), ?_⟩⟩
  rintro ⟨x, hx, hchokes⟩
  obtain rfl := List.mem_singleton.mp hx
  obtain ⟨request, he⟩ := hchokes.sends
  cases he

/-- What a probe raises. -/
theorem settle_probe_error {answer : Except Fault HttpResponse}
    (h : Work.settle (fun response => if response.statusCode ≠ 200 then .ok none
      else (boundedJson limit response).map some) answer = .error e) :
    e.failsProbe = true ∨ e = .json .overflow ∧ ∃ response, answer = .ok response ∧
      response.closing = none ∧ response.statusCode = 200 ∧ response.Overflows limit := by
  cases answer with
  | error f =>
    obtain rfl := Except.error.inj h
    exact .inl rfl
  | ok response =>
    rw [Work.settle] at h
    split at h
    · obtain rfl := Except.error.inj h
      exact .inl rfl
    · rename_i hclosing
      split_ifs at h with hstatus
      · rcases boundedJson_error (map_eq_error.mp h) with ⟨message, rfl⟩ | ⟨f, rfl, -⟩ | ⟨rfl, hover⟩
        · exact .inl rfl
        · exact .inl rfl
        · exact .inr ⟨rfl, response, rfl, hclosing, not_not.mp hstatus, hover⟩

theorem tells_probe {r : HttpRequest} (hr : r.IsCompletion = false) :
    Tells limit (fun e => e.failsProbe = true) (Work.probe limit r) := by
  intro trace outcome h
  obtain ⟨answer, rest, rfl, hend⟩ := Program.ends_ask.mp h
  obtain ⟨rfl, rfl⟩ := Program.ends_done.mp hend
  refine ⟨fun e he => (settle_probe_error he).imp_right And.left, ?_, ?_⟩
  · intro he
    rcases settle_probe_error he with hfails | ⟨-, response, rfl, hclosing, hstatus, hover⟩
    · cases hfails
    · exact ⟨_, List.mem_singleton_self _,
        .inl ⟨r, response, rfl, hr, hclosing, hstatus, hover⟩⟩
  · rintro ⟨x, hx, ⟨request, response, rfl, -, hclosing, hstatus, hover⟩ |
      ⟨request, response, rfl, hcompletion, -⟩⟩
    · obtain ⟨hquery, hanswer⟩ := Sigma.mk.inj (List.mem_singleton.mp hx)
      obtain rfl := Query.send.inj hquery
      obtain rfl := eq_of_heq hanswer
      simp only [Work.settle, hclosing, hstatus, ne_eq, not_true_eq_false, if_false,
        boundedJson_overflows hover]
      rfl
    · obtain rfl := Query.send.inj (Sigma.mk.inj (List.mem_singleton.mp hx)).1
      cases hr.symm.trans hcompletion

theorem Tells.weaken {P' : WorkerRaised → Prop} (hp : Tells limit P p) (h : ∀ e, P e → P' e) :
    Tells limit P' p := by
  intro trace r hr
  obtain ⟨hraises, hchokes⟩ := hp trace r hr
  exact ⟨fun e he => (hraises e he).imp_left (h e), hchokes⟩

theorem tells_contextAvailability {minimum : ℤ} :
    Tells limit (fun e => e.failsProbe = true) (contextAvailability limit w minimum) := by
  cases w with
  | lmStudio worker => exact .pure
  | ollama worker =>
    unfold contextAvailability
    simp only
    split_ifs
    · exact .pure
    · refine (tells_probe rfl).bind fun configuration => ?_
      cases configuration with
      | none => exact .pure
      | some configuration =>
        simp only
        cases configurationVerdict minimum configuration with
        | some verdict => exact .pure
        | none =>
          refine (tells_probe rfl).bind fun resident => ?_
          cases resident <;> exact .pure

theorem tells_availabilityBlock {minimum : ℤ} :
    Tells limit (fun e => e.failsProbe = true) (do
      match ← Work.probe limit ⟨w, .models⟩ with
      | none => pure .unknown
      | some document =>
        match modelIds document with
        | none => pure .unknown
        | some ids =>
          if w.model ∉ ids then pure .unavailable else contextAvailability limit w minimum) := by
  refine (tells_probe rfl).bind fun document => ?_
  cases document with
  | none => exact .pure
  | some document =>
    simp only
    cases modelIds document with
    | none => exact .pure
    | some ids =>
      simp only
      split_ifs
      · exact tells_contextAvailability
      · exact .pure

theorem tells_dispatchTimeout {deadline : Option ℚ} :
    Tells limit (fun e => ∃ message, e = .unavailable message) (dispatchTimeout timeout deadline) := by
  cases deadline with
  | none => exact .pure
  | some deadline =>
    refine tells_clock.bind fun now => ?_
    split_ifs
    · exact .throw ⟨_, rfl⟩ (by simp)
    · exact .pure

/-- What comes before a submission raises what `infer` names, or a fault, or has been choked. -/
theorem tells_checkCapacity :
    Tells library.recursionLimit (fun e => (∃ message, e = .unavailable message) ∨ e.failsProbe = true)
      (checkCapacity library w request timeout deadline) := by
  refine (tells_dispatchTimeout.weaken fun e => .inl).bind fun _ =>
    (tells_contextAvailability.weaken fun e => .inr).bind fun capacity => ?_
  split_ifs
  · exact .throw (.inl ⟨_, rfl⟩) (by simp)
  · exact .pure

/-! Clients. -/

theorem ends_awaitClient {r : Except WorkerRaised Unit} :
    Ends Work.awaitClient trace r ↔
      ∃ answer : Option Fault, trace = [⟨.client, answer⟩] ∧ r = Work.settleClient answer := by
  unfold Work.awaitClient
  rw [Program.ends_ask]
  constructor
  · rintro ⟨answer, rest, rfl, hend⟩
    obtain ⟨rfl, rfl⟩ := Program.ends_done.mp hend
    exact ⟨answer, rfl, rfl⟩
  · rintro ⟨answer, rfl, rfl⟩
    exact ⟨answer, [], rfl, .done _⟩

/-- What a block ends with once its client is closed. -/
def settled (closed : Option Fault) (r : Except WorkerRaised α) : Except WorkerRaised α :=
  closed.elim r (fun f => .error (.fault f))

/-- The exchanges of a block between those of its client. -/
def clientTrace (inner : Trace Query.Answer) (closed : Option Fault) : Trace Query.Answer :=
  ⟨.client, (none : Option Fault)⟩ :: (inner ++ [⟨.client, closed⟩])

theorem completions_clientTrace {inner : Trace Query.Answer} {closed : Option Fault} :
    completions (clientTrace inner closed) = completions inner := by
  have hsplit : clientTrace inner closed = [⟨.client, (none : Option Fault)⟩] ++ inner ++
      [⟨.client, closed⟩] := by
    simp [clientTrace]
  rw [hsplit, completions_append, completions_append]
  exact List.append_nil _

/-- A client that is not opened ends the block; one that is not closed ends it too. -/
theorem ends_withClient_cases {block : Work α} {r : Except WorkerRaised α}
    (h : Ends block.withClient trace r) :
    (∃ f : Fault, trace = [⟨.client, some f⟩] ∧ r = .error (.fault f)) ∨
    ∃ (inner : Trace Query.Answer) (r' : Except WorkerRaised α) (closed : Option Fault),
      Ends block inner r' ∧ trace = clientTrace inner closed ∧ r = settled closed r' := by
  rcases Program.ends_bind.mp h with ⟨e, hopened, rfl⟩ | ⟨u, opened, rest, hopened, hrest, rfl⟩
  · obtain ⟨answer, rfl, he⟩ := ends_awaitClient.mp hopened
    cases answer with
    | none => cases he
    | some f =>
      obtain rfl := Except.error.inj he
      exact .inl ⟨f, rfl, rfl⟩
  · obtain ⟨answer, rfl, hu⟩ := ends_awaitClient.mp hopened
    cases answer with
    | some f => cases hu
    | none =>
      obtain ⟨r', inner, tail, hblock, htail, rfl⟩ := Program.ends_attempt_bind.mp hrest
      rcases Program.ends_bind.mp htail with ⟨e, hclosed, rfl⟩ | ⟨u, closed, last, hclosed, hlast, rfl⟩
      · obtain ⟨answer, rfl, he⟩ := ends_awaitClient.mp hclosed
        cases answer with
        | none => cases he
        | some f =>
          obtain rfl := Except.error.inj he
          exact .inr ⟨inner, r', some f, hblock, rfl, rfl⟩
      · obtain ⟨answer, rfl, hu⟩ := ends_awaitClient.mp hclosed
        obtain ⟨rfl, rfl⟩ := Program.ends_done.mp hlast
        cases answer with
        | some f => cases hu
        | none => exact .inr ⟨inner, _, none, hblock, by simp [clientTrace], rfl⟩

/-! What chokes a block chokes its worker, unless its client fails to close. -/

theorem closedByFault_clientTrace {closed : Option Fault} {f : Fault} :
    ClosedByFault (clientTrace probes closed) f ↔ closed = some f := by
  have hlast : (clientTrace probes closed).getLast? =
      some (⟨.client, closed⟩ : Σ query, Query.Answer query) := by
    rw [clientTrace, ← List.cons_append, List.getLast?_concat]
  rw [ClosedByFault, hlast, Option.some.injEq]
  constructor
  · exact fun he => eq_of_heq (Sigma.mk.inj he).2
  · rintro rfl
    rfl

theorem choked_clientTrace {closed : Option Fault} :
    Choked limit (clientTrace probes closed) ↔
      (∃ x ∈ probes, Chokes limit x) ∧ closed = none := by
  simp only [Choked, closedByFault_clientTrace, ← ne_eq, ← Option.eq_none_iff_forall_ne_some]
  simp only [clientTrace, List.mem_cons, List.mem_append, List.not_mem_nil, or_false, or_and_right,
    exists_or, exists_eq_left, not_chokes_client, false_or]

theorem not_choked_client {answer : Option Fault} :
    ¬ Choked limit ([⟨.client, answer⟩] : Trace Query.Answer) := by
  rintro ⟨⟨x, hx, hchokes⟩, -⟩
  obtain rfl := List.mem_singleton.mp hx
  exact not_chokes_client hchokes

/-- A method that takes its probes' failures ends with a value unless an answer chokes it. -/
theorem ends_handled {block : Work α} {otherwise : α} {r : Except WorkerRaised α}
    (hblock : Tells limit (fun e => e.failsProbe = true) block)
    (h : Ends (block.withClient.handle (fun e =>
      if e.failsProbe then pure otherwise else Program.throw e)) trace r) :
    (∃ a, r = .ok a) ↔ ¬ Choked limit trace := by
  rcases Program.ends_handle.mp h with ⟨a, hclient, rfl⟩ | ⟨e, first, second, hclient, hhandler, rfl⟩
  · refine iff_of_true ⟨a, rfl⟩ ?_
    rcases ends_withClient_cases hclient with ⟨f, -, he⟩ | ⟨inner, r', closed, hinner, rfl, hr⟩
    · cases he
    · rw [choked_clientTrace]
      rintro ⟨hchokes, rfl⟩
      have hoverflow : r' = .error (.json .overflow) := (hblock inner r' hinner).2.mpr hchokes
      rw [hoverflow] at hr
      cases hr
  · have hsecond : second = [] ∧ r = if e.failsProbe then .ok otherwise else .error e := by
      split_ifs at hhandler ⊢
      · exact Program.ends_pure.mp hhandler
      · exact Program.ends_throw.mp hhandler
    obtain ⟨rfl, rfl⟩ := hsecond
    rw [List.append_nil]
    rcases ends_withClient_cases hclient with ⟨f, rfl, he⟩ | ⟨inner, r', closed, hinner, rfl, hr⟩
    · obtain rfl := Except.error.inj he
      exact iff_of_true ⟨otherwise, rfl⟩ not_choked_client
    · rw [choked_clientTrace]
      cases closed with
      | some f =>
        obtain rfl := Except.error.inj hr
        exact iff_of_true ⟨otherwise, rfl⟩ (by simp)
      | none =>
        obtain rfl : Except.error e = r' := hr
        obtain ⟨hraises, hchokes⟩ := hblock inner _ hinner
        rw [← hchokes]
        rcases hraises e rfl with hfails | rfl
        · refine iff_of_true ⟨otherwise, by rw [if_pos hfails]⟩ ?_
          rintro ⟨he, -⟩
          obtain rfl := Except.error.inj he
          cases hfails
        · exact iff_of_false (by simp [WorkerRaised.failsProbe]) (by simp)

/-- Whatever its endpoint does, a worker has a verdict, unless an answer chokes it. -/
theorem ends_availability_verdict {task : Option Task} {r : Except WorkerRaised WorkerAvailability}
    (h : Ends (availability limit w task) trace r) :
    (∃ verdict, r = .ok verdict) ↔ ¬ Choked limit trace :=
  ends_handled tells_availabilityBlock h

theorem ends_fallbackCapacity_verdict {o : OllamaWorker} {r : Except WorkerRaised Bool}
    (h : Ends (fallbackCapacityAvailable limit (.ollama o)) trace r) :
    (∃ free, r = .ok free) ↔ ¬ Choked limit trace :=
  ends_handled ((tells_probe rfl).bind fun _ => .pure) h

theorem ends_health_verdict {task : Option Task} {r : Except WorkerRaised Bool}
    (h : Ends (health limit w task) trace r) : (∃ healthy, r = .ok healthy) ↔ ¬ Choked limit trace := by
  rcases Program.ends_bind.mp h with ⟨e, herror, rfl⟩ | ⟨verdict, first, second, hfirst, hsecond, rfl⟩
  · rw [← ends_availability_verdict herror]
    simp
  · obtain ⟨rfl, rfl⟩ := Program.ends_pure.mp hsecond
    rw [List.append_nil, ← ends_availability_verdict hfirst]
    simp

end Gateway
