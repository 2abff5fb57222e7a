import Gateway.Config.Credentials
import Gateway.Contracts.NumberAdmission
import Gateway.Contracts.Wire
import Gateway.Service.Acknowledgement
import Gateway.Worker.Http

/-! The routes: which requests of the web reach the service, and what the others are answered. -/
namespace Gateway

open Json (get keys)

/-- A request as the routes read it: header values as Latin-1 text, `none` where there is no such
header, and the body as it comes in; then the client may be gone. -/
structure WebRequest where
  authorization : Option Str
  contentEncoding : Option Str
  contentType : Option Str
  chunks : List Bytes
  disconnects : Bool

/-- A `JSONResponse`. -/
structure WebReply where
  statusCode : ℕ
  body : Json
deriving DecidableEq

/-- What leaves a route as an exception. -/
inductive RouteRaised where
  | clientDisconnect
  | json (e : JsonError)
  | raised (e : Raised)
deriving DecidableEq

/-- Where a route leads: to an answer, or on to the service with the identity it will answer with. -/
inductive Routed (α : Type) where
  | reply (reply : WebReply)
  | call (requestId : Option Str) (credential : CredentialEntry) (request : α)
  | escapes (e : RouteRaised)

/-! Answers. -/

/-- `_generic_auth_failure`. -/
def genericAuthFailure : WebReply where
  statusCode := 401
  body := .dict [(str "protocol_version", .int protocolVersion), (str "status", .string (str "failed")),
    (str "error", .dict [(str "code", .string (str "unauthenticated")), (str "retryable", .bool false)])]

/-- `_failure_response`. -/
def failureResponse (requestId : Option Str) (failure : GatewayFailure) : WebReply where
  statusCode := failure.statusCode
  body := .dict ([(str "protocol_version", .int protocolVersion),
    (str "status", .string (str "failed")),
    (str "error", .dict ([(str "code", .string failure.code),
      (str "retryable", .bool failure.retryable)] ++
      failure.retryAfterSeconds.toList.map (fun n => (str "retry_after_seconds", Json.int n))))] ++
    requestId.toList.map (fun id => (str "request_id", Json.string id)))

/-- `GatewayFailure("invalid_request", False, 422)`. -/
def invalidRequest : GatewayFailure := ⟨str "invalid_request", false, 422, none⟩

/-! Requests. -/

/-- `safe_request_id`. -/
def safeRequestId : Option Json → Option Str
  | some (.string s) => if uuidV4 s then some s else none
  | _ => none

/-- `_authenticate`. -/
def authenticateRequest (sha256 : Bytes → Str) (credentials : CredentialStore) (web : WebRequest) :
    Option CredentialEntry :=
  match (web.authorization.getD []).span (· ≠ 32) with
  | (_, []) => none
  | (scheme, _ :: token) =>
    if casefold scheme ≠ str "bearer" ∨ token = [] then none
    else credentials.authenticate sha256 token

/-- The headers that `_bounded_document` asks for. -/
def WebRequest.PlainJson (web : WebRequest) : Prop :=
  casefold (strip (web.contentEncoding.getD (str "identity"))) ∈ [[], str "identity"] ∧
    casefold (strip ((web.contentType.getD []).takeWhile (· ≠ 59))) = str "application/json"

instance (web : WebRequest) : Decidable web.PlainJson := inferInstanceAs (Decidable (_ ∧ _))

/-- The loop over `request.stream()`; `body` is what has come in. -/
def readBody (limit : ℕ) (body : Bytes) : List Bytes → Option Bytes
  | [] => some body
  | chunk :: chunks =>
    if limit - body.length < chunk.length then none else readBody limit (body ++ chunk) chunks

/-- What `_bounded_document` raises: a `ValueError`, or what the routes do not take. -/
inductive DocumentRaised where
  | valueError
  | escapes (e : RouteRaised)
deriving DecidableEq

/-- `_bounded_document`. -/
def boundedDocument (recursionLimit limit : ℕ) (web : WebRequest) :
    Except DocumentRaised (List (Str × Json)) :=
  if ¬ web.PlainJson then .error .valueError
  else
    match readBody limit [] web.chunks with
    | none => .error .valueError
    | some body =>
      if web.disconnects then .error (.escapes .clientDisconnect)
      else
        match parseJsonObject recursionLimit body with
        | .error e => .error (if e.isValueError then .valueError else .escapes (.json e))
        | .ok (.dict fields) => .ok fields
        | .ok _ => .error .valueError

/-- `AcknowledgementRequest`. -/
structure AcknowledgementRequest where
  protocolVersion : ℤ
  requestId : Str
  disposition : Str
deriving DecidableEq

/-- `AcknowledgementRequest.model_validate`. -/
def AcknowledgementRequest.modelValidate (readers : FieldReaders) (document : Json) :
    Option AcknowledgementRequest := do
  let fields ← modelFields [str "protocol_version", str "request_id", str "disposition"] [] document
  let version ← modelField readers.strictInt (· = Gateway.protocolVersion) fields
    (str "protocol_version")
  let requestId ← modelField readers.strictStr uuidV4 fields (str "request_id")
  let disposition ← modelField readers.strictStr
    (fun s => s = str "persisted" || s = str "application_rejected") fields (str "disposition")
  return ⟨version, requestId, disposition⟩

section Routes

variable (sha256 : Bytes → Str) (recursionLimit limit : ℕ) (credentials : CredentialStore)

/-- A document that a route with a body reads, and what it does next. -/
def withDocument {α : Type} (requestId : Option Str) (web : WebRequest)
    (next : List (Str × Json) → Routed α) : Routed α :=
  match boundedDocument recursionLimit limit web with
  | .error .valueError => .reply (failureResponse requestId invalidRequest)
  | .error (.escapes e) => .escapes e
  | .ok fields => next fields

/-- `POST /v1/inference`, up to the call of the service. -/
def inferenceRoute (checkSchema : Json → Bool) (readers : FieldReaders) (web : WebRequest) :
    Routed InferenceRequest :=
  match authenticateRequest sha256 credentials web with
  | none => .reply genericAuthFailure
  | some credential =>
    withDocument recursionLimit limit none web (fun fields =>
      let requestId := safeRequestId (get fields (str "request_id"))
      match InferenceRequest.modelValidate checkSchema readers (.dict fields) with
      | none => .reply (failureResponse requestId invalidRequest)
      | some request => .call requestId credential request)

/-- `POST /v1/inference/{path_request_id}/ack`, up to the call of the service. -/
def acknowledgeRoute (readers : FieldReaders) (pathRequestId : Str) (web : WebRequest) :
    Routed AcknowledgementRequest :=
  match authenticateRequest sha256 credentials web with
  | none => .reply genericAuthFailure
  | some credential =>
    match safeRequestId (some (.string pathRequestId)) with
    | none => .reply (failureResponse none invalidRequest)
    | some requestId =>
      withDocument recursionLimit limit (some requestId) web (fun fields =>
        match AcknowledgementRequest.modelValidate readers (.dict fields) with
        | none => .reply (failureResponse (some requestId) invalidRequest)
        | some request =>
          if request.requestId ≠ pathRequestId then
            .reply (failureResponse (some requestId) invalidRequest)
          else .call (some requestId) credential request)

end Routes

/-! What each step has read. -/

section Read

variable {sha256 : Bytes → Str} {recursionLimit limit : ℕ} {credentials : CredentialStore}
variable {web web' : WebRequest} {credential : CredentialEntry} {fields : List (Str × Json)}
variable {requestId : Option Str} {reply : WebReply} {α : Type}

/-- The limit is on the whole body, however it is cut. -/
theorem readBody_eq_some {body result : Bytes} {chunks : List Bytes} (hbody : body.length ≤ limit) :
    readBody limit body chunks = some result ↔
      result = body ++ chunks.flatten ∧ result.length ≤ limit := by
  induction chunks generalizing body with
  | nil =>
    rw [readBody, Option.some.injEq, List.flatten_nil, List.append_nil]
    constructor
    · rintro rfl
      exact ⟨rfl, hbody⟩
    · exact fun h => h.1.symm
  | cons chunk chunks ih =>
    rw [readBody, List.flatten_cons, ← List.append_assoc]
    split_ifs with hlong
    · simp only [false_iff, not_and]
      rintro rfl
      simp only [List.length_append]
      omega
    · refine ih ?_
      rw [List.length_append]
      omega

theorem readBody_nil {chunks : List Bytes} :
    readBody limit [] chunks =
      if chunks.flatten.length ≤ limit then some chunks.flatten else none := by
  refine Option.ext fun result => ?_
  rw [readBody_eq_some (Nat.zero_le _), List.nil_append]
  split_ifs with hlimit
  · constructor
    · rintro ⟨rfl, -⟩
      rfl
    · intro h
      obtain rfl := Option.some.inj h
      exact ⟨rfl, hlimit⟩
  · simp only [iff_false, not_and]
    rintro rfl
    exact hlimit

/-- The body of a request that ends, within the limit and with the headers of plain JSON. -/
structure WebRequest.Carries (web : WebRequest) (limit : ℕ) (body : Bytes) : Prop where
  plain : web.PlainJson
  ends : web.disconnects = false
  whole : web.chunks.flatten = body
  bounded : body.length ≤ limit

theorem parseJsonObject_dict {raw : Bytes} {v : Json} (h : parseJsonObject recursionLimit raw = .ok v) :
    ∃ fields, v = .dict fields ∧ loads recursionLimit raw = .ok (.dict fields) := by
  unfold parseJsonObject at h
  split at h
  · cases h
  · rename_i value hload
    split at h
    · obtain ⟨u, -, he⟩ := bind_eq_ok.mp h
      exact ⟨_, (Except.ok.inj he).symm, hload⟩
    · cases h

theorem parseJsonObject_error {raw : Bytes} {e : JsonError}
    (h : parseJsonObject recursionLimit raw = .error e) : e = .overflow ∨ e.isValueError = true := by
  unfold parseJsonObject at h
  split at h
  · rename_i e' hload
    obtain rfl := Except.error.inj h
    cases e' <;> simp [JsonError.caught, JsonError.isValueError]
  · split at h
    · rename_i fields hload
      cases hshape : validateJsonShape (.dict fields) with
      | ok u =>
        rw [hshape] at h
        cases h
      | error e' =>
        rw [hshape] at h
        obtain rfl := Except.error.inj h
        exact .inr (validateShape_error hshape)
    · exact .inr (Except.error.inj h ▸ rfl)

theorem boundedDocument_eq_ok : boundedDocument recursionLimit limit web = .ok fields ↔
    ∃ body, web.Carries limit body ∧ parseJsonObject recursionLimit body = .ok (.dict fields) := by
  unfold boundedDocument
  rw [readBody_nil]
  by_cases hplain : web.PlainJson
  · rw [if_neg (not_not.mpr hplain)]
    by_cases hlimit : web.chunks.flatten.length ≤ limit
    · rw [if_pos hlimit]
      cases hends : web.disconnects with
      | true =>
        simp only [if_true, reduceCtorEq, false_iff]
        rintro ⟨body, hcarries, -⟩
        exact Bool.false_ne_true (hcarries.ends.symm.trans hends)
      | false =>
        simp only [Bool.false_eq_true, if_false]
        constructor
        · intro h
          split at h
          · cases h
          · rename_i fields' hparse
            obtain rfl := Except.ok.inj h
            exact ⟨_, ⟨hplain, hends, rfl, hlimit⟩, hparse⟩
          · cases h
        · rintro ⟨body, hcarries, hparse⟩
          rw [hcarries.whole, hparse]
    · rw [if_neg hlimit]
      simp only [reduceCtorEq, false_iff]
      rintro ⟨body, hcarries, -⟩
      exact hlimit (hcarries.whole ▸ hcarries.bounded)
  · rw [if_pos hplain]
    simp only [reduceCtorEq, false_iff]
    rintro ⟨body, hcarries, -⟩
    exact hplain hcarries.plain

theorem boundedDocument_escapes {e : RouteRaised} :
    boundedDocument recursionLimit limit web = .error (.escapes e) ↔
      web.PlainJson ∧ web.chunks.flatten.length ≤ limit ∧
        (if web.disconnects then e = .clientDisconnect
          else e = .json .overflow ∧
            parseJsonObject recursionLimit web.chunks.flatten = .error .overflow) := by
  unfold boundedDocument
  rw [readBody_nil]
  by_cases hplain : web.PlainJson
  · by_cases hlimit : web.chunks.flatten.length ≤ limit
    · rw [if_neg (not_not.mpr hplain), if_pos hlimit]
      simp only [hplain, hlimit, true_and]
      cases hends : web.disconnects with
      | true => simp [eq_comm]
      | false =>
        simp only [Bool.false_eq_true, if_false]
        cases hparse : parseJsonObject recursionLimit web.chunks.flatten with
        | ok v =>
          obtain ⟨fs, rfl, -⟩ := parseJsonObject_dict hparse
          simp
        | error e' =>
          have hkind := parseJsonObject_error hparse
          rcases hkind with rfl | hvalue
          · simp [JsonError.isValueError, eq_comm]
          · have hne : e' ≠ .overflow := by
              rintro rfl
              cases hvalue
            simp [hvalue, hne]
    · rw [if_neg (not_not.mpr hplain), if_neg hlimit]
      simp only [hlimit, false_and, and_false, Except.error.injEq, reduceCtorEq]
  · rw [if_pos hplain]
    simp [hplain]

/-- The caller presents a token, behind a scheme of any case, that the credentials know. -/
structure WebRequest.Presents (sha256 : Bytes → Str) (credentials : CredentialStore)
    (web : WebRequest) (credential : CredentialEntry) (token : Str) : Prop where
  bearer : ∃ scheme, web.authorization = some (scheme ++ 32 :: token) ∧ 32 ∉ scheme ∧
    casefold scheme = str "bearer"
  accepted : tokenAccepted token = true
  known : credential ∈ credentials.credentials
  digest : credential.tokenDigest = sha256 token

theorem span_space {s scheme token : Str} :
    s.span (fun c => decide (c ≠ 32)) = (scheme, 32 :: token) ↔ s = scheme ++ 32 :: token ∧ 32 ∉ scheme := by
  rw [List.span_eq_takeWhile_dropWhile, Prod.mk.injEq]
  constructor
  · rintro ⟨hscheme, hrest⟩
    refine ⟨?_, fun hmem => ?_⟩
    · rw [← hscheme, ← hrest, List.takeWhile_append_dropWhile]
    · rw [← hscheme] at hmem
      simpa using List.mem_takeWhile_imp hmem
  · rintro ⟨rfl, hfree⟩
    have hall : ∀ c ∈ scheme, decide (c ≠ 32) = true := fun c hc => by
      simp only [decide_eq_true_eq]
      rintro rfl
      exact hfree hc
    exact ⟨by rw [List.takeWhile_append_of_pos hall]; simp,
      by rw [List.dropWhile_append_of_pos hall]; simp⟩

theorem authenticateRequest_eq_some :
    authenticateRequest sha256 credentials web = some credential ↔
      ∃ token, web.Presents sha256 credentials credential token := by
  unfold authenticateRequest
  constructor
  · intro h
    split at h
    · cases h
    · rename_i scheme c token hspan
      have hc : c = 32 := by
        rw [List.span_eq_takeWhile_dropWhile, Prod.mk.injEq] at hspan
        have hhead := @List.head?_dropWhile_not _ (fun c => decide (c ≠ 32)) (web.authorization.getD [])
        rw [hspan.2] at hhead
        simpa using hhead
      subst hc
      obtain ⟨hsplit, hfree⟩ := span_space.mp hspan
      split_ifs at h with hscheme
      rw [not_or, not_not] at hscheme
      obtain ⟨haccepted, hknown, hdigest⟩ := CredentialStore.authenticate_eq_some.mp h
      refine ⟨token, ⟨scheme, ?_, hfree, hscheme.1⟩, haccepted, hknown, hdigest⟩
      cases hheader : web.authorization with
      | none =>
        rw [hheader] at hsplit
        simp at hsplit
      | some header =>
        rw [hheader] at hsplit
        exact congrArg some hsplit
  · rintro ⟨token, ⟨scheme, hheader, hfree, hscheme⟩, haccepted, hknown, hdigest⟩
    have hne : token ≠ [] := by
      rintro rfl
      simp [tokenAccepted] at haccepted
    rw [hheader, Option.getD_some, span_space.mpr ⟨rfl, hfree⟩]
    simp only [hscheme, hne, ne_eq, not_true_eq_false, or_false, if_false]
    exact CredentialStore.authenticate_eq_some.mpr ⟨haccepted, hknown, hdigest⟩

/-! Where requests are led. -/

theorem withDocument_call {next : List (Str × Json) → Routed α} {id : Option Str} {a : α} :
    withDocument recursionLimit limit requestId web next = .call id credential a ↔
      ∃ fields, boundedDocument recursionLimit limit web = .ok fields ∧
        next fields = .call id credential a := by
  unfold withDocument
  split <;> rename_i h <;> simp [h]

theorem withDocument_escapes {next : List (Str × Json) → Routed α} {e : RouteRaised}
    (hnext : ∀ fields, next fields ≠ .escapes e) :
    withDocument recursionLimit limit requestId web next = .escapes e ↔
      boundedDocument recursionLimit limit web = .error (.escapes e) := by
  unfold withDocument
  split <;> rename_i h <;> simp [h, hnext]

/-- The field that carries a request's identity, as the route looks at it. -/
theorem safeRequestId_eq_some {v : Option Json} {k : Str} :
    safeRequestId v = some k ↔ v = some (.string k) ∧ uuidV4 k = true := by
  unfold safeRequestId
  split
  · rename_i s
    split_ifs with hs
    · rw [Option.some.injEq, Option.some.injEq, Json.string.injEq]
      constructor
      · rintro rfl
        exact ⟨rfl, hs⟩
      · exact fun h => h.1
    · simp only [false_iff, Option.some.injEq, Json.string.injEq, not_and]
      rintro rfl
      exact hs
  · rename_i hno
    simp only [reduceCtorEq, false_iff, not_and]
    rintro rfl
    exact (hno k rfl).elim

/-- The identity a request is validated with is the one its answer will carry. -/
theorem InferenceRequest.modelValidate_requestId {checkSchema : Json → Bool} {readers : FieldReaders}
    {request : InferenceRequest}
    (h : InferenceRequest.modelValidate checkSchema readers (.dict fields) = some request) :
    safeRequestId (get fields (str "request_id")) = some request.requestId := by
  simp only [modelValidate, bind, Option.bind_eq_some_iff, modelField_eq_some, modelFields_eq_some,
    pure, Option.some.injEq, Json.dict.injEq] at h
  obtain ⟨_, ⟨rfl, -⟩, version, -, requestId, ⟨⟨v, hget, hread⟩, hid⟩, expiry, -, task, -,
    requirements, -, generation, -, rfl⟩ := h
  obtain ⟨rfl, -⟩ := readers.strictStr_eq_some.mp hread
  exact safeRequestId_eq_some.mpr ⟨hget, hid⟩

end Read

/-- What `POST /v1/inference` does with a request of the web before and instead of a call. -/
structure InferenceRouting (sha256 : Bytes → Str) (recursionLimit limit : ℕ)
    (credentials : CredentialStore) (checkSchema : Json → Bool) (readers : FieldReaders)
    (web : WebRequest) (routed : Routed InferenceRequest) : Prop where
  /-- The service is called for an authenticated caller with a body that is a request. -/
  called : ∀ id credential request, routed = .call id credential request ↔
    (∃ token, web.Presents sha256 credentials credential token) ∧
      (∃ body fields, web.Carries limit body ∧
        parseJsonObject recursionLimit body = .ok (.dict fields) ∧
        InferenceRequest.modelValidate checkSchema readers (.dict fields) = some request) ∧
      id = some request.requestId
  /-- Nobody else learns anything but that. -/
  refused : ∀ reply, routed = .reply reply →
    (reply = genericAuthFailure ∧ ∀ credential token,
        ¬ web.Presents sha256 credentials credential token) ∨
      ∃ id, reply = failureResponse id invalidRequest ∧
        ∀ k ∈ id, uuidV4 k = true ∧ ∃ body fields, web.Carries limit body ∧
          parseJsonObject recursionLimit body = .ok (.dict fields) ∧
          get fields (str "request_id") = some (.string k)
  /-- Only a client that goes away, or a number that `decimal` cannot take, ends it otherwise. -/
  escapes : ∀ e, routed = .escapes e ↔
    (∃ credential token, web.Presents sha256 credentials credential token) ∧ web.PlainJson ∧
      web.chunks.flatten.length ≤ limit ∧
      (if web.disconnects then e = .clientDisconnect
        else e = .json .overflow ∧
          parseJsonObject recursionLimit web.chunks.flatten = .error .overflow)

section Routing

variable {sha256 : Bytes → Str} {recursionLimit limit : ℕ} {credentials : CredentialStore}
variable {checkSchema : Json → Bool} {readers : FieldReaders} {web web' : WebRequest}
variable {credential : CredentialEntry} {requestId : Option Str} {request : InferenceRequest}

theorem not_presents (h : authenticateRequest sha256 credentials web = none)
    (credential : CredentialEntry) (token : Str) :
    ¬ web.Presents sha256 credentials credential token := by
  intro hpresents
  have hsome := authenticateRequest_eq_some.mpr ⟨token, hpresents⟩
  rw [h] at hsome
  cases hsome

theorem inferenceRoute_call :
    inferenceRoute sha256 recursionLimit limit credentials checkSchema readers web =
        .call requestId credential request ↔
      (∃ token, web.Presents sha256 credentials credential token) ∧
        (∃ body fields, web.Carries limit body ∧
          parseJsonObject recursionLimit body = .ok (.dict fields) ∧
          InferenceRequest.modelValidate checkSchema readers (.dict fields) = some request) ∧
        requestId = some request.requestId := by
  rw [← authenticateRequest_eq_some, inferenceRoute]
  split
  · rename_i hnone
    simp [hnone]
  · rename_i entry hentry
    rw [withDocument_call, hentry, Option.some.injEq]
    constructor
    · rintro ⟨fields, hbounded, hnext⟩
      obtain ⟨body, hcarries, hparse⟩ := boundedDocument_eq_ok.mp hbounded
      split at hnext
      · cases hnext
      · rename_i hvalid
        cases hnext
        exact ⟨rfl, ⟨body, fields, hcarries, hparse, hvalid⟩,
          InferenceRequest.modelValidate_requestId hvalid⟩
    · rintro ⟨rfl, ⟨body, fields, hcarries, hparse, hvalid⟩, rfl⟩
      refine ⟨fields, boundedDocument_eq_ok.mpr ⟨body, hcarries, hparse⟩, ?_⟩
      rw [hvalid, InferenceRequest.modelValidate_requestId hvalid]

/-- Every request of the web is led to one of three ends, and its body may come in any pieces. -/
theorem inference_routed :
    InferenceRouting sha256 recursionLimit limit credentials checkSchema readers web
        (inferenceRoute sha256 recursionLimit limit credentials checkSchema readers web) ∧
      ∀ chunks, chunks.flatten = web.chunks.flatten →
        inferenceRoute sha256 recursionLimit limit credentials checkSchema readers
            { web with chunks := chunks } =
          inferenceRoute sha256 recursionLimit limit credentials checkSchema readers web := by
  refine ⟨⟨fun _ _ _ => inferenceRoute_call, fun reply h => ?_, fun e => ?_⟩, fun chunks hsame => ?_⟩
  · unfold inferenceRoute at h
    split at h
    · rename_i hnone
      cases h
      exact .inl ⟨rfl, not_presents hnone⟩
    · unfold withDocument at h
      split at h
      · cases h
        exact .inr ⟨none, rfl, by simp⟩
      · cases h
      · rename_i fields hbounded
        obtain ⟨body, hcarries, hparse⟩ := boundedDocument_eq_ok.mp hbounded
        dsimp only at h
        split at h
        · cases h
          refine .inr ⟨_, rfl, fun k hk => ?_⟩
          obtain ⟨hget, huuid⟩ := safeRequestId_eq_some.mp hk
          exact ⟨huuid, body, fields, hcarries, hparse, hget⟩
        · cases h
  · unfold inferenceRoute
    split
    · rename_i hnone
      simp only [reduceCtorEq, false_iff, not_and]
      rintro ⟨credential, token, hpresents⟩
      exact (not_presents hnone credential token hpresents).elim
    · rename_i entry hentry
      obtain ⟨token, hpresents⟩ := authenticateRequest_eq_some.mp hentry
      rw [withDocument_escapes (fun fields => by split <;> simp), boundedDocument_escapes]
      constructor
      · exact fun h => ⟨⟨entry, token, hpresents⟩, h⟩
      · exact fun h => h.2
  · have hbounded : boundedDocument recursionLimit limit { web with chunks := chunks } =
        boundedDocument recursionLimit limit web := by
      unfold boundedDocument
      rw [readBody_nil, readBody_nil, hsame]
      rfl
    unfold inferenceRoute withDocument
    rw [hbounded]
    rfl

end Routing

end Gateway
