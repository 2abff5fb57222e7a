import Gateway.Foundation.Simulation
import Gateway.Service.Ownership
import Gateway.Service.Refusals
import Gateway.Service.Routes

/-! The server: a process behind its routes, and what its rows owe to the requests of the web. -/
namespace Gateway

open Json (get keys)
open Template (Ascii)
open Transition (Run Recording Simulation labelled run_of_foldlM)

/-- What a process runs on. -/
structure Host where
  posix : Bool
  recursionLimit : ℕ
  cipher : Cipher
  sha256 : Bytes → Str
  checkSchema : Json → Bool
  readers : FieldReaders

/-- A process with the credentials it was started with and its limit on bodies. -/
structure GatewayServer where
  service : GatewayService
  credentials : CredentialStore
  requestMaxBytes : ℕ

/-- What `create_app` is given. -/
structure Launch where
  settings : Settings
  taskPolicyVersion : ℤ
  requestMaxBytes : ℕ
  credentialsFile : Option PrivateFile

/-- What happens to a process; requests of the web are numbered by the calls they make. -/
inductive WebEvent where
  | tick (now : Datetime)
  | inference (c : ℕ) (web : WebRequest)
  | act (c : ℕ) (action : Action)
  | acknowledge (pathRequestId : Str) (web : WebRequest) (now : Datetime)
  | maintain (now : Datetime)
  | restart (launch : Launch) (now : Datetime)

section Next

variable (host : Host) (s : GatewayServer)

/-- What the service is asked to do; a request that is answered by its route asks nothing of it. -/
def GatewayServer.asks : WebEvent → Option Event
  | .tick now => some (.tick now)
  | .inference c web =>
    match inferenceRoute host.sha256 host.recursionLimit s.requestMaxBytes s.credentials
        host.checkSchema host.readers web with
    | .call _ credential request => some (.arrive c credential.toCredential request)
    | _ => none
  | .act c action => some (.act c action)
  | .acknowledge pathRequestId web now =>
    match acknowledgeRoute host.sha256 host.recursionLimit s.requestMaxBytes s.credentials
        host.readers pathRequestId web with
    | .call _ credential request =>
      some (.acknowledge credential.toCredential request.requestId request.disposition now)
    | _ => none
  | .maintain now => some (.maintain now)
  | .restart launch now => some (.restart launch.settings launch.taskPolicyVersion now)

/-- The credentials and the limit after an event; a file that is not accepted starts no process. -/
def GatewayServer.given : WebEvent → Except ConfigRaised (CredentialStore × ℕ)
  | .restart launch _ =>
    (CredentialStore.fromFile host.sha256 host.posix host.recursionLimit launch.credentialsFile).map
      (fun credentials => (credentials, launch.requestMaxBytes))
  | _ => .ok (s.credentials, s.requestMaxBytes)

/-- The state after an event that is possible. -/
def GatewayServer.next (e : WebEvent) : Option GatewayServer :=
  match s.given host e with
  | .error _ => none
  | .ok (credentials, requestMaxBytes) =>
    match s.asks host e with
    | none => some ⟨s.service, credentials, requestMaxBytes⟩
    | some asked =>
      (s.service.next host.cipher host.sha256 asked).map (fun service =>
        ⟨service, credentials, requestMaxBytes⟩)

/-- The first process on an empty file. -/
def GatewayServer.initial (launch : Launch) (now : Datetime) : Option GatewayServer :=
  match CredentialStore.fromFile host.sha256 host.posix host.recursionLimit
      launch.credentialsFile with
  | .error _ => none
  | .ok credentials =>
    (GatewayService.initial launch.settings launch.taskPolicyVersion now).map (fun service =>
      ⟨service, credentials, launch.requestMaxBytes⟩)

end Next

/-- What is promised of what does not come through the routes. -/
def WebEvent.Promised : WebEvent → Prop
  | .act _ (.outcome (.ok result)) => ∃ library schema document,
      validatedResult library schema document = .ok result
  | .restart launch _ => 1 ≤ launch.taskPolicyVersion
  | _ => True

/-- A possible event with what is promised of it. -/
structure Serves (host : Host) (s : GatewayServer) (e : WebEvent) (t : GatewayServer) : Prop where
  next : s.next host e = some t
  promised : e.Promised

/-- An event that deletes no row before its request expires. -/
structure Retains (host : Host) (s : GatewayServer) (e : WebEvent) (t : GatewayServer) : Prop where
  serves : Serves host s e t
  retained : ∀ k row, s.service.db.requests.select k = some row → row.isClosed = true →
    s.service.clock < row.expiresAt.time → t.service.db.requests.select k = some row

def Launched (host : Host) (s : GatewayServer) : Prop :=
  ∃ launch now, 1 ≤ launch.taskPolicyVersion ∧ GatewayServer.initial host launch now = some s

variable {host : Host} {s t : GatewayServer} {e : WebEvent}

/-- An event is answered by its route, or is one of the service. -/
theorem Serves.cases (h : Serves host s e t) :
    s.given host e = .ok (t.credentials, t.requestMaxBytes) ∧
      ((s.asks host e = none ∧ t.service = s.service) ∨
        ∃ asked, s.asks host e = some asked ∧
          s.service.next host.cipher host.sha256 asked = some t.service) := by
  have hnext := h.next
  unfold GatewayServer.next at hnext
  split at hnext
  · cases hnext
  · rename_i credentials requestMaxBytes hgiven
    split at hnext
    · rename_i hasks
      obtain rfl := Option.some.inj hnext
      exact ⟨hgiven, .inl ⟨hasks, rfl⟩⟩
    · rename_i asked hasks
      obtain ⟨service, hservice, rfl⟩ := Option.map_eq_some_iff.mp hnext
      exact ⟨hgiven, .inr ⟨asked, hasks, hservice⟩⟩

/-- A document that a request of the web carries to a process. -/
def GatewayServer.Reads (host : Host) (s : GatewayServer) (web : WebRequest)
    (fields : List (Str × Json)) : Prop :=
  ∃ body, web.Carries s.requestMaxBytes body ∧
    parseJsonObject host.recursionLimit body = .ok (.dict fields)

/-- The service is asked for a call when an authenticated caller sends a request. -/
theorem asks_inference {c : ℕ} {web : WebRequest} {asked : Event}
    (h : s.asks host (.inference c web) = some asked) :
    ∃ credential token request fields,
      web.Presents host.sha256 s.credentials credential token ∧ s.Reads host web fields ∧
      InferenceRequest.modelValidate host.checkSchema host.readers (.dict fields) = some request ∧
      asked = .arrive c credential.toCredential request := by
  dsimp only [GatewayServer.asks] at h
  split at h
  · rename_i hcall
    obtain ⟨⟨token, hpresents⟩, ⟨body, fields, hcarries, hparse, hvalid⟩, -⟩ :=
      inferenceRoute_call.mp hcall
    exact ⟨_, token, _, fields, hpresents, ⟨body, hcarries, hparse⟩, hvalid,
      (Option.some.inj h).symm⟩
  · cases h

/-- And for an acknowledgement when such a caller names one request in the path and in the body. -/
theorem asks_acknowledge {pathRequestId : Str} {web : WebRequest} {now : Datetime} {asked : Event}
    (h : s.asks host (.acknowledge pathRequestId web now) = some asked) :
    ∃ credential token request fields,
      web.Presents host.sha256 s.credentials credential token ∧ s.Reads host web fields ∧
      AcknowledgementRequest.modelValidate host.readers (.dict fields) = some request ∧
      request.requestId = pathRequestId ∧
      asked = .acknowledge credential.toCredential request.requestId request.disposition now := by
  dsimp only [GatewayServer.asks] at h
  split at h
  · rename_i hcall
    unfold acknowledgeRoute at hcall
    split at hcall
    · cases hcall
    · rename_i entry hentry
      obtain ⟨token, hpresents⟩ := authenticateRequest_eq_some.mp hentry
      split at hcall
      · cases hcall
      · obtain ⟨fields, hbounded, hnext⟩ := withDocument_call.mp hcall
        split at hnext
        · cases hnext
        · rename_i request hvalid
          split_ifs at hnext with hpath
          cases hnext
          exact ⟨_, token, _, fields, hpresents, boundedDocument_eq_ok.mp hbounded, hvalid,
            not_not.mp hpath, (Option.some.inj h).symm⟩
  · cases h

/-! The service behind the routes. -/

/-- Every identity the process knows is a hash. -/
def GatewayServer.Known (sha256 : Bytes → Str) (s : GatewayServer) : Prop :=
  ∀ entry ∈ s.credentials.credentials, ∃ b, entry.identityHash = sha256 b

theorem fromFile_hashes {sha256 : Bytes → Str} {posix : Bool} {recursionLimit : ℕ}
    {file : Option PrivateFile} {store : CredentialStore}
    (h : CredentialStore.fromFile sha256 posix recursionLimit file = .ok store) :
    ∀ entry ∈ store.credentials, ∃ b, entry.identityHash = sha256 b := by
  obtain ⟨document, -, hdocument⟩ := bind_eq_ok.mp h
  obtain ⟨ds, -, -, -, hstore⟩ := CredentialStore.fromDocument_eq_ok.mp hdocument
  intro entry hentry
  rw [hstore] at hentry
  obtain ⟨d, -, rfl⟩ := List.mem_map.mp hentry
  exact ⟨_, rfl⟩

theorem known_step (h : Serves host s e t) (hs : s.Known host.sha256) : t.Known host.sha256 := by
  obtain ⟨hgiven, -⟩ := h.cases
  cases e with
  | restart launch now =>
    obtain ⟨store, hfile, he⟩ := map_eq_ok.mp hgiven
    obtain ⟨rfl, -⟩ := Prod.mk.inj he
    exact fromFile_hashes hfile
  | _ =>
    obtain ⟨hcredentials, -⟩ := Prod.mk.inj (Except.ok.inj hgiven)
    unfold GatewayServer.Known
    rw [← hcredentials]
    exact hs

/-- What is asked of the service is as it is promised: requests are as the contract accepts them,
identities as their hash spells them. -/
theorem asks_promised (hascii : ∀ b, Ascii (host.sha256 b)) (hs : s.Known host.sha256)
    (h : Serves host s e t) {asked : Event} (hasks : s.asks host e = some asked) :
    asked.Promised host.checkSchema := by
  have hpromised := h.promised
  cases e with
  | inference c web =>
    obtain ⟨credential, token, request, fields, hpresents, ⟨body, -, hparse⟩, hvalid, rfl⟩ :=
      asks_inference hasks
    obtain ⟨_, hdict, hload⟩ := parseJsonObject_dict hparse
    obtain rfl := Json.dict.inj hdict
    obtain ⟨b, hb⟩ := hs credential hpresents.known
    exact ⟨(InferenceRequest.modelValidate_accepted (Json.distinct_of_loads hload) hvalid).1,
      hb ▸ hascii b⟩
  | acknowledge pathRequestId web now =>
    obtain ⟨credential, token, request, fields, -, -, -, -, rfl⟩ := asks_acknowledge hasks
    trivial
  | act c action =>
    obtain rfl := Option.some.inj hasks
    cases action with
    | outcome outcome =>
      cases outcome with
      | ok result => exact hpromised
      | error e => trivial
    | _ => trivial
  | restart launch now =>
    obtain rfl := Option.some.inj hasks
    exact hpromised
  | _ =>
    obtain rfl := Option.some.inj hasks
    trivial

/-- The server is the service, asked for what its routes let through. -/
theorem server_simulates (hascii : ∀ b, Ascii (host.sha256 b)) :
    Simulation (Serves host) (Happens host.checkSchema host.cipher host.sha256)
      (GatewayServer.Known host.sha256) GatewayServer.service (GatewayServer.asks host) where
  keeps _ _ _ h hs := known_step h hs
  quiet s e t h hasks := by
    rcases h.cases.2 with ⟨-, hsame⟩ | ⟨asked, hasked, -⟩
    · exact hsame
    · cases hasked.symm.trans hasks
  sees s e t asked h hs hasks := by
    rcases h.cases.2 with ⟨hnone, -⟩ | ⟨asked', hasked, hnext⟩
    · cases hnone.symm.trans hasks
    · obtain rfl := Option.some.inj (hasked.symm.trans hasks)
      exact ⟨hnext, asks_promised hascii hs h hasked⟩

theorem launched_started (h : Launched host s) : s.Known host.sha256 ∧ Started s.service := by
  obtain ⟨launch, now, hversion, hinitial⟩ := h
  unfold GatewayServer.initial at hinitial
  split at hinitial
  · cases hinitial
  · rename_i credentials hfile
    obtain ⟨service, hservice, rfl⟩ := Option.map_eq_some_iff.mp hinitial
    exact ⟨fromFile_hashes hfile, launch.settings, launch.taskPolicyVersion, now, hversion, hservice⟩

/-! What rows owe to the web. -/

/-- A request of the web, the process it came to, and who sent it. -/
structure Sent (host : Host) (history : List (GatewayServer × WebEvent)) (e : WebEvent)
    (web : WebRequest) (credential : CredentialEntry) (fields : List (Str × Json)) : Prop where
  sent : ∃ u token, (u, e) ∈ history ∧ web.Presents host.sha256 u.credentials credential token ∧
    u.Reads host web fields

/-- A call was asked for by its caller, in these words. -/
def CallAsked (host : Host) (history : List (GatewayServer × WebEvent)) (call : InferCall) : Prop :=
  ∃ c web credential fields, Sent host history (.inference c web) web credential fields ∧
    call.credential = credential.toCredential ∧
    InferenceRequest.modelValidate host.checkSchema host.readers (.dict fields) = some call.request ∧
    call.request.canonicalDigest host.sha256 = .ok call.digest

/-- A row was asked for by its owner, for a task that is the owner's and has a policy. -/
def RowAsked (host : Host) (history : List (GatewayServer × WebEvent)) (row : Row) : Prop :=
  ∃ c web credential fields request, Sent host history (.inference c web) web credential fields ∧
    InferenceRequest.modelValidate host.checkSchema host.readers (.dict fields) = some request ∧
    credential.identityHash = row.credentialHash ∧ request.requestId = row.requestId ∧
    request.canonicalDigest host.sha256 = .ok row.requestDigest ∧
    request.requestExpiresAt = row.expiresAt ∧ request.taskKey = (row.taskId, row.taskVersion) ∧
    request.taskKey ∈ credential.tasks ∧ (taskPolicy? request.taskKey).isSome

/-- An acknowledged row was acknowledged by its owner, with the disposition it has. -/
def RowAcknowledged (host : Host) (history : List (GatewayServer × WebEvent)) (row : Row) : Prop :=
  row.state = .acknowledged → ∃ now web credential fields request,
    Sent host history (.acknowledge row.requestId web now) web credential fields ∧
    AcknowledgementRequest.modelValidate host.readers (.dict fields) = some request ∧
    credential.identityHash = row.credentialHash ∧ request.requestId = row.requestId ∧
    row.acknowledgementDisposition = some request.disposition

/-- What has come so far, each with the process it came to. -/
def visits (history : List (GatewayServer × WebEvent)) (s : GatewayServer) (e : WebEvent)
    (_ : GatewayServer) : List (GatewayServer × WebEvent) :=
  history ++ [(s, e)]

section History

variable {history : List (GatewayServer × WebEvent)} {row row' : Row} {k : Str} {call : InferCall}
variable {web : WebRequest} {credential : CredentialEntry} {fields : List (Str × Json)}

theorem Sent.later {e' : WebEvent} (h : Sent host history e web credential fields) :
    Sent host (history ++ [(s, e')]) e web credential fields := by
  obtain ⟨u, token, hmem, hrest⟩ := h.sent
  exact ⟨u, token, List.mem_append_left _ hmem, hrest⟩

theorem CallAsked.later (h : CallAsked host history call) :
    CallAsked host (history ++ [(s, e)]) call := by
  obtain ⟨c, web, credential, fields, hsent, hrest⟩ := h
  exact ⟨c, web, credential, fields, hsent.later, hrest⟩

theorem RowAsked.later (h : RowAsked host history row) : RowAsked host (history ++ [(s, e)]) row := by
  obtain ⟨c, web, credential, fields, request, hsent, hrest⟩ := h
  exact ⟨c, web, credential, fields, request, hsent.later, hrest⟩

theorem RowAcknowledged.later (h : RowAcknowledged host history row) :
    RowAcknowledged host (history ++ [(s, e)]) row := by
  intro hstate
  obtain ⟨now, web, credential, fields, request, hsent, hrest⟩ := h hstate
  exact ⟨now, web, credential, fields, request, hsent.later, hrest⟩

theorem RowAsked.same (hid : SameIdentity row row') (h : RowAsked host history row) :
    RowAsked host history row' := by
  obtain ⟨c, web, credential, fields, request, hsent, hvalid, howner, hrequest, hdigest, hexpires,
    htask, hmine⟩ := h
  exact ⟨c, web, credential, fields, request, hsent, hvalid, howner.trans hid.credentialHash,
    hrequest.trans hid.requestId, hid.requestDigest ▸ hdigest, hexpires.trans hid.expiresAt,
    hid.taskId ▸ hid.taskVersion ▸ htask, hmine⟩

end History

/-- Everything in a process and in its file has come in through its routes. -/
structure Traced (host : Host) (history : List (GatewayServer × WebEvent)) (s : GatewayServer) :
    Prop where
  calls : ∀ c call, s.service.calls c = some call → CallAsked host history call ∧
    ∀ now, call.pc = .policed now →
      validatePolicy s.service.settings call.credential call.request now = .ok ()
  rows : ∀ k row, s.service.db.requests.select k = some row →
    RowAsked host history row ∧ RowAcknowledged host history row

/-! Which events admit and acknowledge. -/

section Steps

variable {cipher : Cipher} {sha256 : Bytes → Str} {service service' : GatewayService}
variable {settings : StoreSettings} {asked : Event} {request : InferenceRequest}
variable {credentialHash requestDigest disposition k : Str} {now : Datetime} {row row' : Row}
variable {call : InferCall} {c : ℕ} {pc : Pc} {action : Action} {db : Database}
variable {active : Option ActiveAttempt}

theorem storeCall_admits
    (h : service.storeCall asked = some (settings, .admitRequest request credentialHash requestDigest now)) :
    ∃ c call, service.calls c = some call ∧ call.pc = .policed now ∧ request = call.request ∧
      credentialHash = call.credential.identityHash ∧ requestDigest = call.digest := by
  cases asked with
  | act c action =>
    obtain ⟨call, hget, hcall⟩ := Option.bind_eq_some_iff.mp h
    obtain ⟨storeCall, hstore, he⟩ := Option.map_eq_some_iff.mp hcall
    obtain ⟨-, rfl⟩ := Prod.mk.inj he
    unfold InferCall.storeCall at hstore
    split at hstore
    · rename_i now' hpc
      obtain ⟨rfl, rfl, rfl, rfl⟩ := StoreCall.admitRequest.inj (Option.some.inj hstore)
      exact ⟨c, call, hget, hpc, rfl, rfl, rfl⟩
    · cases hstore
    · split_ifs at hstore <;> cases hstore
    · split_ifs at hstore
      cases hstore
    · rename_i outcome now' nonce hpc
      cases outcome with
      | ok result => cases hstore
      | error e => cases e <;> cases hstore
    · cases hstore
    · cases hstore
    · cases hstore
  | _ => cases h

theorem storeCall_acknowledges
    (h : service.storeCall asked = some (settings, .acknowledge k credentialHash disposition now)) :
    ∃ credential, asked = .acknowledge credential k disposition now ∧
      credential.identityHash = credentialHash := by
  cases asked with
  | act c action =>
    obtain ⟨call, hget, hcall⟩ := Option.bind_eq_some_iff.mp h
    obtain ⟨storeCall, hstore, he⟩ := Option.map_eq_some_iff.mp hcall
    obtain ⟨-, rfl⟩ := Prod.mk.inj he
    unfold InferCall.storeCall at hstore
    split at hstore
    · cases hstore
    · cases hstore
    · split_ifs at hstore <;> cases hstore
    · split_ifs at hstore
      cases hstore
    · rename_i outcome now' nonce hpc
      cases outcome with
      | ok result => cases hstore
      | error e => cases e <;> cases hstore
    · cases hstore
    · cases hstore
    · cases hstore
  | acknowledge credential requestId disposition' now' =>
    obtain ⟨-, he⟩ := Prod.mk.inj (Option.some.inj h)
    obtain ⟨rfl, rfl, rfl, rfl⟩ := StoreCall.acknowledge.inj he
    exact ⟨credential, rfl, rfl⟩
  | _ => cases h

/-- Only the owner's acknowledgement changes a completed row. -/
theorem acknowledge_owner (hrow : db.requests.select k = some row) (hstate : row.state = .completed)
    (hrow' : ((StoreCall.acknowledge k credentialHash disposition now).run settings cipher
      db).2.requests.select k = some row') (hstate' : row'.state = .acknowledged) :
    row'.credentialHash = credentialHash := by
  rcases outcome_requests (acknowledge settings now k credentialHash disposition) db with
    hsame | ⟨record, hok⟩
  · have hunchanged : db.requests.select k = some row' := hsame ▸ hrow'
    obtain rfl := Option.some.inj (hrow.symm.trans hunchanged)
    rw [hstate] at hstate'
    cases hstate'
  · obtain ⟨t₁, hclean, -⟩ := bind_eq_ok.mp hok
    obtain ⟨r, hr, howner, hcase⟩ := acknowledge_ok hclean hok
    rcases hcase with ⟨-, -, hset⟩ | ⟨-, -, -, hsame⟩
    · have hrow'' := (hset k).symm.trans hrow'
      rw [if_pos rfl] at hrow''
      obtain rfl := Option.some.inj hrow''
      exact howner
    · have hrow'' : t₁.select k = some row' := hsame ▸ hrow'
      obtain rfl := Option.some.inj (hr.symm.trans hrow'')
      exact howner

theorem CallStep.policed_ok (h : CallStep cipher service call c pc action (.policed now) db active) :
    validatePolicy service.settings call.credential call.request now = .ok () := by
  obtain rfl := h.policed
  generalize hpc' : Pc.policed now = pc' at h
  cases h with
  | policy =>
    cases hp : validatePolicy service.settings call.credential call.request now <;>
      simp_all [afterPolicy]
  | late attemptId now' r hpc hexpired hr =>
    rcases hpc with ⟨-, hne⟩ | ⟨-, hne⟩ <;> cases hne

end Steps

/-! Each event leaves everything traced. -/

section Traces

variable {history : List (GatewayServer × WebEvent)} {asked : Event}

theorem traced_calls (h : Serves host s e t) (hasks : s.asks host e = some asked)
    (hnext : ServiceStep host.cipher host.sha256 s.service asked t.service)
    (hs : Traced host history s) {c : ℕ} {call : InferCall} (hget : t.service.calls c = some call) :
    CallAsked host (history ++ [(s, e)]) call ∧ ∀ now, call.pc = .policed now →
      validatePolicy t.service.settings call.credential call.request now = .ok () := by
  have hkept : ∀ call, s.service.calls c = some call → CallAsked host (history ++ [(s, e)]) call ∧
      ∀ now, call.pc = .policed now →
        validatePolicy s.service.settings call.credential call.request now = .ok () := fun call hget =>
    ⟨(hs.calls c call hget).1.later, (hs.calls c call hget).2⟩
  generalize hservice : t.service = service at hnext hget
  cases hnext with
  | tick hclock => exact hkept call hget
  | arrive hfree hdigest =>
    simp only [Function.update_apply] at hget
    split_ifs at hget with hc
    · obtain rfl := Option.some.inj hget
      refine ⟨?_, nofun⟩
      cases e with
      | inference c' web =>
        obtain ⟨credential, token, request, fields, hpresents, hreads, hvalid, he⟩ := asks_inference hasks
        obtain ⟨rfl, rfl, rfl⟩ := Event.arrive.inj he
        exact ⟨_, web, credential, fields,
          ⟨s, token, List.mem_append_right _ (List.mem_singleton.mpr rfl), hpresents, hreads⟩, rfl,
          hvalid, hdigest⟩
      | acknowledge pathRequestId web now =>
        obtain ⟨_, _, _, _, -, -, -, -, he⟩ := asks_acknowledge hasks
        cases he
      | _ => cases hasks
    · exact hkept call hget
  | act hget' hreads hstep =>
    simp only [GatewayService.after, Function.update_apply] at hget
    split_ifs at hget with hc
    · obtain rfl := Option.some.inj hget
      obtain ⟨⟨c', web, credential, fields, hsent, hrest⟩, -⟩ := hkept _ (hc ▸ hget')
      refine ⟨⟨c', web, credential, fields, hsent, hrest⟩, fun now hpc => ?_⟩
      obtain rfl : _ = Pc.policed now := hpc
      exact hstep.policed_ok
    · exact hkept call hget
  | acknowledge hclock => exact hkept call hget
  | maintain hclock => exact hkept call hget
  | restart hclock hopens => cases hget

theorem traced_rows (hasks : s.asks host e = some asked)
    (hnext : ServiceStep host.cipher host.sha256 s.service asked t.service)
    (hs : Traced host history s) {k : Str} {row : Row}
    (hrow : t.service.db.requests.select k = some row) :
    RowAsked host (history ++ [(s, e)]) row ∧ RowAcknowledged host (history ++ [(s, e)]) row := by
  have hkept : ∀ row, s.service.db.requests.select k = some row →
      RowAsked host (history ++ [(s, e)]) row ∧ RowAcknowledged host (history ++ [(s, e)]) row :=
    fun row hrow => ⟨(hs.rows k row hrow).1.later, (hs.rows k row hrow).2.later⟩
  rcases hnext.keyMove k with ⟨-, hsame⟩ | ⟨settings, storeCall, hcall, hkey⟩
  · exact hkept row (hsame ▸ hrow)
  · generalize hbefore : s.service.db.requests.select k = before at hkey
    rw [hrow] at hkey
    cases hkey with
    | moved hmove =>
      rename_i row₀
      obtain ⟨hasked, hacknowledged⟩ := hkept row₀ hbefore
      refine ⟨hasked.same (rowMove_identity hmove), fun hstate => ?_⟩
      cases hmove with
      | same => exact hacknowledged hstate
      | acknowledge hcompleted =>
        rename_i credentialHash disposition now
        obtain ⟨credential, rfl, rfl⟩ := storeCall_acknowledges hcall
        have howner : (row₀.acknowledge disposition now).credentialHash = credential.identityHash := by
          have hstores := hnext.stores
          rw [hcall] at hstores
          exact acknowledge_owner hbefore hcompleted (hstores ▸ hrow) rfl
        cases e with
        | acknowledge pathRequestId web now' =>
          obtain ⟨entry, token, request, fields, hpresents, hreads, hvalid, hpath, he⟩ :=
            asks_acknowledge hasks
          obtain ⟨rfl, hid, rfl, rfl⟩ := Event.acknowledge.inj he
          have hk : k = row₀.requestId := (KeyedTable.key_of_select hbefore).symm
          refine ⟨now, web, entry, fields, request, ⟨s, token, ?_, hpresents, hreads⟩, hvalid,
            howner.symm, hid.symm.trans hk, rfl⟩
          have hsame : (row₀.acknowledge request.disposition now).requestId = pathRequestId := by
            rw [← hpath, ← hid]
            exact hk.symm
          simp [hsame]
        | inference c web =>
          obtain ⟨_, _, _, _, -, -, -, he⟩ := asks_inference hasks
          cases he
        | _ => cases hasks
      | _ => cases hstate
    | inserted hadmit hid hlive hgone =>
      rename_i request credentialHash requestDigest now
      subst hadmit
      obtain ⟨c, call, hget, hpc, rfl, rfl, rfl⟩ := storeCall_admits hcall
      obtain ⟨⟨c', web, credential, fields, hsent, hcredential, hvalid, hdigest⟩, hpoliced⟩ :=
        hs.calls c call hget
      obtain ⟨htask, ⟨policy, hpolicy⟩, -, -⟩ := validatePolicy_ok (hpoliced now hpc)
      refine ⟨⟨c', web, credential, fields, call.request, hsent.later, hvalid, ?_, rfl, hdigest, rfl,
        rfl, hcredential ▸ htask, by rw [hpolicy]; rfl⟩, nofun⟩
      rw [hcredential]
      rfl

theorem traced_step (h : Serves host s e t) (hs : Traced host history s) :
    Traced host (visits history s e t) t := by
  rcases h.cases.2 with ⟨-, hsame⟩ | ⟨asked, hasks, hnext⟩
  · refine ⟨fun c call hget => ?_, fun k row hrow => ?_⟩
    · rw [hsame] at hget ⊢
      exact ⟨(hs.calls c call hget).1.later, (hs.calls c call hget).2⟩
    · rw [hsame] at hrow
      exact ⟨(hs.rows k row hrow).1.later, (hs.rows k row hrow).2.later⟩
  · have hstep := serviceStep_of_next hnext
    exact ⟨fun c call hget => traced_calls h hasks hstep hs hget,
      fun k row hrow => traced_rows hasks hstep hs hrow⟩

/-- Over any run of the server, through any number of restarts with other credentials, every call and
every row goes back to an authenticated request for a task that its owner may use, and every
acknowledgement to one of the owner's. -/
theorem server_traced {s₀ : GatewayServer} {events : List WebEvent} (hstart : Launched host s₀)
    (hrun : Run (Recording (Serves host) visits) (s₀, []) events (s, history)) :
    Traced host history s := by
  refine hrun.invariant (P := fun p : GatewayServer × List (GatewayServer × WebEvent) =>
    Traced host p.2 p.1) ?_ ?_
  · rintro ⟨s, history⟩ e ⟨t, history'⟩ ⟨hstep, hrecord⟩ hs
    obtain rfl : history' = visits history s e t := hrecord
    exact traced_step hstep hs
  · obtain ⟨-, hcalls, hrows⟩ := started_empty (launched_started hstart).2
    exact ⟨fun c call hget => by simp [hcalls] at hget, fun k row hrow => by simp [hrows] at hrow⟩

end Traces

/-! A request that is sent, completed and acknowledged by one caller. -/

/-- An event at a time when no row is closed. -/
def GatewayServer.nextOpen (host : Host) (s : GatewayServer) (e : WebEvent) : Option GatewayServer :=
  if s.service.db.requests.rows.all (fun row => !row.isClosed) then s.next host e else none

theorem retains_of_nextOpen (h : s.nextOpen host e = some t) (hpromised : e.Promised) :
    Retains host s e t := by
  unfold GatewayServer.nextOpen at h
  split_ifs at h with hopen
  refine ⟨⟨h, hpromised⟩, fun k row hrow hclosed => ?_⟩
  have hrowOpen := List.all_eq_true.mp hopen row (KeyedTable.mem_of_select hrow)
  simp [hclosed] at hrowOpen

def sampleRequestId : Str := str "5f0c8f6e-1d2b-4c3a-9e7f-0a1b2c3d4e5f"

def emailBody : Bytes :=
  str "\x7b\"protocol_version\":1,\"request_id\":\"5f0c8f6e-1d2b-4c3a-9e7f-0a1b2c3d4e5f\"," ++
  str "\"request_expires_at\":\"2026-09-10T18:05:00Z\"," ++
  str "\"task\":\x7b\"id\":\"email.analyze\",\"version\":1\x7d," ++
  str "\"requirements\":\x7b\"input_modalities\":[\"text\"],\"output_media_type\":\"application/json\"," ++
  str "\"structured_output\":true,\"max_output_tokens\":1500\x7d," ++
  str "\"generation\":\x7b\"messages\":[\x7b\"role\":\"system\",\"content\":\"Classify.\"\x7d," ++
  str "\x7b\"role\":\"user\",\"content\":\"Text.\"\x7d],\"temperature\":0.1," ++
  str "\"response_schema\":\x7b\"type\":\"object\"\x7d\x7d\x7d"

def persistedBody : Bytes :=
  str "\x7b\"protocol_version\":1,\"request_id\":\"5f0c8f6e-1d2b-4c3a-9e7f-0a1b2c3d4e5f\"," ++
  str "\"disposition\":\"persisted\"\x7d"

/-- A body in two chunks, from the caller of the sample credential. -/
def sampleWeb (body : Bytes) : WebRequest where
  authorization := some (str "Bearer " ++ sampleToken)
  contentEncoding := none
  contentType := some (str "application/json; charset=utf-8")
  chunks := [body.take 50, body.drop 50]
  disconnects := false

/-- What the request of the body is hashed as. -/
def emailCanonical : Bytes :=
  str "\x7b\"generation\":\x7b\"messages\":[\x7b\"content\":\"Classify.\",\"role\":\"system\"\x7d," ++
  str "\x7b\"content\":\"Text.\",\"role\":\"user\"\x7d]," ++
  str "\"response_schema\":\x7b\"type\":\"object\"\x7d,\"temperature\":1e-1\x7d," ++
  str "\"protocol_version\":1,\"request_expires_at\":\"2026-09-10T18:05:00Z\"," ++
  str "\"request_id\":\"5f0c8f6e-1d2b-4c3a-9e7f-0a1b2c3d4e5f\"," ++
  str "\"requirements\":\x7b\"input_modalities\":[\"text\"],\"max_output_tokens\":1500," ++
  str "\"output_media_type\":\"application/json\",\"structured_output\":true\x7d," ++
  str "\"task\":\x7b\"id\":\"email.analyze\",\"version\":1\x7d\x7d"

/-- A hash without collisions that agrees with the real one on the token, the identity and the
canonical request. -/
def sampleHash (b : Bytes) : Str :=
  if b = sampleToken then sampleTokenSha256
  else if b = str "email-watcher" then sampleIdentitySha256
  else if b = emailCanonical then
    str "001eb02913d4c7872b1c771719187eaff2421719dc7ba1f8c77669a308ef2438"
  else 102 :: unaryText b

/-- A cipher that keeps its associated data before the text, and looks for it there. -/
def boundCipher : Cipher where
  encrypt _ text aad := aad.length :: (aad ++ text)
  decrypt _ ciphertext aad :=
    if ciphertext.take (aad.length + 1) = aad.length :: aad then some (ciphertext.drop (aad.length + 1))
    else none

def sampleHost : Host where
  posix := true
  recursionLimit := 100
  cipher := boundCipher
  sha256 := sampleHash
  checkSchema := fun _ => true
  readers := sampleReaders

def sampleLaunch : Launch := ⟨shortRetention, 2, 65536, some sampleCredentialFile⟩

/-- The caller's request runs to its result and is acknowledged; a stranger is answered 401. -/
def webEvents : List WebEvent :=
  let six := sampleMoment 18 0 0 0
  [.inference 0 (sampleWeb emailBody), .inference 1 { sampleWeb emailBody with authorization := none },
    .act 0 (.policy six), .act 0 .admission, .act 0 (.lane (str "a0")), .act 0 (.mark six),
    .act 0 (.dispatch six), .act 0 (.outcome (.ok sampleWorkerResult)), .act 0 (.close six [0]),
    .act 0 (.finish six), .act 0 .release, .acknowledge sampleRequestId (sampleWeb persistedBody) six]

def webServer (n : ℕ) : Option GatewayServer :=
  (GatewayServer.initial sampleHost sampleLaunch (sampleMoment 18 0 0 0)).bind (fun s =>
    (webEvents.take n).foldlM (fun s e => GatewayServer.nextOpen sampleHost s e) s)

theorem webEvents_promised : ∀ e ∈ webEvents, e.Promised := by
  have hresult : ∃ library schema document,
      validatedResult library schema document = .ok sampleWorkerResult :=
    ⟨⟨100, fun _ _ => true⟩, [], completionDocument (str "\x7b\x7d"), by decide +kernel⟩
  simp only [webEvents, List.forall_mem_cons]
  simp only [WebEvent.Promised, hresult, List.not_mem_nil, false_implies, implies_true, and_self]

theorem webServer_run {n : ℕ} {s : GatewayServer} (h : webServer n = some s) :
    ∃ s₀, Launched sampleHost s₀ ∧ Run (Retains sampleHost) s₀ (webEvents.take n) s := by
  obtain ⟨s₀, hstart, hplayed⟩ := Option.bind_eq_some_iff.mp h
  exact ⟨s₀, ⟨sampleLaunch, _, by decide, hstart⟩,
    run_of_foldlM (fun s e t he hnext => retains_of_nextOpen hnext
      (webEvents_promised e (List.mem_of_mem_take he))) hplayed⟩

theorem webServer_acknowledged : (webServer 12).bind (fun s =>
    (s.service.db.requests.select sampleRequestId).map Row.state) = some .acknowledged := by
  decide +kernel

theorem sampleHash_ascii (b : Bytes) : Ascii (sampleHash b) := by
  unfold sampleHash
  split_ifs
  · decide
  · decide
  · decide
  · intro c hc
    rcases List.mem_cons.mp hc with rfl | hc
    · decide
    · rcases mem_unaryText hc with rfl | rfl <;> decide

/-- Every run of the server is a run of the service, asked what the routes let through and nothing
else: what every run of the service keeps, every run of the server keeps. -/
theorem server_refines_service (hascii : ∀ b, Ascii (host.sha256 b)) {events : List WebEvent}
    (hstart : Launched host s) (hrun : Run (Serves host) s events t) :
    Started s.service ∧ ∃ asked : List Event,
      Run (Recording (Serves host) (labelled (GatewayServer.asks host))) (s, []) events (t, asked) ∧
      Run (Happens host.checkSchema host.cipher host.sha256) s.service asked t.service := by
  obtain ⟨hknown, hstarted⟩ := launched_started hstart
  exact ⟨hstarted, (server_simulates hascii).run hrun hknown⟩

/-- The run of the caller is a run of the service. -/
theorem server_refines_service_sample : ∃ s t : GatewayServer, webServer 12 = some t ∧
    Started s.service ∧ ∃ asked : List Event,
      Run (Recording (Serves sampleHost) (labelled (GatewayServer.asks sampleHost))) (s, [])
        (webEvents.take 12) (t, asked) ∧
      Run (Happens (fun _ => true) boundCipher sampleHash) s.service asked t.service := by
  obtain ⟨t, hserver, -⟩ := Option.bind_eq_some_iff.mp webServer_acknowledged
  obtain ⟨s, hstart, hrun⟩ := webServer_run hserver
  exact ⟨s, t, hserver, @server_refines_service sampleHost s t sampleHash_ascii _ hstart
    (hrun.mono fun _ _ _ h => h.serves)⟩

/-- The acknowledged row of the run goes back to its request and to its acknowledgement. -/
theorem server_traced_acknowledged : ∃ (s : GatewayServer) (history : List (GatewayServer × WebEvent))
    (row : Row), s.service.db.requests.select sampleRequestId = some row ∧
      row.state = .acknowledged ∧ Traced sampleHost history s := by
  obtain ⟨s, hserver, hrow⟩ := Option.bind_eq_some_iff.mp webServer_acknowledged
  obtain ⟨row, hrow, hstate⟩ := Option.map_eq_some_iff.mp hrow
  obtain ⟨s₀, hstart, hrun⟩ := webServer_run hserver
  obtain ⟨history, hrecorded⟩ := (hrun.mono fun _ _ _ h => h.serves).recorded visits []
  exact ⟨s, history, row, hrow, hstate, server_traced hstart hrecorded⟩

end Gateway
