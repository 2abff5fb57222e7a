import Gateway.Service.Attempts
import Gateway.Service.Replay
import Gateway.Service.Server

/-! Outputs at rest: whose row an output opens in, and where its text comes from. -/
namespace Gateway

open Template (Ascii)
open Transition (Run Reachable Recording)

variable {host : Host} {s t s' : GatewayServer} {e : WebEvent} {cipher : Cipher} {k k' text : Str}
variable {history : List (GatewayServer × WebEvent)} {row row' : Row} {record : RequestRecord}

/-! One line for each part of the associated data. -/

/-- A text without a line break. -/
def OneLine (text : Str) : Prop := 10 ∉ text

theorem oneLine_hex (h : ∀ c ∈ text, isLowerHex c = true) : OneLine text := by
  intro hmem
  have hbreak := h 10 hmem
  revert hbreak
  decide

theorem ascii_hex (h : ∀ c ∈ text, isLowerHex c = true) : Ascii text := by
  intro c hc
  have hhex := h c hc
  simp only [isLowerHex, JsonText.isDigit, Bool.or_eq_true, Bool.and_eq_true,
    decide_eq_true_eq] at hhex
  omega

theorem oneLine_uuidV4 (h : uuidV4 text = true) : OneLine text := by
  intro hmem
  refine matchesAll_forall (P := fun c => c ≠ 10) (fun p hp c hc => ?_) h 10 hmem rfl
  have hhex : ∀ {c : ℕ}, isLowerHex c = true → c ≠ 10 := by
    rintro c hc rfl
    revert hc
    decide
  simp only [List.append_assoc, List.mem_append, List.mem_replicate, List.mem_singleton] at hp
  rcases hp with ⟨-, rfl⟩ | rfl | ⟨-, rfl⟩ | rfl | rfl | ⟨-, rfl⟩ | rfl | rfl | ⟨-, rfl⟩ | rfl |
    ⟨-, rfl⟩ <;> first | exact hhex hc | (simp at hc; omega)

/-- The request and its owner are each one line of the associated data. -/
structure Bindable (row : Row) : Prop where
  requestId : OneLine row.requestId
  credentialHash : OneLine row.credentialHash

theorem aad_eq_some {aad : Bytes} (h : row.record.aad = some aad) :
    aad = row.requestId ++ 10 :: (row.credentialHash ++ 10 :: row.requestDigest) := by
  unfold RequestRecord.aad encodeAscii at h
  split_ifs at h
  simpa [Row.record] using (Option.some.inj h).symm

/-- The associated data of a row are those of its request, its owner and its digest alone. -/
theorem aad_injective {aad : Bytes} (hrow : Bindable row) (hrow' : Bindable row')
    (h : row.record.aad = some aad) (h' : row'.record.aad = some aad) :
    row.requestId = row'.requestId ∧ row.identity = row'.identity := by
  have hlines := (aad_eq_some h).symm.trans (aad_eq_some h')
  obtain ⟨hid, hrest⟩ := append_separated hrow.requestId hrow'.requestId hlines
  obtain ⟨howner, hdigest⟩ := append_separated hrow.credentialHash hrow'.credentialHash hrest
  exact ⟨hid, by rw [Row.identity, Row.identity, howner, hdigest]⟩

theorem aad_congr (hid : row.requestId = row'.requestId) (h : row.identity = row'.identity) :
    row.record.aad = row'.record.aad := by
  obtain ⟨howner, hdigest⟩ := Identity.mk.inj h
  simp [RequestRecord.aad, Row.record, hid, howner, hdigest]

/-! Where an output comes from. -/

/-- A worker has answered a call of this request, under this identity, with this result. -/
def WorkerAnswered (history : List (GatewayServer × WebEvent)) (key : Dispatched)
    (result : WorkerResult) : Prop :=
  ∃ (u : GatewayServer) (c : ℕ) (call : InferCall) (attemptId : Str),
    (u, WebEvent.act c (.outcome (.ok result))) ∈ history ∧ u.service.calls c = some call ∧
      call.pc = .dispatched attemptId ∧ call.dispatched = key

/-- A response of the request, with what a worker answered a call of it with. -/
def Provided (history : List (GatewayServer × WebEvent)) (key : Dispatched) (r : Response) : Prop :=
  r.requestId = key.requestId ∧ ∃ result, WorkerAnswered history key result ∧
    r.mediaType = some result.mediaType ∧ r.content = result.content

/-- The output columns of a row hold this text, sealed for the row. -/
def HoldsText (cipher : Cipher) (row : Row) (text : Str) : Prop :=
  ∃ nonce ciphertext, row.outputNonce = some nonce ∧ row.outputCiphertext = some ciphertext ∧
    row.record.encrypt cipher nonce text = .ok (nonce, ciphertext)

/-- Both output columns are empty, or hold a result. -/
def SealedOutput (cipher : Cipher) (answered : WorkerResult → Prop) (row : Row) : Prop :=
  row.outputNonce = none ∧ row.outputCiphertext = none ∨
    ∃ result, answered result ∧ row.outputMediaType = some result.mediaType ∧
      HoldsText cipher row result.content

/-- Results that are about to be stored, outputs that have been, and responses that are returned;
`whose` says whose results an identity may have. -/
structure Sealed (host : Host) (whose : Identity → Identity → Prop)
    (history : List (GatewayServer × WebEvent)) (s : GatewayServer) : Prop where
  settling : ∀ c call attemptId result, s.service.calls c = some call →
    call.pc = .settling attemptId (.ok result) → WorkerAnswered history call.dispatched result
  rows : ∀ k row, s.service.db.requests.select k = some row →
    SealedOutput host.cipher (fun result => ∃ who, whose row.identity who ∧
      WorkerAnswered history ⟨k, who⟩ result) row
  answers : ∀ c call r, s.service.calls c = some call → call.pc.response? = some r →
    ∃ who, whose call.identity who ∧ Provided history ⟨call.request.requestId, who⟩ r

/-- Whoever has set about storing a result has it for the row that it would be stored in. -/
def Settles (whose : Identity → Identity → Prop) (s : GatewayService) : Prop :=
  ∀ c call attemptId outcome row, s.calls c = some call → call.pc = .settling attemptId outcome →
    s.db.requests.select call.request.requestId = some row → row.attemptId = some attemptId →
    whose row.identity call.identity

variable {whose : Identity → Identity → Prop} {answered answered' : WorkerResult → Prop}
variable {key : Dispatched}

theorem WorkerAnswered.later {result : WorkerResult} (h : WorkerAnswered history key result) :
    WorkerAnswered (history ++ [(s, e)]) key result := by
  obtain ⟨u, c, call, attemptId, hmem, hrest⟩ := h
  exact ⟨u, c, call, attemptId, List.mem_append_left _ hmem, hrest⟩

theorem Provided.later {r : Response} (h : Provided history key r) :
    Provided (history ++ [(s, e)]) key r := by
  obtain ⟨hid, result, hanswered, hrest⟩ := h
  exact ⟨hid, result, hanswered.later, hrest⟩

theorem SealedOutput.mono (h : SealedOutput cipher answered row)
    (hmono : ∀ result, answered result → answered' result) : SealedOutput cipher answered' row := by
  rcases h with hnone | ⟨result, hanswered, hrest⟩
  · exact .inl hnone
  · exact .inr ⟨result, hmono result hanswered, hrest⟩

theorem Sealed.later (h : Sealed host whose history s) : Sealed host whose (history ++ [(t, e)]) s where
  settling c call attemptId result hget hpc := (h.settling c call attemptId result hget hpc).later
  rows k row hrow := (h.rows k row hrow).mono fun _ ⟨who, hwho, hanswered⟩ =>
    ⟨who, hwho, hanswered.later⟩
  answers c call r hget hpc := by
    obtain ⟨who, hwho, hprovided⟩ := h.answers c call r hget hpc
    exact ⟨who, hwho, hprovided.later⟩

section Steps

variable {service service' : GatewayService} {asked : Event} {settings : StoreSettings}
variable {storeCall : StoreCall} {call : InferCall} {c : ℕ} {pc : Pc} {db : Database}
variable {active : Option ActiveAttempt} {outcome : Except WorkerRaised WorkerResult}

theorem CallStep.outcome_dispatched
    (h : CallStep cipher service call c call.pc (.outcome outcome) pc db active) :
    ∃ attemptId, call.pc = .dispatched attemptId := by
  generalize hpc : call.pc = before at h
  generalize haction : Action.outcome outcome = action at h
  cases h with
  | late attemptId now r hat hexpired hr => rcases hat with ⟨-, rfl⟩ | ⟨-, rfl⟩ <;> cases haction
  | outcome attemptId outcome' => exact ⟨attemptId, rfl⟩
  | _ => cases haction

/-- Only a completion puts anything into the output columns. -/
theorem sealedOutput_move (h : RowMove cipher k row storeCall row')
    (hquiet : storeCall.completes = false) (hs : SealedOutput cipher answered row) :
    SealedOutput cipher answered row' := by
  have hkept : row'.record.aad = row.record.aad :=
    (aad_congr (rowMove_identity h).requestId (rowMove_identity h).identity).symm
  have hsame : row'.outputMediaType = row.outputMediaType → row'.outputNonce = row.outputNonce →
      row'.outputCiphertext = row.outputCiphertext → SealedOutput cipher answered row' := by
    intro hmedia hnonce hciphertext
    rcases hs with ⟨hnone, hnone'⟩ | ⟨result, hanswered, hm, nonce, ciphertext, hn, hc, hseal⟩
    · exact .inl ⟨hnonce.trans hnone, hciphertext.trans hnone'⟩
    · refine .inr ⟨result, hanswered, hmedia.trans hm, nonce, ciphertext, hnonce.trans hn,
        hciphertext.trans hc, ?_⟩
      rw [RequestRecord.encrypt, hkept]
      exact hseal
  cases h with
  | complete => cases hquiet
  | expire => exact .inl ⟨rfl, rfl⟩
  | acknowledge => exact .inl ⟨rfl, rfl⟩
  | _ => exact hsame rfl rfl rfl

end Steps

theorem decrypt_eq_ok {nonce ciphertext : Bytes} (hnonce : record.outputNonce = some nonce)
    (hciphertext : record.outputCiphertext = some ciphertext) :
    record.decrypt cipher = .ok text ↔ ∃ aad b, record.aad = some aad ∧
      cipher.decrypt nonce ciphertext aad = some b ∧ decodeStrict b = some text := by
  have hopens : record.decrypt cipher = .ok text ↔
      (record.aad.bind (cipher.decrypt nonce ciphertext)).bind decodeStrict = some text := by
    simp only [RequestRecord.decrypt, hnonce, hciphertext]
    cases (record.aad.bind (cipher.decrypt nonce ciphertext)).bind decodeStrict <;> simp
  rw [hopens]
  simp only [Option.bind_eq_some_iff]
  constructor
  · rintro ⟨b, ⟨aad, haad, hb⟩, htext⟩
    exact ⟨aad, b, haad, hb, htext⟩
  · rintro ⟨aad, b, haad, hb, htext⟩
    exact ⟨b, ⟨aad, haad, hb⟩, htext⟩

theorem decrypt_own (hinverts : cipher.Inverts) (h : HoldsText cipher row text) :
    row.record.decrypt cipher = .ok text := by
  obtain ⟨nonce, ciphertext, hnonce, hciphertext, hseal⟩ := h
  obtain ⟨aad, hrow, hscalars, he⟩ := encrypt_eq_ok hseal
  obtain ⟨-, rfl⟩ := Prod.mk.inj he
  exact (decrypt_eq_ok hnonce hciphertext).mpr
    ⟨aad, utf8 text, hrow, hinverts nonce (utf8 text) aad, decodeStrict_utf8 hscalars⟩

section Traces

variable {asked : Event}

theorem asks_act {c : ℕ} {action : Action} (h : s.asks host e = some (.act c action)) :
    e = .act c action := by
  cases e with
  | inference c' web =>
    obtain ⟨_, _, _, _, -, -, -, he⟩ := asks_inference h
    cases he
  | acknowledge pathRequestId web now =>
    obtain ⟨_, _, _, _, -, -, -, -, he⟩ := asks_acknowledge h
    cases he
  | act c' action' =>
    obtain ⟨rfl, rfl⟩ := Event.act.inj (Option.some.inj h)
    rfl
  | _ => cases h

theorem sealed_settling (hasks : s.asks host e = some asked)
    (hnext : ServiceStep host.cipher host.sha256 s.service asked t.service)
    (hs : Sealed host whose history s) {c : ℕ} {call : InferCall} {attemptId : Str}
    {result : WorkerResult} (hget : t.service.calls c = some call)
    (hpc : call.pc = .settling attemptId (.ok result)) :
    WorkerAnswered (history ++ [(s, e)]) call.dispatched result := by
  rcases hnext.calls hget with hsame | harrived | ⟨call₀, action, hsteps⟩
  · exact (hs.settling c call attemptId result hsame hpc).later
  · rw [harrived] at hpc
    cases hpc
  · have hstep := hsteps.step
    rw [hpc] at hstep
    obtain ⟨-, rfl⟩ := hstep.settling
    obtain ⟨attemptId', hdispatched⟩ := hstep.outcome_dispatched
    obtain rfl := asks_act (hsteps.event ▸ hasks)
    exact ⟨s, c, call₀, attemptId', List.mem_append_right _ (List.mem_singleton.mpr rfl),
      hsteps.before, hdispatched, by
        rw [InferCall.dispatched, InferCall.dispatched, hsteps.request, hsteps.identity]⟩

theorem sealed_rows (hwhose : Settles whose s.service)
    (hnext : ServiceStep host.cipher host.sha256 s.service asked t.service)
    (hs : Sealed host whose history s) (hrow : t.service.db.requests.select k = some row) :
    SealedOutput host.cipher (fun result => ∃ who, whose row.identity who ∧
      WorkerAnswered (history ++ [(s, e)]) ⟨k, who⟩ result) row := by
  have hkept : ∀ row, s.service.db.requests.select k = some row →
      SealedOutput host.cipher (fun result => ∃ who, whose row.identity who ∧
        WorkerAnswered (history ++ [(s, e)]) ⟨k, who⟩ result) row := fun row hrow => hs.later.rows k row hrow
  rcases hnext.keyMove k with ⟨-, hsame⟩ | ⟨settings, storeCall, hcall, hkey⟩
  · exact hkept row (hsame ▸ hrow)
  · generalize hbefore : s.service.db.requests.select k = before at hkey
    rw [hrow] at hkey
    cases hkey with
    | inserted _ _ _ _ => exact .inl ⟨rfl, rfl⟩
    | moved hmove =>
      rename_i row₀
      have hsealed := hkept row₀ hbefore
      rw [(rowMove_identity hmove).identity] at hsealed
      cases hcompletes : storeCall.completes with
      | false => exact sealedOutput_move hmove hcompletes hsealed
      | true =>
        obtain ⟨c, call, attemptId, result, now, nonce, -, hget, hpc, -, rfl⟩ :=
          storeCall_completes hcall hcompletes
        cases hmove with
        | same => exact hsealed
        | expire => exact .inl ⟨rfl, rfl⟩
        | complete hstate hattempt hseal =>
          obtain ⟨aad, -, -, rfl⟩ := encrypt_eq_ok hseal
          have hanswered := (hs.settling c call attemptId result hget hpc).later (s := s) (e := e)
          exact .inr ⟨result, ⟨call.identity, hwhose c call attemptId _ row₀ hget hpc hbefore hattempt,
            hanswered⟩, rfl, _, _, rfl, rfl, hseal⟩

theorem existingResponse_some {r : Response}
    (h : existingResponse cipher record = .ok (some r)) :
    r.requestId = record.requestId ∧ r.mediaType = record.outputMediaType ∧
      record.decrypt cipher = .ok r.content := by
  have hstate := completed_of_answer h
  have houtput : output cipher record = record.decrypt cipher := if_neg (not_not.mpr hstate)
  unfold existingResponse at h
  simp only [hstate, houtput] at h
  split at h
  · split at h
    · cases h
    · rename_i hdecrypt
      obtain rfl := Option.some.inj (Except.ok.inj h)
      exact ⟨rfl, rfl, hdecrypt⟩
  · cases h

/-- What a stored row answers is what was sealed in it. -/
theorem SealedOutput.provided {r : Response} (hinverts : cipher.Inverts)
    (hs : SealedOutput cipher (fun result => ∃ who, whose row.identity who ∧
      WorkerAnswered history ⟨k, who⟩ result) row) (hk : row.requestId = k)
    (h : existingResponse cipher row.record = .ok (some r)) :
    ∃ who, whose row.identity who ∧ Provided history ⟨k, who⟩ r := by
  obtain ⟨hid, hmedia, hdecrypt⟩ := existingResponse_some h
  rcases hs with ⟨hnonce, -⟩ | ⟨result, ⟨who, hwho, hanswered⟩, hm, hholds⟩
  · have hnone : row.record.outputNonce = none := hnonce
    simp [RequestRecord.decrypt, hnone] at hdecrypt
  · have hown := decrypt_own hinverts hholds
    exact ⟨who, hwho, hid.trans hk, result, hanswered, hmedia.trans hm,
      Except.ok.inj (hdecrypt.symm.trans hown)⟩

theorem sealed_step (hinverts : host.cipher.Inverts) (hwhose : Settles whose s.service)
    (h : Serves host s e t) (hs : Sealed host whose history s) :
    Sealed host whose (visits history s e t) t := by
  rcases h.cases.2 with ⟨-, hsame⟩ | ⟨asked, hasks, hnext⟩
  · have hlater : Sealed host whose (visits history s e t) s := hs.later
    refine ⟨fun c call attemptId result hget => ?_, fun k row hrow => ?_, fun c call r hget => ?_⟩
    · exact hlater.settling c call attemptId result (hsame ▸ hget)
    · exact hlater.rows k row (hsame ▸ hrow)
    · exact hlater.answers c call r (hsame ▸ hget)
  · have hstep := serviceStep_of_next hnext
    refine ⟨fun c call attemptId result hget hpc => sealed_settling hasks hstep hs hget hpc,
      fun k row hrow => sealed_rows hwhose hstep hs hrow, fun c call r hget hpc => ?_⟩
    rcases answers_event hstep hget hpc with ⟨call₀, hget₀, hrequest, hid, hpc₀⟩ |
      ⟨row, hrow, hid, hanswer⟩
    · rw [← hrequest, ← hid]
      exact hs.later.answers c call₀ r hget₀ hpc₀
    · rw [← hid]
      exact (sealed_rows hwhose hstep hs hrow).provided hinverts (KeyedTable.key_of_select hrow) hanswer

theorem sealed_started (h : Started s.service) : Sealed host whose [] s := by
  obtain ⟨-, hcalls, hrows⟩ := started_empty h
  exact ⟨fun c call _ _ hget => by simp [hcalls] at hget, fun k row hrow => by simp [hrows] at hrow,
    fun c call r hget => by simp [hcalls] at hget⟩

/-- An event that keeps the rows of live requests leaves the log of the worker in order. -/
theorem retains_dispatch (hsha : Function.Injective host.sha256) (hascii : ∀ b, Ascii (host.sha256 b))
    (h : Retains host s e t) (hknown : s.Known host.sha256)
    (hs : ∃ l, DispatchInvariant host.checkSchema host.sha256 s.service l) :
    ∃ l, DispatchInvariant host.checkSchema host.sha256 t.service l := by
  obtain ⟨l, hs⟩ := hs
  rcases h.serves.cases.2 with ⟨-, hsame⟩ | ⟨asked, hasks, hnext⟩
  · exact ⟨l, hsame ▸ hs⟩
  · exact ⟨_, dispatchInvariant_step hsha
      ⟨⟨hnext, asks_promised hascii hknown h.serves hasks⟩, h.retained⟩ hs⟩

/-- While rows of live requests are kept, a result is stored for the identity it was asked for. -/
theorem DispatchInvariant.settles {service : GatewayService} {l : List (Openings.Entry Dispatched Str)}
    {checkSchema : Json → Bool} {sha256 : Bytes → Str}
    (h : DispatchInvariant checkSchema sha256 service l) : Settles Eq service := by
  intro c call attemptId outcome row hget hpc hrow hattempt
  exact h.attempted c call attemptId row hget
    ⟨.inr (.inr ⟨outcome, hpc⟩), fun he => by cases hpc.symm.trans he⟩ hrow hattempt

theorem sealed_run (hinverts : host.cipher.Inverts) {s₀ : GatewayServer} {events : List WebEvent}
    (hstart : Launched host s₀)
    (hrun : Run (Recording (Serves host) visits) (s₀, []) events (s, history)) :
    Sealed host (fun _ _ => True) history s := by
  refine hrun.invariant (P := fun p : GatewayServer × List (GatewayServer × WebEvent) =>
    Sealed host (fun _ _ => True) p.2 p.1) ?_ (sealed_started (launched_started hstart).2)
  rintro ⟨s, history⟩ e ⟨t, history'⟩ ⟨hstep, hrecord⟩ hs
  obtain rfl : history' = visits history s e t := hrecord
  exact sealed_step hinverts (fun _ _ _ _ _ _ _ _ _ => trivial) hstep hs

theorem sealed_retaining (hinverts : host.cipher.Inverts) (hsha : Function.Injective host.sha256)
    (hascii : ∀ b, Ascii (host.sha256 b)) {s₀ : GatewayServer} {events : List WebEvent}
    (hstart : Launched host s₀)
    (hrun : Run (Recording (Retains host) visits) (s₀, []) events (s, history)) :
    Sealed host Eq history s := by
  obtain ⟨hknown, hstarted⟩ := launched_started hstart
  have hall : s.Known host.sha256 ∧
      (∃ l, DispatchInvariant host.checkSchema host.sha256 s.service l) ∧ Sealed host Eq history s := by
    refine hrun.invariant (P := fun p : GatewayServer × List (GatewayServer × WebEvent) =>
      p.1.Known host.sha256 ∧ (∃ l, DispatchInvariant host.checkSchema host.sha256 p.1.service l) ∧
        Sealed host Eq p.2 p.1) ?_
      ⟨hknown, ⟨[], dispatchInvariant_started hstarted⟩, sealed_started hstarted⟩
    rintro ⟨s, history⟩ e ⟨t, history'⟩ ⟨hstep, hrecord⟩ ⟨hknown, hdispatch, hs⟩
    obtain rfl : history' = visits history s e t := hrecord
    refine ⟨known_step hstep.serves hknown, retains_dispatch hsha hascii hstep hknown hdispatch, ?_⟩
    obtain ⟨l, hdispatch⟩ := hdispatch
    exact sealed_step hinverts hdispatch.settles hstep.serves hs
  exact hall.2.2

/-- What the history of a process and its file keep together. -/
structure Accounted (host : Host) (history : List (GatewayServer × WebEvent)) (s : GatewayServer) :
    Prop where
  known : s.Known host.sha256
  visited : ∀ p ∈ history, p.1.Known host.sha256
  traced : Traced host history s

theorem accounted_run {s₀ : GatewayServer} {events : List WebEvent} (hstart : Launched host s₀)
    (hrun : Run (Recording (Serves host) visits) (s₀, []) events (s, history)) :
    Accounted host history s := by
  refine hrun.invariant (P := fun p : GatewayServer × List (GatewayServer × WebEvent) =>
    Accounted host p.2 p.1) ?_ ?_
  · rintro ⟨s, history⟩ e ⟨t, history'⟩ ⟨hstep, hrecord⟩ hs
    obtain rfl : history' = visits history s e t := hrecord
    refine ⟨known_step hstep hs.known, fun p hp => ?_, traced_step hstep hs.traced⟩
    rcases List.mem_append.mp hp with hp | hp
    · exact hs.visited p hp
    · obtain rfl := List.mem_singleton.mp hp
      exact hs.known
  · obtain ⟨hknown, hstarted⟩ := launched_started hstart
    obtain ⟨-, hcalls, hrows⟩ := started_empty hstarted
    exact ⟨hknown, by simp, fun c call hget => by simp [hcalls] at hget,
      fun k row hrow => by simp [hrows] at hrow⟩

theorem accounted_reachable (h : Reachable (Launched host) (Serves host) s) :
    ∃ history, Accounted host history s := by
  obtain ⟨s₀, events, hstart, hrun⟩ := h
  obtain ⟨history, hrecorded⟩ := hrun.recorded visits []
  exact ⟨history, accounted_run hstart hrecorded⟩

/-- A row that has been asked for is bound to a uuid and a hash. -/
theorem Accounted.bindable (hhex : ∀ b, ∀ c ∈ host.sha256 b, isLowerHex c = true)
    (hs : Accounted host history s) (hrow : s.service.db.requests.select k = some row) :
    Bindable row := by
  obtain ⟨c, web, credential, fields, request, ⟨u, token, hmem, hpresents, body, -, hparse⟩, hvalid,
    howner, hid, -⟩ := (hs.traced.rows k row hrow).1
  obtain ⟨_, hdict, hload⟩ := parseJsonObject_dict hparse
  obtain rfl := Json.dict.inj hdict
  have haccepted := (InferenceRequest.modelValidate_accepted (Json.distinct_of_loads hload) hvalid).1
  obtain ⟨b, hb⟩ := hs.visited _ hmem credential hpresents.known
  refine ⟨hid ▸ oneLine_uuidV4 haccepted.requestId, ?_⟩
  rw [← howner, hb]
  exact oneLine_hex (hhex b)

end Traces

/-! Opening an output. -/

/-- Under one key, a text opens under no other associated data than it was sealed with. -/
def Cipher.Rejects (cipher : Cipher) : Prop :=
  ∀ nonce text aad aad', aad ≠ aad' →
    cipher.decrypt nonce (cipher.encrypt nonce text aad) aad' = none

/-- A record that has been given the output columns of a row. -/
def RequestRecord.withOutput (record : RequestRecord) (row : Row) : RequestRecord :=
  { record with outputNonce := row.outputNonce, outputCiphertext := row.outputCiphertext }

/-- What opens is what was sealed, under the associated data of the row that it is opened in. -/
theorem withOutput_decrypt {content : Str} (hinverts : cipher.Inverts) (hrejects : cipher.Rejects)
    (hholds : HoldsText cipher row content) :
    (row'.record.withOutput row).decrypt cipher = .ok text ↔
      text = content ∧ row.record.aad = row'.record.aad := by
  obtain ⟨nonce, ciphertext, hnonce, hciphertext, hseal⟩ := hholds
  obtain ⟨aad, hrow, hscalars, he⟩ := encrypt_eq_ok hseal
  obtain ⟨-, rfl⟩ := Prod.mk.inj he
  have hnonce' : (row'.record.withOutput row).outputNonce = some nonce := hnonce
  rw [decrypt_eq_ok hnonce' hciphertext, hrow]
  constructor
  · rintro ⟨aad', b, hrow', hb, htext⟩
    by_cases hne : aad = aad'
    · subst hne
      obtain rfl := Option.some.inj ((hinverts nonce (utf8 content) aad).symm.trans hb)
      exact ⟨Option.some.inj (htext.symm.trans (decodeStrict_utf8 hscalars)), hrow'.symm⟩
    · rw [hrejects nonce (utf8 content) aad aad' hne] at hb
      cases hb
  · rintro ⟨rfl, hrow'⟩
    exact ⟨aad, utf8 text, hrow'.symm, hinverts nonce (utf8 text) aad, decodeStrict_utf8 hscalars⟩

/-- A row that holds a text holds it as a result. -/
theorem SealedOutput.holds (hinverts : cipher.Inverts) (hs : SealedOutput cipher answered row)
    (h : HoldsText cipher row text) : ∃ result, answered result ∧ result.content = text := by
  rcases hs with ⟨hnone, -⟩ | ⟨result, hanswered, -, hcontent⟩
  · obtain ⟨nonce, ciphertext, hsome, -⟩ := h
    cases hnone.symm.trans hsome
  · exact ⟨result, hanswered,
      Except.ok.inj ((decrypt_own hinverts hcontent).symm.trans (decrypt_own hinverts h))⟩

/-- The output columns of a stored row open in a row, of this file or of any other that a run of the
server under this key has left, exactly when that row is of the same request, owner and digest. What
they open to is what a worker answered a call with this request's id with and, in a run that keeps the
rows of live requests, a call of this owner with this digest. -/
theorem output_sealed (hinverts : host.cipher.Inverts) (hrejects : host.cipher.Rejects)
    (hhex : ∀ b, ∀ c ∈ host.sha256 b, isLowerHex c = true) {s₀ : GatewayServer}
    {events : List WebEvent} (hstart : Launched host s₀)
    (hrun : Run (Recording (Serves host) visits) (s₀, []) events (s, history))
    (hreached : Reachable (Launched host) (Serves host) s')
    (hrow : s.service.db.requests.select k = some row)
    (hrow' : s'.service.db.requests.select k' = some row') :
    ((row'.record.withOutput row).decrypt host.cipher = .ok text ↔
      k = k' ∧ row.identity = row'.identity ∧ HoldsText host.cipher row text) ∧
    (HoldsText host.cipher row text →
      ∃ (who : Identity) (result : WorkerResult), WorkerAnswered history ⟨k, who⟩ result ∧
        result.content = text) ∧
    (Function.Injective host.sha256 →
      Run (Recording (Retains host) visits) (s₀, []) events (s, history) →
      HoldsText host.cipher row text →
      ∃ result, WorkerAnswered history ⟨k, row.identity⟩ result ∧ result.content = text) := by
  have hs := accounted_run hstart hrun
  obtain ⟨history', hs'⟩ := accounted_reachable hreached
  have hk : k = row.requestId := (KeyedTable.key_of_select hrow).symm
  have hk' : k' = row'.requestId := (KeyedTable.key_of_select hrow').symm
  have hsealed := (sealed_run hinverts hstart hrun).rows k row hrow
  refine ⟨?_, fun htext => ?_, fun hsha hretains htext => ?_⟩
  · constructor
    · intro hopens
      rcases hsealed with ⟨hnonce, -⟩ | ⟨result, -, -, hcontent⟩
      · simp [RequestRecord.decrypt, RequestRecord.withOutput, hnonce] at hopens
      · obtain ⟨rfl, haad⟩ := (withOutput_decrypt hinverts hrejects hcontent).mp hopens
        obtain ⟨nonce, ciphertext, -, -, hseal⟩ := id hcontent
        obtain ⟨aad, hrow_aad, -⟩ := encrypt_eq_ok hseal
        obtain ⟨hid, hidentity⟩ := aad_injective (hs.bindable hhex hrow) (hs'.bindable hhex hrow')
          hrow_aad (haad ▸ hrow_aad)
        exact ⟨hk.trans (hid.trans hk'.symm), hidentity, hcontent⟩
    · rintro ⟨hid, hidentity, htext⟩
      exact (withOutput_decrypt hinverts hrejects htext).mpr
        ⟨rfl, aad_congr (hk.symm.trans (hid.trans hk')) hidentity⟩
  · obtain ⟨result, ⟨who, -, hanswered⟩, hcontent⟩ := hsealed.holds hinverts htext
    exact ⟨who, result, hanswered, hcontent⟩
  · have hascii : ∀ b, Ascii (host.sha256 b) := fun b => ascii_hex (hhex b)
    have hown := (sealed_retaining hinverts hsha hascii hstart hretains).rows k row hrow
    obtain ⟨result, ⟨who, rfl, hanswered⟩, hcontent⟩ := hown.holds hinverts htext
    exact ⟨result, hanswered, hcontent⟩

/-! What callers are answered. -/

/-- Over any run of the server, every result that a call ends with has the id of the request that was
asked for, and is what a worker answered a call with this id with; in a run that keeps the rows of live
requests, a call of this owner with this digest. -/
theorem result_provided (hinverts : host.cipher.Inverts) {s₀ : GatewayServer} {events : List WebEvent}
    (hstart : Launched host s₀)
    (hrun : Run (Recording (Serves host) visits) (s₀, []) events (s, history)) :
    ∀ c call r, s.service.calls c = some call → call.result? = some (.ok r) →
      (∃ who : Identity, Provided history ⟨call.request.requestId, who⟩ r) ∧
      (Function.Injective host.sha256 → (∀ b, Ascii (host.sha256 b)) →
        Run (Recording (Retains host) visits) (s₀, []) events (s, history) →
        Provided history ⟨call.request.requestId, call.identity⟩ r) := by
  intro c call r hget hresult
  have hpc : call.pc.response? = some r := by
    rw [InferCall.result?_eq_some.mp hresult]
    rfl
  refine ⟨?_, fun hsha hascii hretains => ?_⟩
  · obtain ⟨who, -, hprovided⟩ := (sealed_run hinverts hstart hrun).answers c call r hget hpc
    exact ⟨who, hprovided⟩
  · obtain ⟨who, rfl, hprovided⟩ :=
      (sealed_retaining hinverts hsha hascii hstart hretains).answers c call r hget hpc
    exact hprovided

/-! The caller's request before its acknowledgement. -/

theorem boundCipher_inverts : boundCipher.Inverts := by
  intro nonce text aad
  simp [boundCipher]

theorem boundCipher_rejects : boundCipher.Rejects := by
  intro nonce text aad aad' hne
  simp only [boundCipher, List.take_succ_cons, List.cons.injEq]
  refine if_neg fun ⟨hlength, htake⟩ => hne ?_
  rw [← hlength, List.take_left] at htake
  exact htake

theorem sampleHash_hex (b : Bytes) : ∀ c ∈ sampleHash b, isLowerHex c = true := by
  unfold sampleHash
  split_ifs
  · decide
  · decide
  · decide
  · intro c hc
    rcases List.mem_cons.mp hc with rfl | hc
    · decide
    · rcases mem_unaryText hc with rfl | rfl <;> decide

theorem sampleHash_injective : Function.Injective sampleHash := by
  have hhead : ∀ b, (sampleHash b).head? = if b = sampleToken then some 56
      else if b = str "email-watcher" then some 101
      else if b = emailCanonical then some 48 else some 102 := by
    intro b
    unfold sampleHash
    split_ifs <;> rfl
  intro b c he
  have hheads := congrArg List.head? he
  rw [hhead, hhead] at hheads
  unfold sampleHash at he
  split_ifs at hheads he with h₁ h₂ h₃ h₄ h₅ h₆ <;> simp_all
  exact unaryText_injective he

theorem webServer_returned : (webServer 11).bind (fun s =>
    (s.service.db.requests.select sampleRequestId).bind (fun row =>
      (s.service.calls 0).bind (fun call => call.result?.map (fun result =>
        (row.record.decrypt boundCipher, result.toOption.map Response.content))))) =
    some (.ok (str "\x7b\x7d"), some (str "\x7b\x7d")) := by
  decide +kernel

theorem returned_run : ∃ (s s₀ : GatewayServer) (history : List (GatewayServer × WebEvent)) (row : Row)
    (call : InferCall) (r : Response), Launched sampleHost s₀ ∧
      Run (Recording (Retains sampleHost) visits) (s₀, []) (webEvents.take 11) (s, history) ∧
      s.service.db.requests.select sampleRequestId = some row ∧
      row.record.decrypt boundCipher = .ok (str "\x7b\x7d") ∧
      s.service.calls 0 = some call ∧ call.result? = some (.ok r) := by
  obtain ⟨s, hserver, hrest⟩ := Option.bind_eq_some_iff.mp webServer_returned
  obtain ⟨row, hrow, hrest⟩ := Option.bind_eq_some_iff.mp hrest
  obtain ⟨call, hget, hrest⟩ := Option.bind_eq_some_iff.mp hrest
  obtain ⟨result, hresult, he⟩ := Option.map_eq_some_iff.mp hrest
  obtain ⟨hopens, hcontent⟩ := Prod.mk.inj he
  obtain ⟨s₀, hstart, hrun⟩ := webServer_run hserver
  obtain ⟨history, hrecorded⟩ := hrun.recorded visits []
  cases result with
  | error e => cases hcontent
  | ok r => exact ⟨s, s₀, history, row, call, r, hstart, hrecorded, hrow, hopens, hget, hresult⟩

/-- What the worker has answered opens in the row of the request, of its own owner and digest. -/
theorem output_sealed_completed : ∃ (s : GatewayServer) (history : List (GatewayServer × WebEvent))
    (row : Row), s.service.db.requests.select sampleRequestId = some row ∧
      HoldsText boundCipher row (str "\x7b\x7d") ∧ ∃ result : WorkerResult,
        WorkerAnswered history ⟨sampleRequestId, row.identity⟩ result ∧
          result.content = str "\x7b\x7d" := by
  obtain ⟨s, s₀, history, row, -, -, hstart, hretains, hrow, hopens, -⟩ := returned_run
  have hrun : Run (Recording (Serves sampleHost) visits) (s₀, []) (webEvents.take 11) (s, history) :=
    hretains.mono fun _ _ _ h => ⟨h.1.serves, h.2⟩
  have hreached : Reachable (Launched sampleHost) (Serves sampleHost) s :=
    ⟨s₀, _, hstart, hrun.forget⟩
  have hsealed := @output_sealed sampleHost s s sampleRequestId sampleRequestId (str "\x7b\x7d")
    history row row boundCipher_inverts boundCipher_rejects sampleHash_hex s₀ _ hstart hrun
    hreached hrow hrow
  have hholds := (hsealed.1.mp hopens).2.2
  exact ⟨s, history, row, hrow, hholds, hsealed.2.2 sampleHash_injective hretains hholds⟩

/-- And it is the result of the caller's call. -/
theorem result_provided_returned : ∃ (s : GatewayServer)
    (history : List (GatewayServer × WebEvent)) (call : InferCall) (r : Response),
    s.service.calls 0 = some call ∧ call.result? = some (.ok r) ∧
      Provided history ⟨call.request.requestId, call.identity⟩ r := by
  obtain ⟨s, s₀, history, -, call, r, hstart, hretains, -, -, hget, hresult⟩ := returned_run
  have hprovided := @result_provided sampleHost s history boundCipher_inverts s₀ _ hstart
    (hretains.mono fun _ _ _ h => ⟨h.1.serves, h.2⟩) 0 call r hget hresult
  exact ⟨s, history, call, r, hget, hresult,
    hprovided.2 sampleHash_injective sampleHash_ascii hretains⟩

end Gateway
