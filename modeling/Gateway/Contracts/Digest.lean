import Gateway.Contracts.Request
import Gateway.Contracts.OrderFree
import Gateway.Contracts.Documents

/-! The digest of a request is the identity of what it asks for. -/
namespace Gateway

open Json (get keys Parsed Same Alike number?)

variable {checkSchema : Json → Bool} {request request' : InferenceRequest}

theorem ofInt_magnitude_le {n : ℤ} (h : n.natAbs < 2 ^ 64) :
    (Decimal.ofInt n).magnitude ≤ acceptBound := by
  have hn : (n.natAbs : ℚ) < 2 ^ 64 := by exact_mod_cast h
  have he : (2 : ℚ) ^ 64 ≤ maxFiniteBinary64.magnitude := by
    calc (2 : ℚ) ^ 64 ≤ 17976931348623157 * (10 : ℚ) ^ (4 : ℤ) := by norm_num
      _ ≤ 17976931348623157 * (10 : ℚ) ^ (292 : ℤ) := by gcongr <;> norm_num
      _ = maxFiniteBinary64.magnitude := by simp [Decimal.magnitude, maxFiniteBinary64]
  have hpos : (0 : ℚ) ≤ (10 : ℚ) ^ maxFiniteFull.exponent / 2 := by positivity
  have hm : (Decimal.ofInt n).magnitude = n.natAbs := by simp [Decimal.magnitude, Decimal.ofInt]
  rw [hm, acceptBound]
  linarith

theorem parsed_int {n : ℤ} (h : n.natAbs < 2 ^ 64) : Parsed (.int n) := ofInt_magnitude_le h

theorem magnitude_le_one {d : Decimal} (h0 : 0 ≤ d.toRat) (h1 : d.toRat ≤ 1) :
    d.magnitude ≤ acceptBound := by
  have hb : (1 : ℚ) ≤ acceptBound := by
    have h := ofInt_magnitude_le (n := 1) (by norm_num)
    simpa [Decimal.magnitude, Decimal.ofInt] using h
  unfold Decimal.toRat at h0 h1
  have := d.magnitude_nonneg
  split_ifs at h0 h1 <;> linarith

theorem scalars_of_range {s : Str} (h : ∀ c ∈ s, c < 128) : Scalars s := by
  intro c hc
  have := h c hc
  exact ⟨by omega, fun hs => by have := hs.1; omega⟩

theorem roles_of_shape {roles : List Str} {fs : List (Str × Json)}
    (h : validateGenerationShape checkSchema roles fs = .ok ()) :
    roles = [str "system", str "user"] := by
  unfold validateGenerationShape at h
  obtain ⟨u, hu, -⟩ := bind_eq_ok.mp h
  simpa using require_ok.mp hu

theorem matchesAll_forall {ps : List (ℕ → Bool)} {s : Str} {P : ℕ → Prop}
    (hp : ∀ p ∈ ps, ∀ c, p c = true → P c) (h : matchesAll ps s = true) : ∀ c ∈ s, P c := by
  induction ps generalizing s with
  | nil => cases s <;> simp_all [matchesAll]
  | cons p ps ih =>
    cases s with
    | nil => simp
    | cons c s =>
      obtain ⟨hc, hs⟩ := Bool.and_eq_true_iff.mp h
      intro d hd
      rcases List.mem_cons.mp hd with rfl | hd
      · exact hp p (by simp) d hc
      · exact ih (fun p hp' => hp p (List.mem_cons_of_mem _ hp')) hs d hd

theorem matchesAll_range {ps : List (ℕ → Bool)} {s : Str} (hp : ∀ p ∈ ps, ∀ c, p c = true → c < 128)
    (h : matchesAll ps s = true) : ∀ c ∈ s, c < 128 :=
  matchesAll_forall hp h

theorem uuidV4_ascii {s : Str} (h : uuidV4 s = true) : ∀ c ∈ s, c < 128 := by
  refine matchesAll_range (fun p hp c hc => ?_) h
  have hhex : ∀ {c : ℕ}, isLowerHex c = true → c < 128 := by
    intro c hc
    simp only [isLowerHex, JsonText.isDigit, Bool.or_eq_true, Bool.and_eq_true,
      decide_eq_true_eq] at hc
    omega
  simp only [List.append_assoc, List.mem_append, List.mem_replicate, List.mem_singleton] at hp
  rcases hp with ⟨-, rfl⟩ | rfl | ⟨-, rfl⟩ | rfl | rfl | ⟨-, rfl⟩ | rfl | rfl | ⟨-, rfl⟩ | rfl |
    ⟨-, rfl⟩ <;> first | exact hhex hc | (simp at hc; omega)

theorem taskIdPattern_ascii {s : Str} (h : taskIdPattern s = true) : ∀ c ∈ s, c < 128 := by
  cases s with
  | nil => simp
  | cons c s =>
    simp only [taskIdPattern, JsonText.isDigit, Bool.and_eq_true, List.all_eq_true, Bool.or_eq_true,
      decide_eq_true_eq] at h
    intro d hd
    rcases List.mem_cons.mp hd with rfl | hd
    · omega
    · have := h.2 d hd
      omega

theorem expiry_scalars (e : Expiry) : Scalars e.text := by
  intro c hc
  rcases Template.fullmatch_mem (Datetime.strptime_eq_some e.parses).1 hc with ⟨d, hd⟩ | hlit
  · exact decimalDigit?_scalar hd
  · have := Datetime.format_ascii _ hlit c rfl
    exact scalars_of_range (s := [c]) (by simpa using this) c (by simp)

/-- A dict is a value of the protocol when its names and each of its values are. -/
theorem parsed_dict {fs : List (Str × Json)} (names : List Str) (hk : keys fs = names)
    (hn : names.Nodup ∧ ∀ n ∈ names, Scalars n) (hv : ∀ f ∈ fs, Parsed f.2) : Parsed (.dict fs) := by
  subst hk
  exact ⟨hn.1, Json.parsedFields_iff.mpr fun f hf => ⟨hn.2 _ (List.mem_map_of_mem hf), hv f hf⟩⟩

theorem GenerationMessage.modelDump_parsed {m : GenerationMessage} (hrole : Scalars m.role)
    (hcontent : Scalars m.content) : Parsed m.modelDump :=
  parsed_dict [str "role", str "content"] rfl (by decide) (by simp [Parsed, hrole, hcontent])

theorem Generation.modelDump_parsed {g : Generation}
    (hm : ∀ m ∈ g.messages, Scalars m.role ∧ Scalars m.content)
    (ht : g.temperature.Constructible ∧ g.temperature.magnitude ≤ acceptBound)
    (hseed : ∀ n ∈ g.seed, n.natAbs < 2 ^ 64) (hs : Parsed (.dict g.responseSchema)) :
    Parsed g.modelDump := by
  have hmessages : Parsed (.list (g.messages.map GenerationMessage.modelDump)) := by
    refine Json.parsedItems_iff.mpr fun v hv => ?_
    obtain ⟨m, hmem, rfl⟩ := List.mem_map.mp hv
    exact GenerationMessage.modelDump_parsed (hm m hmem).1 (hm m hmem).2
  have htemperature : Parsed (.decimal g.temperature) := ht
  unfold Generation.modelDump
  cases h : g.seed with
  | none =>
    exact parsed_dict [str "messages", str "temperature", str "response_schema"] rfl (by decide)
      (by simp [hmessages, htemperature, hs])
  | some n =>
    exact parsed_dict [str "messages", str "temperature", str "seed", str "response_schema"] rfl
      (by decide) (by simp [hmessages, htemperature, hs, parsed_int (hseed n h)])

/-- The dump of an accepted request is a value of the request protocol. -/
theorem InferenceRequest.modelDump_parsed (h : request.Accepted checkSchema) :
    Parsed request.modelDump := by
  have hgeneration : Parsed request.generation.modelDump := by
    refine Generation.modelDump_parsed (fun m hm => ⟨?_, (h.contents m hm).2.2⟩)
      ⟨h.temperature.2.2, magnitude_le_one h.temperature.1 h.temperature.2.1⟩ (fun n hn => ?_) h.schema
    · have hrole := List.mem_map_of_mem (f := GenerationMessage.role) hm
      rw [roles_of_shape h.shape] at hrole
      rcases List.mem_cons.mp hrole with hr | hr
      · rw [hr]
        decide
      · rw [List.mem_singleton.mp hr]
        decide
    · have := h.seed n hn
      omega
  have htask : Parsed (.dict [(str "id", .string request.task.id),
      (str "version", .int request.task.version)]) := by
    have := h.taskVersion
    have hid : Parsed (.string request.task.id) :=
      scalars_of_range (taskIdPattern_ascii h.taskId.2.2)
    exact parsed_dict [str "id", str "version"] rfl (by decide)
      (by simp [hid, parsed_int (show request.task.version.natAbs < 2 ^ 64 by omega)])
  have hmodalities : Parsed (.list (request.requirements.inputModalities.map Json.string)) := by
    rw [h.modalities]
    exact ⟨by unfold Parsed; decide, trivial⟩
  have hmedia : Parsed (.string request.requirements.outputMediaType) := by
    rw [h.mediaType]
    unfold Parsed
    decide
  have htokens : Parsed (.int request.requirements.maxOutputTokens) := by
    have := h.outputTokens
    unfold Gateway.maxOutputTokens at this
    exact parsed_int (by omega)
  have hprotocol : Parsed (.int request.protocolVersion) := by
    rw [h.protocol]
    exact parsed_int (by decide)
  have hrequirements : Parsed (.dict [
      (str "input_modalities", .list (request.requirements.inputModalities.map Json.string)),
      (str "output_media_type", .string request.requirements.outputMediaType),
      (str "structured_output", .bool request.requirements.structuredOutput),
      (str "max_output_tokens", .int request.requirements.maxOutputTokens)]) :=
    parsed_dict [str "input_modalities", str "output_media_type", str "structured_output",
      str "max_output_tokens"] rfl (by decide)
      (by simp [hmodalities, hmedia, htokens, show ∀ b, Parsed (.bool b) from fun _ => trivial])
  have hid : Parsed (.string request.requestId) := scalars_of_range (uuidV4_ascii h.requestId)
  have hexpires : Parsed (.string request.requestExpiresAt.text) := expiry_scalars _
  exact parsed_dict [str "protocol_version", str "request_id", str "request_expires_at", str "task",
    str "requirements", str "generation"] rfl (by decide)
    (by simp [hprotocol, hid, hexpires, htask, hrequirements, hgeneration])

/-! Requests with one dump. -/

/-- A number is the same as numbers of its value only. -/
theorem same_number {v w : Json} {q : ℚ} (h : Same v w) (hv : v.number? = some q) :
    w.number? = some q := by
  cases h with
  | leaf h => cases h with
    | number hv' hw => rw [← hv, hv', hw]
    | _ => simp [number?] at hv
  | _ => simp [number?] at hv

theorem same_int {n : ℤ} {m : ℤ} (h : Same (.int n) (.int m)) : m = n := by
  have := same_number h rfl
  simpa [number?] using this

/-- What two requests share when their worker sees no difference: all but the identity, with the
schema compared as a JSON value. -/
structure InferenceRequest.Agree (request request' : InferenceRequest) : Prop where
  task : request.task = request'.task
  requirements : request.requirements = request'.requirements
  messages : request.generation.messages = request'.generation.messages
  temperature : request.generation.temperature.toRat = request'.generation.temperature.toRat
  seed : request.generation.seed = request'.generation.seed
  schema : Same (.dict request.generation.responseSchema) (.dict request'.generation.responseSchema)

/-- What a key holds in one dict is the same as what it holds in the other. -/
theorem Matching.at {R : Json → Json → Prop} {fs gs : List (Str × Json)} (h : Matching R fs gs)
    (k : Str) {v w : Json} (hv : get fs k = some v) (hw : get gs k = some w) : R v w := by
  obtain ⟨w', hw', hvw⟩ := h.some_left hv
  exact Option.some.inj (hw'.symm.trans hw) ▸ hvw

theorem Matching.string {fs gs : List (Str × Json)} (h : Matching Same fs gs) (k : Str) {s t : Str}
    (hs : get fs k = some (.string s)) (ht : get gs k = some (.string t)) : s = t :=
  (Json.string.inj (same_string (h.at k hs ht))).symm

theorem Matching.int {fs gs : List (Str × Json)} (h : Matching Same fs gs) (k : Str) {n m : ℤ}
    (hn : get fs k = some (.int n)) (hm : get gs k = some (.int m)) : n = m :=
  (same_int (h.at k hn hm)).symm

/-- Lists of dumps are the same only when they dump the same things. -/
theorem list_of_same {α : Type*} {dump : α → Json} {xs ys : List α}
    (hinj : ∀ x y, Parsed (dump y) → Same (dump x) (dump y) → x = y)
    (h : Same (.list (xs.map dump)) (.list (ys.map dump))) (hp : Parsed (.list (ys.map dump))) :
    xs = ys := by
  have hall : List.Forall₂ (fun x y => Same (dump x) (dump y)) xs ys := by
    cases h with
    | leaf h => cases h with
      | number hv _ => simp [number?] at hv
    | list h => simpa [List.forall₂_map_left_iff, List.forall₂_map_right_iff] using h
  clear h
  induction hall with
  | nil => rfl
  | @cons x y xs ys hxy _ ih =>
    rw [hinj x y hp.1 hxy, ih hp.2]

theorem message_of_same {m m' : GenerationMessage} (hp : Parsed m'.modelDump)
    (h : Same m.modelDump m'.modelDump) : m = m' := by
  have hm := same_matching h hp
  obtain ⟨role, content⟩ := m
  obtain ⟨role', content'⟩ := m'
  congr 1
  · exact hm.string (str "role") rfl rfl
  · exact hm.string (str "content") rfl rfl

/-- Dumps differ in an absent seed: `exclude_none` leaves no field for it. -/
theorem seed_of_same {g g' : Generation} {fs gs : List (Str × Json)} (hm : Matching Same fs gs)
    (hf : get fs (str "seed") = g.seed.map Json.int)
    (hg : get gs (str "seed") = g'.seed.map Json.int) : g.seed = g'.seed := by
  cases hs : g.seed with
  | none =>
    rw [hs] at hf
    have := (hm.none_iff _).mp hf
    rw [hg] at this
    exact (Option.map_eq_none_iff.mp this).symm
  | some n =>
    rw [hs] at hf
    obtain ⟨w, hw, hvw⟩ := hm.some_left hf
    rw [hg] at hw
    obtain ⟨n', hn', rfl⟩ := Option.map_eq_some_iff.mp hw
    rw [hn', same_int hvw]

theorem Generation.get_modelDump {g : Generation} {fs : List (Str × Json)}
    (h : g.modelDump = .dict fs) :
    get fs (str "messages") = some (.list (g.messages.map GenerationMessage.modelDump)) ∧
      get fs (str "temperature") = some (.decimal g.temperature) ∧
      get fs (str "seed") = g.seed.map Json.int ∧
      get fs (str "response_schema") = some (.dict g.responseSchema) := by
  obtain ⟨messages, temperature, seed, schema⟩ := g
  obtain rfl := Json.dict.inj h
  cases seed <;> exact ⟨rfl, rfl, rfl, rfl⟩

theorem generation_of_same {g g' : Generation} (hp : Parsed g'.modelDump)
    (h : Same g.modelDump g'.modelDump) :
    g.messages = g'.messages ∧ g.temperature.toRat = g'.temperature.toRat ∧ g.seed = g'.seed ∧
      Same (.dict g.responseSchema) (.dict g'.responseSchema) := by
  have hm := same_matching h hp
  obtain ⟨hmsg, htemp, hseed, hschema⟩ := Generation.get_modelDump (g := g) rfl
  obtain ⟨hmsg', htemp', hseed', hschema'⟩ := Generation.get_modelDump (g := g') rfl
  refine ⟨?_, ?_, seed_of_same hm hseed hseed', hm.at _ hschema hschema'⟩
  · exact list_of_same (fun _ _ => message_of_same) (hm.at _ hmsg hmsg')
      (Json.parsed_field hp (mem_of_get hmsg'))
  · have := same_number (hm.at _ htemp htemp') rfl
    simpa [number?, eq_comm] using this

/-- The same dump means the same identity fields and agreement on all that is generated. -/
theorem InferenceRequest.same_modelDump (h' : request'.Accepted checkSchema)
    (h : Same request.modelDump request'.modelDump) :
    request.requestId = request'.requestId ∧
      request.requestExpiresAt.text = request'.requestExpiresAt.text ∧ request.Agree request' := by
  have hp := InferenceRequest.modelDump_parsed h'
  have hm := same_matching h hp
  have hfield : ∀ k v, get _ k = some v → Parsed v := fun _ _ hv =>
    Json.parsed_field hp (mem_of_get hv)
  have htask := same_matching (hm.at (str "task") rfl rfl) (hfield (str "task") _ rfl)
  have hreq := same_matching (hm.at (str "requirements") rfl rfl) (hfield (str "requirements") _ rfl)
  obtain ⟨hmsg, htemp, hseed, hschema⟩ := generation_of_same (hfield (str "generation") _ rfl)
    (hm.at (str "generation") rfl rfl)
  have hmodalities : request.requirements.inputModalities = request'.requirements.inputModalities :=
    list_of_same (fun x y _ hxy => (Json.string.inj (same_string hxy)).symm)
      (hreq.at (str "input_modalities") rfl rfl)
      (Json.parsed_field (hfield (str "requirements") _ rfl)
        (@mem_of_get _ (str "input_modalities") _ rfl))
  refine ⟨hm.string (str "request_id") rfl rfl, hm.string (str "request_expires_at") rfl rfl,
    ?_, ?_, hmsg, htemp, hseed, hschema⟩
  · have hid := htask.string (str "id") rfl rfl
    have hversion := htask.int (str "version") rfl rfl
    cases hr : request.task
    cases hr' : request'.task
    simp_all
  · have hmedia := hreq.string (str "output_media_type") rfl rfl
    have hstructured := same_bool (hreq.at (str "structured_output") rfl rfl)
    have htokens := hreq.int (str "max_output_tokens") rfl rfl
    cases hr : request.requirements
    cases hr' : request'.requirements
    simp_all

/-- Under a hash without collisions, one digest means one dump. -/
theorem InferenceRequest.canonicalDigest_eq_iff {sha256 : Bytes → Str}
    (hs : Function.Injective sha256) (h : request.Accepted checkSchema)
    (h' : request'.Accepted checkSchema) :
    request.canonicalDigest sha256 = request'.canonicalDigest sha256 ↔
      Same request.modelDump request'.modelDump := by
  have hp := InferenceRequest.modelDump_parsed h
  have hp' := InferenceRequest.modelDump_parsed h'
  rw [← Json.encodeJsonBytes_eq_iff hp hp']
  simp only [canonicalDigest, Json.encodeJsonBytes_eq hp, Json.encodeJsonBytes_eq hp', bind,
    Except.bind, pure, Except.pure, Except.ok.injEq, hs.eq_iff]

/-- Encoding is the identity of parsed values, survives a round trip, and is what gets hashed. -/
theorem encodeJsonBytes_identity (recursionLimit : ℕ) (hr : maxJsonDepth ≤ recursionLimit) :
    (∀ raw doc v, parseJsonObject recursionLimit raw = .ok doc → doc.ScalarTexts →
      Json.Inside v doc → Parsed v) ∧
    (∀ v w, Parsed v → Parsed w → ∃ b c, encodeJsonBytes v true = .ok b ∧
      encodeJsonBytes w true = .ok c ∧ (b = c ↔ Same v w)) ∧
    (∀ fs, Parsed (.dict fs) → Json.nodes (.dict fs) ≤ maxJsonNodes →
      Json.height (.dict fs) ≤ maxJsonDepth → ∃ b v', encodeJsonBytes (.dict fs) true = .ok b ∧
        parseJsonObject recursionLimit b = .ok v' ∧ Same (.dict fs) v' ∧
        encodeJsonBytes v' true = .ok b) ∧
    (∀ (sha256 : Bytes → Str) (request : InferenceRequest), request.canonicalDigest sha256 =
      (encodeJsonBytes request.modelDump true).map sha256) := by
  refine ⟨fun raw doc v hdoc hs hin => ?_, fun v w hv hw => ?_, fun fs hv hn hh => ?_, fun _ r => ?_⟩
  · exact hin.parsed (Json.parsed_of_parseJsonObject hdoc hs).1
  · have hiff := Json.encodeJsonBytes_eq_iff hv hw
    rw [Json.encodeJsonBytes_eq hv, Json.encodeJsonBytes_eq hw, Except.ok.injEq] at hiff
    exact ⟨_, _, Json.encodeJsonBytes_eq hv, Json.encodeJsonBytes_eq hw, hiff⟩
  · obtain ⟨v', hparse, hsame, hp⟩ := Json.parseJsonObject_encode hv hn hh hr
    have hbytes := (Json.encodeJsonBytes_eq_iff hv hp).mpr hsame
    rw [Json.encodeJsonBytes_eq hv] at hbytes
    exact ⟨_, v', Json.encodeJsonBytes_eq hv, hparse, hsame, hbytes.symm⟩
  · unfold InferenceRequest.canonicalDigest
    cases encodeJsonBytes r.modelDump true <;> rfl

/-- Two orders of one document, each at its bytes. -/
theorem encodeJsonBytes_identity_order :
    ∃ b c, encodeJsonBytes (.dict [(str "b", .int 1), (str "a", .bool true)]) true = .ok b ∧
      encodeJsonBytes (.dict [(str "a", .bool true), (str "b", .decimal ⟨false, 10, -1⟩)]) true =
        .ok c ∧
      (b = c ↔ Same (.dict [(str "b", .int 1), (str "a", .bool true)])
        (.dict [(str "a", .bool true), (str "b", .decimal ⟨false, 10, -1⟩)])) := by
  have hint : Parsed (.int 1) := parsed_int (by decide)
  have hbool : Parsed (.bool true) := trivial
  have hdecimal : Parsed (.decimal ⟨false, 10, -1⟩) := by
    have hone : (⟨false, 10, -1⟩ : Decimal).toRat = 1 := by
      norm_num [Decimal.toRat, Decimal.magnitude]
    exact ⟨by decide, magnitude_le_one (hone.ge.trans' zero_le_one) hone.le⟩
  exact (encodeJsonBytes_identity 1000 (by decide)).2.1 _ _
    (parsed_dict [str "b", str "a"] rfl (by decide) (by simp [hint, hbool]))
    (parsed_dict [str "a", str "b"] rfl (by decide) (by simp [hdecimal, hbool]))

/-! A request as a client sends it, under either order of its schema's keys. -/

/-- A moment of the samples' day. -/
def sampleMoment (hour minute second microsecond : ℕ) : Datetime :=
  (Datetime.mk? 2026 9 10 hour minute second microsecond).getD
    ⟨2026, 9, 10, 0, 0, 0, 0, by decide, by decide, by decide, by decide⟩

def sampleExpiry : Expiry where
  text := str "2026-09-10T18:05:00Z"
  time := sampleMoment 18 5 0 0
  parses := by rfl

def sampleSchema (reversed : Bool) : List (Str × Json) :=
  let fields := [(str "type", Json.string (str "object")), (str "title", Json.string (str "Summary"))]
  if reversed then fields.reverse else fields

def sampleRequest (reversed : Bool) : InferenceRequest where
  protocolVersion := 1
  requestId := str "5f0c8f6e-1d2b-4c3a-9e7f-0a1b2c3d4e5f"
  requestExpiresAt := sampleExpiry
  task := ⟨str "document.summary.step", 1⟩
  requirements := ⟨[str "text"], str "application/json", true, 4096⟩
  generation := ⟨[⟨str "system", str "Summarize."⟩, ⟨str "user", str "Text."⟩], ⟨false, 0, 0⟩, some 7,
    sampleSchema reversed⟩

theorem sampleSchema_parsed (reversed : Bool) : Parsed (.dict (sampleSchema reversed)) := by
  have htext : ∀ s, Scalars s → Parsed (.string s) := fun _ h => h
  cases reversed
  · exact parsed_dict [str "type", str "title"] rfl (by decide)
      (by simp [sampleSchema, htext (str "object") (by decide), htext (str "Summary") (by decide)])
  · exact parsed_dict [str "title", str "type"] rfl (by decide)
      (by simp [sampleSchema, htext (str "object") (by decide), htext (str "Summary") (by decide)])

theorem sampleRequest_accepted (reversed : Bool) :
    (sampleRequest reversed).Accepted (fun _ => true) where
  protocol := rfl
  requestId := by rfl
  taskId := by cases reversed <;> decide
  taskVersion := by cases reversed <;> decide
  modalities := rfl
  mediaType := rfl
  structured := rfl
  outputTokens := by cases reversed <;> decide
  contents := by
    have hall : ∀ m ∈ (sampleRequest true).generation.messages, 1 ≤ m.content.length ∧
        m.content.length ≤ maxMessageChars ∧ Scalars m.content := by decide
    exact hall
  temperature := by
    have hzero : (⟨false, 0, 0⟩ : Decimal).toRat = 0 := by simp [Decimal.toRat, Decimal.magnitude]
    exact ⟨hzero.ge, hzero.trans_le zero_le_one, by cases reversed <;> decide⟩
  seed := by
    have hall : ∀ n ∈ (sampleRequest true).generation.seed, 0 ≤ n ∧ n ≤ 9223372036854775807 := by
      simp [sampleRequest]
    exact hall
  shape := by cases reversed <;> rfl
  schema := sampleSchema_parsed reversed

theorem sampleSchema_same : Same (.dict (sampleSchema false)) (.dict (sampleSchema true)) :=
  .of_fields (List.reverse_perm _).symm (List.forall₂_same.mpr fun f _ => ⟨rfl, same_refl f.2⟩)

end Gateway
