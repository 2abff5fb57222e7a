import Gateway.Contracts.Ingress

/-! A request over the wire: its own canonical form, parsed and read as a request again. -/
namespace Gateway

open Json (get keys Parsed Alike Same Rewritten Distinct)

variable {v w : Json} {fs gs : List (Str × Json)} {s : Str} {readers : FieldReaders}

/-! What can be encoded is a value of the protocol. -/

theorem encodeItems_ok {sortKeys : Bool} {vs : List Json} {parts : List Str}
    (h : encodeItems sortKeys vs = .ok parts) {v : Json} (hv : v ∈ vs) :
    ∃ t, encodeJson sortKeys v = .ok t ∧ t ∈ parts := by
  induction vs generalizing parts with
  | nil => cases hv
  | cons w vs ih =>
    rw [encodeItems] at h
    obtain ⟨part, hpart, h⟩ := bind_eq_ok.mp h
    obtain ⟨rest, hrest, h⟩ := bind_eq_ok.mp h
    obtain rfl := Except.ok.inj h
    rcases List.mem_cons.mp hv with rfl | hv
    · exact ⟨part, hpart, by simp⟩
    · obtain ⟨t, ht, hmem⟩ := ih hrest hv
      exact ⟨t, ht, List.mem_cons_of_mem _ hmem⟩

theorem encodeJsonNumber_ok {d : Decimal} (h : encodeJsonNumber d = .ok s) :
    d.Constructible ∧ d.magnitude ≤ acceptBound := by
  obtain ⟨e, he, -⟩ := bind_eq_ok.mp h
  exact (parseExactJsonDecimal_eq_ok.mp he).2

theorem parsed_of_encodeJson (hd : Distinct v) (h : encodeJson true v = .ok s) (hs : Scalars s) :
    Parsed v := by
  induction v using Json.induction generalizing s with
  | null => trivial
  | bool b => trivial
  | int n => exact (encodeJsonNumber_ok h).2
  | decimal d => exact encodeJsonNumber_ok h
  | string t =>
    obtain rfl := Except.ok.inj h
    exact scalars_quote hs
  | list vs ih =>
    rw [encodeJson] at h
    obtain ⟨parts, hparts, h⟩ := bind_eq_ok.mp h
    obtain rfl := Except.ok.inj h
    refine Json.parsedItems_iff.mpr fun u hu => ?_
    obtain ⟨t, ht, hmem⟩ := encodeItems_ok hparts hu
    refine ih u hu (hd.item hu) ht (fun c hc => hs c ?_)
    simp [mem_joinComma_of_mem hmem hc]
  | dict fs ih =>
    refine ⟨hd.keys, Json.parsedFields_iff.mpr fun f hf => ?_⟩
    obtain ⟨t, ht, hpart⟩ := encodeJson_field h hf
    have hpartScalars : ∀ c ∈ JsonText.quote f.1 ++ str ":" ++ t, IsScalar c :=
      fun c hc => hs c (hpart c hc)
    refine ⟨scalars_quote fun c hc => hpartScalars c (by simp [hc]), ?_⟩
    exact ih f hf (hd.field hf) ht (fun c hc => hpartScalars c (by simp [hc]))

theorem parsed_of_encode (hd : Distinct v) {b : Bytes} (h : encodeJsonBytes v true = .ok b) :
    Parsed v := by
  rw [encodeJsonBytes] at h
  obtain ⟨s, hs, h⟩ := bind_eq_ok.mp h
  unfold encodeUtf8 at h
  split_ifs at h with hscalar
  exact parsed_of_encodeJson hd hs hscalar

/-! What a document that is accepted has been checked for. -/

section Validated

variable {checkSchema : Json → Bool} {request : InferenceRequest}

theorem TaskReference.modelValidate_checked {t : TaskReference}
    (h : TaskReference.modelValidate readers v = some t) :
    (1 ≤ t.id.length ∧ t.id.length ≤ 128 ∧ taskIdPattern t.id) ∧
      1 ≤ t.version ∧ t.version ≤ 2147483647 := by
  simp only [modelValidate, bind, Option.bind_eq_some_iff, modelField_eq_some, pure,
    Option.some.injEq, Bool.and_eq_true, decide_eq_true_eq] at h
  obtain ⟨fields, -, id, ⟨-, ⟨hmin, hmax⟩, hpattern⟩, version, ⟨-, hversion⟩, rfl⟩ := h
  exact ⟨⟨hmin, hmax, hpattern⟩, hversion⟩

theorem Requirements.modelValidate_checked {r : Requirements}
    (h : Requirements.modelValidate readers v = some r) :
    r.inputModalities = [str "text"] ∧ r.outputMediaType = str "application/json" ∧
      r.structuredOutput = true ∧ 1 ≤ r.maxOutputTokens ∧
      r.maxOutputTokens ≤ Gateway.maxOutputTokens := by
  simp only [modelValidate, bind, Option.bind_eq_some_iff, modelField_eq_some, pure,
    Option.some.injEq, Bool.and_eq_true, decide_eq_true_eq] at h
  obtain ⟨fields, -, modalities, ⟨-, hmodalities⟩, media, ⟨-, hmedia⟩, structured,
    ⟨⟨u, -, hstructured⟩, -⟩, tokens, ⟨-, htokens⟩, rfl⟩ := h
  exact ⟨hmodalities, hmedia, (readers.literalTrue_some hstructured).1, htokens⟩

theorem GenerationMessage.modelValidate_checked {m : GenerationMessage}
    (h : GenerationMessage.modelValidate readers v = some m) :
    1 ≤ m.content.length ∧ m.content.length ≤ maxMessageChars ∧ Scalars m.content := by
  simp only [modelValidate, bind, Option.bind_eq_some_iff, modelField_eq_some,
    readers.strictStr_eq_some, pure, Option.some.injEq, Bool.and_eq_true, decide_eq_true_eq] at h
  obtain ⟨fields, -, role, -, content, ⟨⟨u, -, -, hscalar⟩, hlength⟩, rfl⟩ := h
  exact ⟨hlength.1, hlength.2, hscalar⟩

theorem seedField_checked {fields : List (Str × Json)} {seed : Option ℤ}
    (h : seedField readers fields = some seed) : ∀ n ∈ seed, 0 ≤ n ∧ n ≤ 9223372036854775807 := by
  unfold seedField at h
  split at h
  · obtain rfl := Option.some.inj h
    simp
  · obtain ⟨n, hn, rfl⟩ := Option.map_eq_some_iff.mp h
    obtain ⟨-, hrange⟩ := modelField_eq_some.mp hn
    simpa using hrange

theorem Generation.modelValidate_checked {g : Generation} (hd : Distinct v)
    (h : Generation.modelValidate checkSchema readers v = some g) :
    (∀ m ∈ g.messages, 1 ≤ m.content.length ∧ m.content.length ≤ maxMessageChars ∧
      Scalars m.content) ∧
    (0 ≤ g.temperature.toRat ∧ g.temperature.toRat ≤ 1 ∧ ∃ d, g.temperature = readers.text d) ∧
    (∀ n ∈ g.seed, 0 ≤ n ∧ n ≤ 9223372036854775807) ∧
    validateGenerationShape checkSchema (g.messages.map GenerationMessage.role) g.responseSchema =
      .ok () ∧ Distinct (.dict g.responseSchema) := by
  simp only [modelValidate, bind, Option.bind_eq_some_iff, modelField_eq_some, modelFields_eq_some,
    FieldReaders.items_eq_some, readers.strictDict_eq_some, Bool.and_eq_true,
    decide_eq_true_eq] at h
  obtain ⟨fields, ⟨rfl, -⟩, messages, ⟨⟨u, -, vs, -, hall⟩, -⟩, temperature,
    ⟨⟨t, -, htemperature⟩, hrange⟩, seed, hseed, schema, ⟨⟨x, hschema, rfl, -⟩, -⟩, h⟩ := h
  obtain ⟨d, -, rfl⟩ := readers.strictFloat_some htemperature
  split at h
  · rename_i hshape
    obtain rfl := Option.some.inj h
    refine ⟨fun m hm => ?_, ⟨hrange.1, hrange.2, d, rfl⟩, seedField_checked hseed, hshape,
      hd.field (mem_of_get hschema)⟩
    obtain ⟨w, -, hw⟩ := forall₂_mem_right hall hm
    exact GenerationMessage.modelValidate_checked hw
  · cases h

theorem validateGenerationShape_encodes {roles : List Str} {fs : List (Str × Json)}
    (h : validateGenerationShape checkSchema roles fs = .ok ()) :
    ∃ b, encodeJsonBytes (.dict fs) true = .ok b := by
  unfold validateGenerationShape at h
  obtain ⟨-, -, h⟩ := bind_eq_ok.mp h
  obtain ⟨b, hb, -⟩ := bind_eq_ok.mp h
  exact ⟨b, hb⟩

/-- What the libraries have vouched for in a request that is read. -/
structure InferenceRequest.ReadBy (readers : FieldReaders) (request : InferenceRequest) : Prop where
  temperature : ∃ d, request.generation.temperature = readers.text d
  expiry : readers.strptime request.requestExpiresAt.text = true

/-- What a document without repeated keys is read as is an accepted request. -/
theorem InferenceRequest.modelValidate_accepted (hd : Distinct v)
    (h : InferenceRequest.modelValidate checkSchema readers v = some request) :
    request.Accepted checkSchema ∧ request.ReadBy readers := by
  simp only [modelValidate, bind, Option.bind_eq_some_iff, modelField_eq_some, modelFields_eq_some,
    pure, Option.some.injEq, decide_eq_true_eq] at h
  obtain ⟨fields, ⟨rfl, -⟩, version, ⟨-, hversion⟩, requestId, ⟨-, hid⟩, expiry,
    ⟨⟨e, -, hexpiry⟩, -⟩, task, ⟨⟨t, -, htask⟩, -⟩, requirements, ⟨⟨r, -, hrequirements⟩, -⟩, generation,
    ⟨⟨g, hget, hgeneration⟩, -⟩, rfl⟩ := h
  obtain ⟨htaskId, htaskVersion⟩ := TaskReference.modelValidate_checked htask
  obtain ⟨hmodalities, hmedia, hstructured, htokens⟩ :=
    Requirements.modelValidate_checked hrequirements
  obtain ⟨hcontents, ⟨hlow, hhigh, d, hfloat⟩, hseed, hshape, hschema⟩ :=
    Generation.modelValidate_checked (hd.field (mem_of_get hget)) hgeneration
  obtain ⟨b, hb⟩ := validateGenerationShape_encodes hshape
  exact ⟨⟨hversion, hid, htaskId, htaskVersion, hmodalities, hmedia, hstructured, htokens, hcontents,
    ⟨hlow, hhigh, hfloat ▸ readers.constructible d⟩, hseed, hshape, parsed_of_encode hschema hb⟩,
    ⟨d, hfloat⟩, (readers.expiry_eq_some.mp hexpiry).2.2⟩

end Validated

/-! Reading what the parser makes of a dump. -/

theorem rewritten_respells : Json.Respells Rewritten := ⟨fun _ _ h => h.1, fun n _ h => h.2 n rfl⟩

section Fields

variable {α : Type} {read : Json → Option α} {accepted : α → Bool} {a : α} {key : Str}
variable (hm : Matching (Alike Rewritten) fs gs)
include hm

theorem modelFields_rewritten {required optional : List Str} (hreq : ∀ k ∈ required, k ∈ keys fs)
    (hall : ∀ k ∈ keys fs, k ∈ required ∨ k ∈ optional) :
    modelFields required optional (.dict gs) = some gs :=
  modelFields_eq_some.mpr ⟨rfl, fun k hk => (hm.mem_keys k).mp (hreq k hk),
    fun k hk => hall k ((hm.mem_keys k).mpr hk)⟩

theorem modelField_rewritten (hget : get fs key = some v)
    (hread : ∀ w, get gs key = some w → Alike Rewritten v w → read w = some a)
    (ha : accepted a = true) : modelField read accepted gs key = some a := by
  obtain ⟨w, hw, hvw⟩ := hm.some_left hget
  exact modelField_eq_some.mpr ⟨⟨w, hw, hread w hw hvw⟩, ha⟩

theorem strField_rewritten {accepted : Str → Bool} (hget : get fs key = some (.string s))
    (hs : Scalars s) (ha : accepted s = true) : modelField readers.strictStr accepted gs key = some s :=
  modelField_rewritten hm hget
    (fun _ _ h => readers.strictStr_eq_some.mpr ⟨same_string h.same, hs⟩) ha

theorem trueField_rewritten (hget : get fs key = some (.bool true)) :
    modelField readers.literalTrue (fun _ => true) gs key = some true :=
  modelField_rewritten hm hget (fun _ _ h => same_bool h.same ▸ readers.literalTrue_true) rfl

theorem intField_rewritten {accepted : ℤ → Bool} {n : ℤ} (hget : get fs key = some (.int n))
    (ha : accepted n = true) : modelField readers.strictInt accepted gs key = some n :=
  modelField_rewritten hm hget
    (fun _ _ h => readers.strictInt_eq_some.mpr (alike_int rewritten_respells h)) ha

end Fields

/-- A list of dumps is read back item by item. -/
theorem items_rewritten {α : Type} {read : Json → Option α} {dump : α → Json} {items : List α}
    (h : Alike Rewritten (.list (items.map dump)) w) (hw : Parsed w)
    (hread : ∀ a ∈ items, ∀ u, Parsed u → Alike Rewritten (dump a) u → read u = some a) :
    readers.items read w = some items := by
  obtain ⟨ws, rfl, hrel⟩ := alike_list rewritten_respells.same h
  refine FieldReaders.items_eq_some.mpr ⟨ws, rfl, ?_⟩
  have hparsed := Json.parsedItems_iff.mp hw
  clear h hw
  induction items generalizing ws with
  | nil =>
    obtain rfl := List.forall₂_nil_left_iff.mp hrel
    exact .nil
  | cons a items ih =>
    obtain ⟨u, us, hu, hus, rfl⟩ := List.forall₂_cons_left_iff.mp hrel
    exact .cons (hread a (by simp) u (hparsed u (by simp)) hu)
      (ih (fun b hb => hread b (List.mem_cons_of_mem _ hb)) us hus
        (fun x hx => hparsed x (List.mem_cons_of_mem _ hx)))

/-- A rewritten dict is a dict with alike fields. -/
theorem rewritten_dict (h : Alike Rewritten (.dict fs) w) (hw : Parsed w) :
    ∃ gs, w = .dict gs ∧ Matching (Alike Rewritten) fs gs := by
  obtain ⟨gs, -, rfl, -⟩ := alike_dict rewritten_respells.same h
  exact ⟨gs, rfl, alike_matching rewritten_respells.same h hw.1⟩

theorem TaskReference.modelValidate_rewritten {t : TaskReference}
    (hid : 1 ≤ t.id.length ∧ t.id.length ≤ 128 ∧ taskIdPattern t.id)
    (hversion : 1 ≤ t.version ∧ t.version ≤ 2147483647)
    (h : Alike Rewritten (.dict [(str "id", .string t.id), (str "version", .int t.version)]) w)
    (hw : Parsed w) : TaskReference.modelValidate readers w = some t := by
  obtain ⟨gs, rfl, hm⟩ := rewritten_dict h hw
  simp only [modelValidate, bind, Option.bind_eq_some_iff, pure, Option.some.injEq]
  refine ⟨gs, modelFields_rewritten hm (by simp [keys]) (by simp [keys]), t.id, ?_, t.version, ?_, rfl⟩
  · exact strField_rewritten hm rfl (scalars_of_range (taskIdPattern_ascii hid.2.2)) (by simp [hid])
  · exact intField_rewritten hm rfl (by simp [hversion])

theorem Requirements.modelValidate_rewritten {r : Requirements}
    (hmodalities : r.inputModalities = [str "text"])
    (hmedia : r.outputMediaType = str "application/json") (hstructured : r.structuredOutput = true)
    (htokens : 1 ≤ r.maxOutputTokens ∧ r.maxOutputTokens ≤ Gateway.maxOutputTokens)
    (h : Alike Rewritten (.dict [
      (str "input_modalities", .list (r.inputModalities.map Json.string)),
      (str "output_media_type", .string r.outputMediaType),
      (str "structured_output", .bool r.structuredOutput),
      (str "max_output_tokens", .int r.maxOutputTokens)]) w) (hw : Parsed w) :
    Requirements.modelValidate readers w = some r := by
  obtain ⟨gs, rfl, hm⟩ := rewritten_dict h hw
  simp only [modelValidate, bind, Option.bind_eq_some_iff, pure, Option.some.injEq]
  refine ⟨gs, modelFields_rewritten hm (by simp [keys]) (by simp [keys]), r.inputModalities, ?_,
    r.outputMediaType, ?_, r.structuredOutput, ?_, r.maxOutputTokens, ?_, rfl⟩
  · refine modelField_rewritten hm rfl (fun u hu hvu => ?_) (by simp [hmodalities])
    refine items_rewritten hvu (Json.parsed_field hw (mem_of_get hu)) (fun a ha x _ hx => ?_)
    rw [hmodalities, List.mem_singleton] at ha
    exact readers.strictStr_eq_some.mpr ⟨same_string hx.same, ha ▸ by decide⟩
  · exact strField_rewritten hm rfl (hmedia ▸ by decide) (by simp [hmedia])
  · rw [hstructured] at hm ⊢
    exact trueField_rewritten hm rfl
  · exact intField_rewritten hm rfl (by simp [htokens])

theorem GenerationMessage.modelValidate_rewritten {m : GenerationMessage}
    (hrole : m.role = str "system" ∨ m.role = str "user")
    (hcontent : 1 ≤ m.content.length ∧ m.content.length ≤ maxMessageChars ∧ Scalars m.content)
    (h : Alike Rewritten m.modelDump w) (hw : Parsed w) :
    GenerationMessage.modelValidate readers w = some m := by
  obtain ⟨gs, rfl, hm⟩ := rewritten_dict h hw
  simp only [modelValidate, bind, Option.bind_eq_some_iff, pure, Option.some.injEq]
  have hscalar : Scalars m.role := by
    rcases hrole with hr | hr <;> exact hr ▸ by decide
  refine ⟨gs, modelFields_rewritten hm (by simp [keys]) (by simp [keys]), m.role, ?_, m.content, ?_,
    rfl⟩
  · exact strField_rewritten hm rfl hscalar (by simp [hrole])
  · exact strField_rewritten hm rfl hcontent.2.2 (by simp [hcontent])

theorem seedField_rewritten (hm : Matching (Alike Rewritten) fs gs) {seed : Option ℤ}
    (hget : get fs (str "seed") = seed.map Json.int)
    (hseed : ∀ n ∈ seed, 0 ≤ n ∧ n ≤ 9223372036854775807) : seedField readers gs = some seed := by
  unfold seedField
  cases seed with
  | none => rw [(hm.none_iff _).mp hget]
  | some n =>
    rw [matching_int rewritten_respells hm hget]
    have hread : modelField readers.strictInt (fun n => 0 ≤ n && n ≤ 9223372036854775807) gs
        (str "seed") = some n := intField_rewritten hm hget (by simpa using hseed n rfl)
    simp only [hread, Option.map_some]

section Generation

variable {checkSchema : Json → Bool} {request : InferenceRequest}
variable {g : Generation} {roles : List Str}

/-- The check does not see a rewriting, if the metaschema does not. -/
theorem validateGenerationShape_rewritten (hv : Parsed (.dict fs)) (hw : Parsed (.dict gs))
    (hcheck : ∀ v w, Alike Rewritten v w → checkSchema v = true → checkSchema w = true)
    (h : Alike Rewritten (.dict fs) (.dict gs))
    (hshape : validateGenerationShape checkSchema roles fs = .ok ()) :
    validateGenerationShape checkSchema roles gs = .ok () := by
  have hc := validateGenerationShape_checked hshape
  obtain ⟨hroles, hadmitted⟩ := (validateGenerationShape_eq_ok hv hc).mp hshape
  exact (validateGenerationShape_eq_ok hw (hcheck _ _ h hc)).mpr
    ⟨hroles, admitted_alike rewritten_respells h hv hw hadmitted⟩

/-- A float is read back from any spelling of its text. -/
theorem strictFloat_rewritten {d : Decimal} (hlow : 0 ≤ (readers.text d).toRat)
    (hhigh : (readers.text d).toRat ≤ 1) (h : Alike Rewritten (.decimal (readers.text d)) w) :
    ∃ e, readers.strictFloat w = some e ∧ e.toRat = (readers.text d).toRat := by
  have hnumber : w.number? = some (readers.text d).toRat :=
    (alike_number? rewritten_respells.same h).symm
  obtain ⟨e, hread, he⟩ := readers.strictFloat_number hnumber hlow hhigh
  exact ⟨_, hread, (readers.congr _ _ he).trans (readers.roundTrip d)⟩

/-- What two generations share when the second is the first, read back. -/
structure Generation.ReadBack (g g' : Generation) : Prop where
  messages : g'.messages = g.messages
  temperature : g'.temperature.toRat = g.temperature.toRat
  seed : g'.seed = g.seed
  schema : Alike Rewritten (.dict g.responseSchema) (.dict g'.responseSchema)

theorem Generation.modelValidate_rewritten
    (hcheck : ∀ v w, Alike Rewritten v w → checkSchema v = true → checkSchema w = true)
    (hcontents : ∀ m ∈ g.messages, 1 ≤ m.content.length ∧ m.content.length ≤ maxMessageChars ∧
      Scalars m.content)
    (htemperature : 0 ≤ g.temperature.toRat ∧ g.temperature.toRat ≤ 1)
    (hfloat : ∃ d, g.temperature = readers.text d)
    (hseed : ∀ n ∈ g.seed, 0 ≤ n ∧ n ≤ 9223372036854775807)
    (hshape : validateGenerationShape checkSchema (g.messages.map GenerationMessage.role)
      g.responseSchema = .ok ()) (hschema : Parsed (.dict g.responseSchema))
    (h : Alike Rewritten g.modelDump w) (hw : Parsed w) :
    ∃ g', Generation.modelValidate checkSchema readers w = some g' ∧ g.ReadBack g' := by
  obtain ⟨gs, rfl, hm⟩ := rewritten_dict h hw
  obtain ⟨fs, hfs⟩ : ∃ fs, g.modelDump = .dict fs := ⟨_, rfl⟩
  obtain ⟨hmessages, htemp, hseedget, hschemaget⟩ := Generation.get_modelDump hfs
  rw [Json.dict.inj hfs] at hm
  obtain ⟨t, hread, hmt⟩ := hm.some_left htemp
  obtain ⟨d, hd⟩ := hfloat
  rw [hd] at hmt
  obtain ⟨e, he, hvalue⟩ := strictFloat_rewritten (hd ▸ htemperature.1) (hd ▸ htemperature.2) hmt
  rw [← hd] at hvalue
  obtain ⟨x, hxget, hx⟩ := hm.some_left hschemaget
  obtain ⟨schema, rfl, -⟩ := rewritten_dict hx (Json.parsed_field hw (mem_of_get hxget))
  have hxparsed := Json.parsed_field hw (mem_of_get hxget)
  have hroles := roles_of_shape hshape
  have hlength : g.messages.length = 2 := by simpa using congrArg List.length hroles
  have hkeys : ∀ k ∈ keys fs, k ∈ [str "messages", str "temperature", str "response_schema"] ∨
      k ∈ [str "seed"] := by
    obtain rfl := Json.dict.inj hfs
    cases g.seed <;> simp [keys]
  refine ⟨⟨g.messages, e, g.seed, schema⟩, ?_, rfl, hvalue, rfl, hx⟩
  simp only [modelValidate, bind, Option.bind_eq_some_iff]
  refine ⟨gs, modelFields_rewritten hm (fun k hk => ?_) hkeys, g.messages, ?_, e, ?_, g.seed,
    seedField_rewritten hm hseedget hseed, schema, ?_, ?_⟩
  · simp only [List.mem_cons, List.not_mem_nil, or_false] at hk
    rcases hk with rfl | rfl | rfl <;> simp [mem_keys_iff, *]
  · refine modelField_rewritten hm hmessages (fun u hu hvu => ?_) (by simp [hlength])
    refine items_rewritten hvu (Json.parsed_field hw (mem_of_get hu)) (fun m hmem x hx h => ?_)
    have hrole := List.mem_map_of_mem (f := GenerationMessage.role) hmem
    rw [hroles] at hrole
    exact GenerationMessage.modelValidate_rewritten (by simpa using hrole) (hcontents m hmem) h hx
  · exact modelField_eq_some.mpr ⟨⟨t, hread, he⟩, by simpa [hvalue] using htemperature⟩
  · exact modelField_eq_some.mpr ⟨⟨_, hxget, readers.strictDict_eq_some.mpr ⟨rfl, fun k hk => by
      obtain ⟨f, hf, rfl⟩ := List.mem_map.mp hk
      exact (Json.parsedFields_iff.mp hxparsed.2 f hf).1⟩⟩, rfl⟩
  · rw [validateGenerationShape_rewritten hschema hxparsed hcheck hx hshape]
    rfl

/-- A request is read back from what the parser makes of its dump, up to the two spellings. -/
theorem InferenceRequest.modelValidate_rewritten
    (hcheck : ∀ v w, Alike Rewritten v w → checkSchema v = true → checkSchema w = true)
    (hr : request.Accepted checkSchema) (hread : request.ReadBy readers)
    (h : Alike Rewritten request.modelDump w) (hw : Parsed w) :
    ∃ request', InferenceRequest.modelValidate checkSchema readers w = some request' ∧
      Same request.modelDump request'.modelDump := by
  obtain ⟨gs, rfl, hm⟩ := rewritten_dict h hw
  obtain ⟨x, hxget, hx⟩ := hm.some_left (show get _ (str "generation") = some _ from rfl)
  obtain ⟨g, hgeneration, hback⟩ := Generation.modelValidate_rewritten hcheck hr.contents
    ⟨hr.temperature.1, hr.temperature.2.1⟩ hread.temperature hr.seed hr.shape hr.schema hx
    (Json.parsed_field hw (mem_of_get hxget))
  have hparsed : ∀ {k u}, get gs k = some u → Parsed u := fun hu =>
    Json.parsed_field hw (mem_of_get hu)
  refine ⟨{ request with generation := g }, ?_, ?_⟩
  · simp only [modelValidate, bind, Option.bind_eq_some_iff, pure, Option.some.injEq]
    refine ⟨gs, modelFields_rewritten hm (by simp [keys]) (by simp [keys]), request.protocolVersion,
      ?_, request.requestId, ?_, request.requestExpiresAt, ?_, request.task, ?_,
      request.requirements, ?_, g, ?_, rfl⟩
    · exact intField_rewritten hm rfl (by simp [hr.protocol])
    · exact strField_rewritten hm rfl (scalars_of_range (uuidV4_ascii hr.requestId)) hr.requestId
    · refine modelField_rewritten hm rfl (fun u _ hu => ?_) rfl
      exact FieldReaders.expiry_eq_some.mpr ⟨same_string hu.same, expiry_scalars _, hread.expiry⟩
    · exact modelField_rewritten hm rfl (fun u hu h =>
        TaskReference.modelValidate_rewritten hr.taskId hr.taskVersion h (hparsed hu)) rfl
    · exact modelField_rewritten hm rfl (fun u hu h =>
        Requirements.modelValidate_rewritten hr.modalities hr.mediaType hr.structured
          hr.outputTokens h (hparsed hu)) rfl
    · exact modelField_eq_some.mpr ⟨⟨x, hxget, hgeneration⟩, rfl⟩
  · have hgeneration : Same request.generation.modelDump g.modelDump := by
      unfold Generation.modelDump
      rw [hback.messages, hback.seed]
      refine .of_fields (.refl _) (List.rel_append (List.rel_append ?_ ?_) ?_)
      · exact .cons ⟨rfl, same_refl _⟩ (.cons ⟨rfl, .leaf (.number rfl (congrArg some
          hback.temperature))⟩ .nil)
      · exact List.forall₂_same.mpr fun _ _ => ⟨rfl, same_refl _⟩
      · exact .cons ⟨rfl, hback.schema.same⟩ .nil
    refine .of_fields (.refl _) (.cons ⟨rfl, same_refl _⟩ (.cons ⟨rfl, same_refl _⟩
      (.cons ⟨rfl, same_refl _⟩ (.cons ⟨rfl, same_refl _⟩ (.cons ⟨rfl, same_refl _⟩
        (.cons ⟨rfl, hgeneration⟩ .nil))))))

end Generation

/-! The size of a request, next to that of its schema. -/

theorem InferenceRequest.modelDump_size {checkSchema : Json → Bool} {request : InferenceRequest}
    (hr : request.Accepted checkSchema) :
    Json.nodes request.modelDump = Json.nodes (.dict request.generation.responseSchema) +
        request.generation.seed.toList.length + 22 ∧
      Json.height request.modelDump =
        max (Json.height (.dict request.generation.responseSchema) + 2) 5 := by
  have hlength : request.generation.messages.length = 2 := by
    simpa using congrArg List.length (roles_of_shape hr.shape)
  obtain ⟨a, b, hmessages⟩ := List.length_eq_two.mp hlength
  have hmodalities := hr.modalities
  have hschema := Json.height_pos (.dict request.generation.responseSchema)
  obtain ⟨version, requestId, expiry, task, ⟨modalities, media, structured, tokens⟩,
    ⟨messages, temperature, seed, schema⟩⟩ := request
  simp only at hmessages hmodalities hschema
  subst hmessages hmodalities
  cases seed <;> constructor <;>
    simp [modelDump, Generation.modelDump, GenerationMessage.modelDump, Json.nodes, Json.nodesItems,
      Json.nodesFields, Json.height, Json.heightItems, Json.heightFields] at hschema ⊢ <;> omega

/-- What the parser makes of an accepted request's canonical form, and when. -/
theorem parseJsonObject_modelDump {checkSchema : Json → Bool} {request : InferenceRequest}
    (hr : request.Accepted checkSchema) {recursionLimit : ℕ}
    (hlimit : maxJsonDepth + 2 ≤ recursionLimit) :
    ∃ body document, encodeJsonBytes request.modelDump true = .ok body ∧
      Alike Rewritten request.modelDump document ∧ Parsed document ∧
      ∀ parsed, parseJsonObject recursionLimit body = .ok parsed ↔ parsed = document ∧
        Json.nodes (.dict request.generation.responseSchema) +
            request.generation.seed.toList.length + 22 ≤ maxJsonNodes ∧
          Json.height (.dict request.generation.responseSchema) + 2 ≤ maxJsonDepth := by
  have hdump := InferenceRequest.modelDump_parsed hr
  obtain ⟨hnodes, hheight⟩ := InferenceRequest.modelDump_size hr
  have hschema := (validateGenerationShape_eq_ok hr.schema (validateGenerationShape_checked hr.shape)).mp hr.shape
  have hdepth := hschema.2.depth
  have hmax : maxJsonDepth = 32 := rfl
  have hdeep : Json.height request.modelDump ≤ recursionLimit := by omega
  have hwithin : Json.height request.modelDump ≤ maxJsonDepth ↔
      Json.height (.dict request.generation.responseSchema) + 2 ≤ maxJsonDepth := by omega
  obtain ⟨gs, hparse, halike, hparsed⟩ := Json.parseJsonObject_encode_iff hdump hdeep
  rw [← InferenceRequest.modelDump] at hparse halike
  rw [hnodes, hwithin] at hparse
  exact ⟨_, .dict gs, Json.encodeJsonBytes_eq hdump, halike, hparsed, hparse⟩

/-- An accepted request comes back from its own canonical form, with its digest, exactly when the
limits on the body leave its schema room: the two levels and the nodes around it. -/
theorem ingress_agreement (checkSchema : Json → Bool) (readers : FieldReaders)
    (sha256 : Bytes → Str) {recursionLimit : ℕ} (hlimit : maxJsonDepth + 2 ≤ recursionLimit)
    (hcheck : ∀ v w, Alike Rewritten v w → checkSchema v = true → checkSchema w = true)
    {document : Json} {request : InferenceRequest} (hd : Distinct document)
    (h : InferenceRequest.modelValidate checkSchema readers document = some request) :
    ∃ body, encodeJsonBytes request.modelDump true = .ok body ∧
      ((∃ parsed request', parseJsonObject recursionLimit body = .ok parsed ∧
          InferenceRequest.modelValidate checkSchema readers parsed = some request' ∧
          request'.canonicalDigest sha256 = request.canonicalDigest sha256) ↔
        Json.nodes (.dict request.generation.responseSchema) +
            request.generation.seed.toList.length + 22 ≤ maxJsonNodes ∧
          Json.height (.dict request.generation.responseSchema) + 2 ≤ maxJsonDepth) := by
  obtain ⟨hr, hread⟩ := InferenceRequest.modelValidate_accepted hd h
  obtain ⟨body, parsed, hbody, halike, hparsed, hparse⟩ := parseJsonObject_modelDump hr hlimit
  refine ⟨body, hbody, ?_, fun hfits => ?_⟩
  · rintro ⟨w, request', hok, -⟩
    exact ((hparse w).mp hok).2
  · obtain ⟨request', hreread, hsame⟩ :=
      InferenceRequest.modelValidate_rewritten hcheck hr hread halike hparsed
    have hr' := (InferenceRequest.modelValidate_accepted hparsed.distinct hreread).1
    have hbytes := (Json.encodeJsonBytes_eq_iff (InferenceRequest.modelDump_parsed hr)
      (InferenceRequest.modelDump_parsed hr')).mpr hsame
    refine ⟨parsed, request', (hparse parsed).mpr ⟨rfl, hfits⟩, hreread, ?_⟩
    rw [InferenceRequest.canonicalDigest, InferenceRequest.canonicalDigest, hbytes]

/-! A document as a client sends it, and one whose schema fills the depth limit by itself. -/

/-- Floats at the two temperatures the task policies name. -/
def sampleFloat : FloatText where
  text d := if d.toRat = 1 / 10 then ⟨false, 1, -1⟩ else ⟨false, 0, -1⟩
  constructible d := by split_ifs <;> decide
  congr d e h := by rw [h]
  roundTrip d := by split_ifs <;> norm_num [Decimal.toRat, Decimal.magnitude] at *

/-- The readers, up to the floats and to the digits that a text has outside ASCII. -/
def sampleReaders : FieldReaders where
  toFloatText := sampleFloat
  strictStr v := v.asString?.filter (fun s => decide (Scalars s))
  strictInt := Json.asInt?
  strictFloat
    | .int n => some (sampleFloat.text (.ofInt n))
    | .decimal d => some (sampleFloat.text d)
    | _ => none
  strictList := Json.asList?
  strictDict v := v.asDict?.filter (fun fields => decide (∀ k ∈ keys fields, Scalars k))
  literalTrue v := if v = .bool true ∨ v.number? = some 1 then some true else none
  strptime s := decide (Template.Ascii s)
  strictStr_eq_some := by simp [Option.filter_eq_some_iff, asString?_eq_some]
  strictInt_eq_some := asInt?_eq_some
  strictFloat_some := by
    intro v d h
    cases v <;> simp only [Option.some.injEq, reduceCtorEq] at h
    · exact ⟨_, congrArg some (Json.ofInt_toRat _).symm, h.symm⟩
    · exact ⟨_, rfl, h.symm⟩
  strictFloat_number := by
    intro v q h _ _
    cases v <;> simp only [Json.number?, Option.some.injEq, reduceCtorEq] at h
    · exact ⟨_, rfl, (Json.ofInt_toRat _).trans h⟩
    · exact ⟨_, rfl, h⟩
  strictList_eq_some := asList?_eq_some
  strictDict_eq_some := by simp [Option.filter_eq_some_iff, asDict?_eq_some]
  literalTrue_true := by simp
  literalTrue_some := by
    intro v b h
    split_ifs at h with hv
    exact ⟨(Option.some.inj h).symm, hv⟩
  strptime_ascii _ h := decide_eq_true h

def sampleDocument (schema : Json) : Json :=
  .dict [(str "protocol_version", .int 1),
    (str "request_id", .string (str "5f0c8f6e-1d2b-4c3a-9e7f-0a1b2c3d4e5f")),
    (str "request_expires_at", .string (str "2026-09-10T18:05:00Z")),
    (str "task", .dict [(str "id", .string (str "document.summary.step")), (str "version", .int 1)]),
    (str "requirements", .dict [(str "input_modalities", .list [.string (str "text")]),
      (str "output_media_type", .string (str "application/json")),
      (str "structured_output", .bool true), (str "max_output_tokens", .int 4096)]),
    (str "generation", .dict [(str "messages", .list [
        .dict [(str "role", .string (str "system")), (str "content", .string (str "Summarize."))],
        .dict [(str "role", .string (str "user")), (str "content", .string (str "Text."))]]),
      (str "temperature", .decimal ⟨false, 0, -1⟩), (str "response_schema", schema)])]

/-- `null` in so many lists. -/
def nestedLists : ℕ → Json
  | 0 => .null
  | n + 1 => .list [nestedLists n]

/-- An object schema of `n + 2` levels. -/
def deepSchema (n : ℕ) : Json :=
  .dict [(str "type", .string (str "object")), (str "default", nestedLists n)]

theorem sampleDocument_accepted {n : ℕ} (hn : n ∈ [1, 29]) :
    Distinct (sampleDocument (deepSchema n)) ∧
      ∃ request, InferenceRequest.modelValidate (fun _ => true) sampleReaders
        (sampleDocument (deepSchema n)) = some request ∧
        .dict request.generation.responseSchema = deepSchema n ∧ request.generation.seed = none := by
  have hall : ∀ n ∈ [1, 29], Parsed (sampleDocument (deepSchema n)) ∧
      (InferenceRequest.modelValidate (fun _ => true) sampleReaders
        (sampleDocument (deepSchema n))).any (fun request =>
          .dict request.generation.responseSchema = deepSchema n ∧
            request.generation.seed = none) = true := by decide +kernel
  obtain ⟨hparsed, hread⟩ := hall n hn
  obtain ⟨request, hrequest, hschema⟩ := (Option.any_eq_true _ _).mp hread
  exact ⟨hparsed.distinct, request, hrequest, of_decide_eq_true hschema⟩

/-- One level under the schema's own limit the body is refused. -/
theorem ingress_disagreement : ∃ document request body, Distinct document ∧
    InferenceRequest.modelValidate (fun _ => true) sampleReaders document = some request ∧
    encodeJsonBytes request.modelDump true = .ok body ∧
    ∀ parsed, parseJsonObject 1000 body ≠ .ok parsed := by
  obtain ⟨hd, request, hread, hschema, -⟩ := @sampleDocument_accepted 29 (by simp)
  have hr := (InferenceRequest.modelValidate_accepted hd hread).1
  obtain ⟨body, reread, hbody, -, -, hparse⟩ :=
    parseJsonObject_modelDump hr (show maxJsonDepth + 2 ≤ 1000 by decide)
  refine ⟨_, request, body, hd, hread, hbody, fun parsed hok => ?_⟩
  obtain ⟨-, -, hdepth⟩ := (hparse parsed).mp hok
  rw [hschema] at hdepth
  exact absurd hdepth (by decide +kernel)

/-- A schema of three levels makes the way. -/
theorem ingress_agreement_shallow : ∃ request body parsed request',
    InferenceRequest.modelValidate (fun _ => true) sampleReaders (sampleDocument (deepSchema 1)) =
      some request ∧
    encodeJsonBytes request.modelDump true = .ok body ∧
    parseJsonObject 1000 body = .ok parsed ∧
    InferenceRequest.modelValidate (fun _ => true) sampleReaders parsed = some request' ∧
    request'.canonicalDigest id = request.canonicalDigest id := by
  obtain ⟨hd, request, hread, hschema, hseed⟩ := @sampleDocument_accepted 1 (by simp)
  obtain ⟨body, hbody, hiff⟩ := ingress_agreement (fun _ => true) sampleReaders id
    (show maxJsonDepth + 2 ≤ 1000 by decide) (fun _ _ _ _ => rfl) hd hread
  rw [hschema, hseed] at hiff
  obtain ⟨parsed, request', hparse, hread', hdigest⟩ := hiff.mpr (by decide)
  exact ⟨request, body, parsed, request', hread, hbody, hparse, hread', hdigest⟩

end Gateway
