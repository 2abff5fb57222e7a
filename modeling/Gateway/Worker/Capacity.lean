import Gateway.Worker.Availability

/-! Context capacity is claimed only where both answers prove it, in whatever order they list. -/
namespace Gateway

open Json (get)

variable {limit : ℕ} {model : Str} {minimum : ℤ} {document : List (Str × Json)}

/-- The answer is a response of status 200 with an acceptable body. -/
def Delivers (limit : ℕ) (answer : Except Fault HttpResponse) (document : List (Str × Json)) : Prop :=
  ∃ response, answer = .ok response ∧ response.closing = none ∧ response.statusCode = 200 ∧
    boundedJson limit response = .ok document

/-- The number a setting gives: at most seven ASCII digits, within both limits. -/
structure GivesContext (minimum : ℤ) (value : Str) : Prop where
  digits : value ≠ [] ∧ ∀ c ∈ value, JsonText.isDigit c = true
  length : value.length ≤ 7
  above : max 1 minimum ≤ digitsInt value
  below : digitsInt value ≤ maxWorkerContextTokens

/-- One line of the text starts with `num_ctx`, and gives the context in its second field. -/
def ConfiguresContext (minimum : ℤ) (parameters : Str) : Prop :=
  ∃ line value, (splitLines parameters).filter (fun line => (split line).head? = some numCtx) =
    [line] ∧ split line = [numCtx, value] ∧ GivesContext minimum value

/-- Whether an entry names the model. -/
def Mentions (model : Str) (item : Json) : Prop :=
  ∃ fields, item = .dict fields ∧ .string model ∈ identities fields

instance (item : Json) : Decidable (Mentions model item) :=
  match item with
  | .dict fields => decidable_of_iff (.string model ∈ identities fields) (by simp [Mentions])
  | .null | .bool _ | .int _ | .decimal _ | .string _ | .list _ => .isFalse (by simp [Mentions])

/-- An entry has a name or a model, and those it has are texts that are not empty. -/
def Identified (item : Json) : Prop :=
  ∃ fields, item = .dict fields ∧ identities fields ≠ [] ∧
    ∀ v ∈ identities fields, ∃ s, v = .string s ∧ s ≠ []

/-- The entry names the model alone, with a context within both limits. -/
def HoldsContext (model : Str) (minimum : ℤ) (item : Json) : Prop :=
  ∃ (fields : List (Str × Json)) (context : ℤ), item = .dict fields ∧
    (∀ v ∈ identities fields, v = .string model) ∧
    get fields (str "context_length") = some (.int context) ∧
    max 1 minimum ≤ context ∧ context ≤ maxWorkerContextTokens

/-- What the resident models must be like. -/
structure ResidentsProve (model : Str) (minimum : ℤ) (models : List Json) : Prop where
  identified : ∀ item ∈ models, Identified item
  single : (models.filter (Mentions model ·)).length ≤ 1
  sized : ∀ item ∈ models, Mentions model item → HoldsContext model minimum item

/-- Both documents together prove the capacity. -/
structure ContextProven (model : Str) (minimum : ℤ) (configuration resident : List (Str × Json)) :
    Prop where
  configured : ∃ parameters, get configuration (str "parameters") = some (.string parameters) ∧
    ConfiguresContext minimum parameters
  residents : ∃ models, get resident (str "models") = some (.list models) ∧
    ResidentsProve model minimum models

/-! The configured context. -/

theorem contextSettings_eq (parameters : Str) :
    contextSettings parameters =
      ((splitLines parameters).filter (fun line => (split line).head? = some numCtx)).map split := by
  rw [contextSettings, List.filter_map, List.filter_filter]
  congr 1
  refine List.filter_congr fun line _ => ?_
  by_cases hline : split line = []
  · simp [hline]
  · simp [mt split_eq_nil_iff.mpr hline]

theorem contextSettings_eq_singleton {parameters name value : Str} :
    contextSettings parameters = [[name, value]] ↔
      ∃ line, (splitLines parameters).filter (fun line => (split line).head? = some numCtx) =
        [line] ∧ split line = [name, value] := by
  rw [contextSettings_eq, List.map_eq_singleton_iff]

theorem asciiDigits_iff {value : Str} :
    asciiDigits value = true ↔ value ≠ [] ∧ ∀ c ∈ value, JsonText.isDigit c = true := by
  simp [asciiDigits]

theorem configuredContext_eq_some {parameters : Str} {n : ℕ} :
    configuredContext parameters = some n ↔
      ∃ name value, contextSettings parameters = [[name, value]] ∧
        asciiDigits value = true ∧ value.length ≤ 7 ∧ 1 ≤ digitsInt value ∧
        digitsInt value ≤ maxWorkerContextTokens ∧ digitsInt value = n := by
  unfold configuredContext
  split
  · rename_i name value h
    have hvalue : ∀ {name' value'}, contextSettings parameters = [[name', value']] →
        value = value' := fun h' => (by simpa using h.symm.trans h' : _ ∧ _).2
    split_ifs with hc
    · simp only [Bool.and_eq_true, decide_eq_true_eq] at hc
      obtain ⟨⟨⟨hdigits, hlength⟩, hpos⟩, hmax⟩ := hc
      constructor
      · intro hn
        exact ⟨name, value, h, hdigits, hlength, hpos, hmax, Option.some.inj hn⟩
      · rintro ⟨name', value', h', -, -, -, -, hn⟩
        rw [hvalue h', hn]
    · simp only [false_iff]
      rintro ⟨name', value', h', hdigits, hlength, hpos, hmax, -⟩
      rw [hvalue h'] at hc
      exact hc (by simp [hdigits, hlength, hpos, hmax])
  · rename_i h
    simp only [reduceCtorEq, false_iff]
    rintro ⟨name, value, hs, -⟩
    exact h name value hs

theorem configurationVerdict_eq_none :
    configurationVerdict minimum document = none ↔
      ∃ parameters, get document (str "parameters") = some (.string parameters) ∧
        ConfiguresContext minimum parameters := by
  have hconfigured : configurationVerdict minimum document = none ↔
      ∃ parameters n, get document (str "parameters") = some (.string parameters) ∧
        configuredContext parameters = some n ∧ minimum ≤ n := by
    unfold configurationVerdict
    split
    · rename_i h
      simp only [reduceCtorEq, false_iff]
      rintro ⟨parameters, n, hget, hn, -⟩
      simp [hget, Json.asString?, hn] at h
    · rename_i n h
      simp only [Option.bind_eq_some_iff, asString?_eq_some] at h
      obtain ⟨parameters, ⟨v, hget, rfl⟩, hn⟩ := h
      rw [ite_eq_right_iff]
      simp only [reduceCtorEq, imp_false, not_lt, hget, Option.some.injEq, Json.string.injEq]
      constructor
      · exact fun hle => ⟨parameters, n, rfl, hn, hle⟩
      · rintro ⟨parameters', m, rfl, hm, hle⟩
        obtain rfl : n = m := Option.some.inj (hn.symm.trans hm)
        exact hle
  rw [hconfigured]
  refine exists_congr fun parameters => ?_
  simp only [configuredContext_eq_some, contextSettings_eq_singleton, asciiDigits_iff]
  constructor
  · rintro ⟨n, hget, ⟨name, value, ⟨line, hline, hsplit⟩, hdigits, hlength, hpos, hmax, rfl⟩, hle⟩
    have hmem : line ∈ (splitLines parameters).filter
        (fun line => (split line).head? = some numCtx) := by simp [hline]
    have hhead := (List.mem_filter.mp hmem).2
    obtain rfl : name = numCtx := by simpa [hsplit] using hhead
    exact ⟨hget, line, value, hline, hsplit, hdigits, hlength, by omega, hmax⟩
  · rintro ⟨hget, line, value, hline, hsplit, hdigits, hlength, habove, hmax⟩
    exact ⟨_, hget, ⟨numCtx, value, ⟨line, hline, hsplit⟩, hdigits, hlength, by omega, hmax, rfl⟩,
      by omega⟩

theorem configurationVerdict_ne_available {verdict : WorkerAvailability}
    (h : configurationVerdict minimum document = some verdict) : verdict ≠ .available := by
  rintro rfl
  unfold configurationVerdict at h
  split at h
  · simp at h
  · split_ifs at h
    simp at h

/-! The resident models. -/

theorem namesNothing_iff {v : Json} : namesNothing v = false ↔ ∃ s, v = .string s ∧ s ≠ [] := by
  cases v <;> simp [namesNothing, Json.asString?]

theorem identified_dict {fields : List (Str × Json)} :
    Identified (.dict fields) ↔
      ¬ (identities fields = [] || (identities fields).any namesNothing) = true := by
  simp only [Identified, Json.dict.injEq, exists_eq_left', Bool.or_eq_true, decide_eq_true_eq,
    List.any_eq_true, not_or, not_exists, not_and, Bool.not_eq_true, namesNothing_iff, ne_eq]

theorem holdsContext_dict {fields : List (Str × Json)} :
    HoldsContext model minimum (.dict fields) ↔ (∀ v ∈ identities fields, v = .string model) ∧
      ∃ context : ℤ, get fields (str "context_length") = some (.int context) ∧
        max 1 minimum ≤ context ∧ context ≤ maxWorkerContextTokens := by
  constructor
  · rintro ⟨fields', context, h, hall, hrest⟩
    obtain rfl : fields = fields' := by simpa using h
    exact ⟨hall, context, hrest⟩
  · rintro ⟨hall, context, hrest⟩
    exact ⟨fields, context, rfl, hall, hrest⟩

/-- The scan accepts where every entry is identified, at most one names the model, unless one did
before, and that one holds the context. -/
theorem residentVerdict_eq_available {matched : Bool} {items : List Json} :
    residentVerdict model minimum matched items = .available ↔
      (∀ item ∈ items, Identified item) ∧
      (items.filter (Mentions model ·)).length + matched.toNat ≤ 1 ∧
      ∀ item ∈ items, Mentions model item → HoldsContext model minimum item := by
  induction items generalizing matched with
  | nil => cases matched <;> simp [residentVerdict]
  | cons item items ih =>
    rw [List.forall_mem_cons, List.forall_mem_cons]
    cases item with
    | dict fields =>
      have hmentions : Mentions model (.dict fields) ↔ Json.string model ∈ identities fields := by
        simp [Mentions]
      rw [residentVerdict, identified_dict, holdsContext_dict, hmentions]
      by_cases hnone : (identities fields = [] || (identities fields).any namesNothing) = true
      · simp [hnone]
      rw [if_neg hnone]
      by_cases hother : Json.string model ∈ identities fields
      · rw [if_neg (not_not.mpr hother), List.filter_cons_of_pos (by simpa [hmentions] using hother),
          List.length_cons]
        have hall : (matched || (identities fields).any (· ≠ .string model)) = true ↔
            matched = true ∨ ¬ ∀ v ∈ identities fields, v = .string model := by
          simp
        by_cases hbad : (matched || (identities fields).any (· ≠ .string model)) = true
        · rw [if_pos hbad]
          rcases hall.mp hbad with rfl | hbad
          · simp
          · simp [hother, hbad]
        · rw [if_neg hbad]
          rw [hall, not_or, not_not, Bool.not_eq_true] at hbad
          obtain ⟨rfl, hbad⟩ := hbad
          have halone := iff_true_intro hbad
          split
          · rename_i context hget
            rw [hget]
            by_cases hrange : max 1 minimum ≤ context ∧ context ≤ maxWorkerContextTokens
            · rw [if_neg (by omega), if_neg (by omega), ih]
              have hholds : ∃ c : ℤ, some (Json.int context) = some (Json.int c) ∧
                  max 1 minimum ≤ c ∧ c ≤ maxWorkerContextTokens := ⟨context, rfl, hrange⟩
              simp only [hnone, hother, halone, hholds, Bool.toNat_true, Bool.toNat_false,
                Bool.false_eq_true, not_false_eq_true, Nat.add_zero, true_and, forall_const,
                and_self]
            · have hnone' : ¬ ∃ c : ℤ, some (Json.int context) = some (Json.int c) ∧
                  max 1 minimum ≤ c ∧ c ≤ maxWorkerContextTokens := by
                rintro ⟨c, hc, hle⟩
                obtain rfl : context = c := by simpa using hc
                exact hrange hle
              simp only [hnone', hother, and_false, forall_const, false_and, iff_false]
              by_cases hbound : 1 ≤ context ∧ context ≤ maxWorkerContextTokens
              · rw [if_neg (not_not.mpr hbound), if_pos (by omega)]
                exact WorkerAvailability.noConfusion
              · rw [if_pos hbound]
                exact WorkerAvailability.noConfusion
          · rename_i hget
            have hnone' : ¬ ∃ c : ℤ, get fields (str "context_length") = some (Json.int c) ∧
                max 1 minimum ≤ c ∧ c ≤ maxWorkerContextTokens := fun ⟨c, hc, _⟩ => hget c hc
            simp only [hnone', hother, and_false, forall_const, false_and, iff_false]
            exact WorkerAvailability.noConfusion
      · rw [if_pos hother, ih, List.filter_cons_of_neg (by simpa [hmentions] using hother)]
        simp [hnone, hother]
    | _ => simp [residentVerdict, Identified]

theorem residentsVerdict_eq_available :
    residentsVerdict model minimum document = .available ↔
      ∃ models, get document (str "models") = some (.list models) ∧
        ResidentsProve model minimum models := by
  unfold residentsVerdict
  split
  · rename_i h
    simp only [reduceCtorEq, false_iff]
    rintro ⟨models, hget, -⟩
    simp [hget, Json.asList?] at h
  · rename_i models h
    simp only [Option.bind_eq_some_iff, asList?_eq_some] at h
    obtain ⟨v, hget, rfl⟩ := h
    rw [residentVerdict_eq_available]
    simp only [hget, Option.some.injEq, Json.list.injEq, exists_eq_left', Bool.toNat_false,
      Nat.add_zero]
    constructor
    · rintro ⟨hid, hone, hsize⟩
      exact ⟨hid, hone, hsize⟩
    · intro h
      exact ⟨h.identified, h.single, h.sized⟩

/-- Both verdicts together. -/
theorem contextProven_iff {configuration resident : List (Str × Json)} :
    ContextProven model minimum configuration resident ↔
      configurationVerdict minimum configuration = none ∧
        residentsVerdict model minimum resident = .available := by
  rw [configurationVerdict_eq_none, residentsVerdict_eq_available]
  exact ⟨fun h => ⟨h.configured, h.residents⟩, fun ⟨hc, hr⟩ => ⟨hc, hr⟩⟩

/-! The probes. -/

variable {worker : OllamaWorker} {answer : ∀ query, Query.Answer query}

/-- What the world answers to a request. -/
def answered (answer : ∀ query, Query.Answer query) (request : HttpRequest) :
    Except Fault HttpResponse :=
  answer (.send request)

theorem settle_probe {a : Except Fault HttpResponse} :
    Work.settle (fun response => if response.statusCode ≠ 200 then .ok none
      else (boundedJson limit response).map some) a = .ok (some document) ↔
        Delivers limit a document := by
  unfold Delivers
  cases a with
  | error f => simp [Work.settle]
  | ok response =>
    cases hclosing : response.closing with
    | some f => simp [Work.settle, hclosing]
    | none =>
      by_cases hstatus : response.statusCode = 200
      · cases hbody : boundedJson limit response <;>
          simp [Work.settle, hstatus, hclosing, hbody, Except.map]
      · simp [Work.settle, hstatus, hclosing]

theorem probe_eq_some {request : HttpRequest} :
    (Work.probe limit request).result answer = .ok (some document) ↔
      Delivers limit (answered answer request) document := settle_probe

theorem contextAvailability_eq_available (hmin : 1 ≤ minimum) :
    (contextAvailability limit (.ollama worker) minimum).result answer = .ok .available ↔
      ∃ configuration resident,
        Delivers limit (answered answer ⟨.ollama worker, .show worker.model⟩) configuration ∧
        Delivers limit (answered answer ⟨.ollama worker, .residents⟩) resident ∧
        ContextProven worker.model minimum configuration resident := by
  simp only [contextProven_iff, ← probe_eq_some]
  rw [contextAvailability, if_neg (by omega)]
  cases hshow : (Work.probe limit ⟨.ollama worker, .show worker.model⟩).result answer with
  | error e => simp [Program.result_bind_error hshow]
  | ok configuration =>
    rw [Program.result_bind_ok hshow]
    cases configuration with
    | none => simp
    | some configuration =>
      cases hverdict : configurationVerdict minimum configuration with
      | some verdict => simp [hverdict, configurationVerdict_ne_available hverdict]
      | none =>
        simp only [hverdict]
        cases hps : (Work.probe limit ⟨.ollama worker, .residents⟩).result answer with
        | error e => simp [Program.result_bind_error hps]
        | ok resident =>
          rw [Program.result_bind_ok hps]
          cases resident <;> simp [hverdict]

/-! Order. -/

theorem residentsProve_perm {models models' : List Json} (h : models.Perm models') :
    ResidentsProve model minimum models ↔ ResidentsProve model minimum models' := by
  have hfilter := (h.filter (Mentions model ·)).length_eq
  constructor
  · exact fun hp => ⟨fun i hi => hp.identified i (h.mem_iff.mpr hi), hfilter ▸ hp.single,
      fun i hi => hp.sized i (h.mem_iff.mpr hi)⟩
  · exact fun hp => ⟨fun i hi => hp.identified i (h.mem_iff.mp hi), hfilter ▸ hp.single,
      fun i hi => hp.sized i (h.mem_iff.mp hi)⟩

theorem configuresContext_perm {parameters parameters' : Str}
    (h : (splitLines parameters).Perm (splitLines parameters')) :
    ConfiguresContext minimum parameters ↔ ConfiguresContext minimum parameters' := by
  have hfilter := h.filter (fun line => (split line).head? = some numCtx)
  unfold ConfiguresContext
  constructor
  · rintro ⟨line, value, hline, hrest⟩
    rw [hline] at hfilter
    exact ⟨line, value, List.perm_singleton.mp hfilter.symm, hrest⟩
  · rintro ⟨line, value, hline, hrest⟩
    rw [hline] at hfilter
    exact ⟨line, value, List.perm_singleton.mp hfilter, hrest⟩

/-- Two `/api/show` documents with the same lines. -/
def SameLines (document document' : List (Str × Json)) : Prop :=
  ∃ parameters parameters', get document (str "parameters") = some (.string parameters) ∧
    get document' (str "parameters") = some (.string parameters') ∧
    (splitLines parameters).Perm (splitLines parameters')

/-- Two `/api/ps` documents with the same entries. -/
def SameEntries (document document' : List (Str × Json)) : Prop :=
  ∃ models models', get document (str "models") = some (.list models) ∧
    get document' (str "models") = some (.list models') ∧ models.Perm models'

theorem contextProven_perm {configuration configuration' resident resident' : List (Str × Json)}
    (hlines : SameLines configuration configuration') (hentries : SameEntries resident resident') :
    ContextProven model minimum configuration resident ↔
      ContextProven model minimum configuration' resident' := by
  obtain ⟨parameters, parameters', hget, hget', hlines⟩ := hlines
  obtain ⟨models, models', hmodels, hmodels', hentries⟩ := hentries
  have hc := @configuresContext_perm minimum _ _ hlines
  have hr := @residentsProve_perm model minimum _ _ hentries
  constructor
  · rintro ⟨⟨p, hp, hcp⟩, m, hm, hrm⟩
    obtain rfl : parameters = p := by simpa [hget] using hp
    obtain rfl : models = m := by simpa [hmodels] using hm
    exact ⟨⟨parameters', hget', hc.mp hcp⟩, models', hmodels', hr.mp hrm⟩
  · rintro ⟨⟨p, hp, hcp⟩, m, hm, hrm⟩
    obtain rfl : parameters' = p := by simpa [hget'] using hp
    obtain rfl : models' = m := by simpa [hmodels'] using hm
    exact ⟨⟨parameters, hget, hc.mpr hcp⟩, models, hmodels, hr.mpr hrm⟩

theorem delivers_inj {a : Except Fault HttpResponse} {document' : List (Str × Json)}
    (h : Delivers limit a document) (h' : Delivers limit a document') : document = document' := by
  obtain ⟨response, rfl, -, -, hbody⟩ := h
  obtain ⟨response', hresponse, -, -, hbody'⟩ := h'
  obtain rfl : response = response' := by simpa using hresponse
  exact Except.ok.inj (hbody.symm.trans hbody')

/-- The context of a worker of Ollama is available exactly where both answers prove it; neither the
order of the lines nor that of the resident models counts. -/
theorem context_available_iff (limit : ℕ) (worker : OllamaWorker) (hmin : 1 ≤ minimum)
    (answer : ∀ query, Query.Answer query) :
    ((contextAvailability limit (.ollama worker) minimum).result answer = .ok .available ↔
      ∃ configuration resident,
        Delivers limit (answered answer ⟨.ollama worker, .show worker.model⟩) configuration ∧
        Delivers limit (answered answer ⟨.ollama worker, .residents⟩) resident ∧
        ContextProven worker.model minimum configuration resident) ∧
    ∀ answer' configuration configuration' resident resident',
      Delivers limit (answered answer ⟨.ollama worker, .show worker.model⟩) configuration →
      Delivers limit (answered answer' ⟨.ollama worker, .show worker.model⟩) configuration' →
      Delivers limit (answered answer ⟨.ollama worker, .residents⟩) resident →
      Delivers limit (answered answer' ⟨.ollama worker, .residents⟩) resident' →
      SameLines configuration configuration' → SameEntries resident resident' →
      ((contextAvailability limit (.ollama worker) minimum).result answer = .ok .available ↔
        (contextAvailability limit (.ollama worker) minimum).result answer' = .ok .available) := by
  refine ⟨contextAvailability_eq_available hmin, ?_⟩
  intro answer' configuration configuration' resident resident' hc hc' hr hr' hlines hentries
  have hproven := @contextProven_perm worker.model minimum _ _ _ _ hlines hentries
  rw [contextAvailability_eq_available hmin, contextAvailability_eq_available hmin]
  constructor
  · rintro ⟨c, r, hdc, hdr, h⟩
    obtain rfl := delivers_inj hc hdc
    obtain rfl := delivers_inj hr hdr
    exact ⟨configuration', resident', hc', hr', hproven.mp h⟩
  · rintro ⟨c, r, hdc, hdr, h⟩
    obtain rfl := delivers_inj hc' hdc
    obtain rfl := delivers_inj hr' hdr
    exact ⟨configuration, resident, hc, hr, hproven.mpr h⟩

def sampleOllama : OllamaWorker := ⟨str "http://127.0.0.1:11434", str "m"⟩

/-- A response of status 200 with this body. -/
def plainResponse (body : Str) : HttpResponse := ⟨200, none, none, [utf8 body], none, none⟩

/-- A worker that has its model resident, with context to spare. -/
def sampleAnswers (completion : Str) : ∀ query, Query.Answer query
  | .send request => match request.call with
    | .models => .ok (plainResponse (str "\x7b\"data\":[\x7b\"id\":\"m\"\x7d]\x7d"))
    | .show _ => .ok (plainResponse (str "\x7b\"parameters\":\"stop x\\nnum_ctx 32768\"\x7d"))
    | .residents => .ok (plainResponse
        (str "\x7b\"models\":[\x7b\"name\":\"m\",\"context_length\":40000\x7d]\x7d"))
    | .completion _ => .ok (plainResponse completion)
  | .monotonic => (0 : ℚ)
  | .client => (none : Option Fault)

theorem context_available_sample :
    (contextAvailability 100 (.ollama sampleOllama) 32768).result (sampleAnswers []) =
        .ok .available ∧
      ∃ configuration resident, ContextProven (str "m") 32768 configuration resident ∧
        Delivers 100 (answered (sampleAnswers []) ⟨.ollama sampleOllama, .residents⟩) resident := by
  have hrun : (contextAvailability 100 (.ollama sampleOllama) 32768).result (sampleAnswers []) =
      .ok .available := by decide +kernel
  obtain ⟨configuration, resident, -, hresident, hproven⟩ :=
    (context_available_iff 100 sampleOllama (by decide) (sampleAnswers [])).1.mp hrun
  exact ⟨hrun, configuration, resident, hproven, hresident⟩

end Gateway
