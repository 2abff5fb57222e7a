import Gateway.Contracts.Digest
import Gateway.Contracts.Spelling

/-! `InferenceRequest.model_validate`: the request a document is read as, field by field. -/
namespace Gateway

open Json (get keys)

/-- `Decimal(str(float(value)))` of a finite number, for the float a strict field holds. -/
structure FloatText where
  text : Decimal → Decimal
  constructible : ∀ d, (text d).Constructible
  congr : ∀ d e, d.toRat = e.toRat → (text d).toRat = (text e).toRat
  /-- `float(repr(x)) == x`. -/
  roundTrip : ∀ d, (text (text d)).toRat = (text d).toRat

/-- What the libraries read a field as: `strict=True` of pydantic, by the type declared, and
`datetime.strptime` of a text of the timestamp's shape. -/
structure FieldReaders extends FloatText where
  strictStr : Json → Option Str
  strictInt : Json → Option ℤ
  strictFloat : Json → Option Decimal
  strictList : Json → Option (List Json)
  strictDict : Json → Option (List (Str × Json))
  literalTrue : Json → Option Bool
  strptime : Str → Bool
  /-- A strict `str` is valid Unicode. -/
  strictStr_eq_some : ∀ {v s}, strictStr v = some s ↔ v = .string s ∧ Scalars s
  /-- Neither `True` nor a `Decimal` is a strict `int`. -/
  strictInt_eq_some : ∀ {v n}, strictInt v = some n ↔ v = .int n
  /-- A strict `float` takes an integer too, and whatever converts itself to a float. -/
  strictFloat_some : ∀ {v d}, strictFloat v = some d → ∃ e, v.number? = some e.toRat ∧ d = text e
  strictFloat_number : ∀ {v : Json} {q}, v.number? = some q → 0 ≤ q → q ≤ 1 →
    ∃ e, strictFloat v = some (text e) ∧ e.toRat = q
  strictList_eq_some : ∀ {v vs}, strictList v = some vs ↔ v = .list vs
  /-- `dict[str, Any]`. -/
  strictDict_eq_some : ∀ {v fields}, strictDict v = some fields ↔
    v = .dict fields ∧ ∀ k ∈ keys fields, Scalars k
  literalTrue_true : literalTrue (.bool true) = some true
  /-- A literal is found by equality, and `1 == True`. -/
  literalTrue_some : ∀ {v b}, literalTrue v = some b →
    b = true ∧ (v = .bool true ∨ v.number? = some 1)
  strptime_ascii : ∀ e : Expiry, Template.Ascii e.text → strptime e.text = true

/-! Fields. -/

/-- `extra="forbid"`: a dict with every required field, and no field but these and the optional. -/
def modelFields (required optional : List Str) : Json → Option (List (Str × Json))
  | .dict fields =>
    if (∀ k ∈ required, k ∈ keys fields) ∧ ∀ k ∈ keys fields, k ∈ required ∨ k ∈ optional then
      some fields
    else none
  | _ => none

/-- The value of a field, if it is of the type and passes the constraints. -/
def modelField {α : Type} (read : Json → Option α) (accepted : α → Bool)
    (fields : List (Str × Json)) (key : Str) : Option α :=
  ((get fields key).bind read).filter accepted

/-- A strict `list` of what `read` takes. -/
def FieldReaders.items {α : Type} (readers : FieldReaders) (read : Json → Option α) (v : Json) :
    Option (List α) :=
  (readers.strictList v).bind (List.mapM read)

/-- A strict `str` with `validate_request_expiry`. -/
def FieldReaders.expiry (readers : FieldReaders) (v : Json) : Option Expiry :=
  ((readers.strictStr v).bind (fun s => (validateRequestExpiry s).toOption)).filter
    (fun e => readers.strptime e.text)

/-! The models. -/

def TaskReference.modelValidate (readers : FieldReaders) (document : Json) : Option TaskReference := do
  let fields ← modelFields [str "id", str "version"] [] document
  let id ← modelField readers.strictStr
    (fun s => 1 ≤ s.length && s.length ≤ 128 && taskIdPattern s) fields (str "id")
  let version ← modelField readers.strictInt (fun n => 1 ≤ n && n ≤ 2147483647) fields
    (str "version")
  return ⟨id, version⟩

def Requirements.modelValidate (readers : FieldReaders) (document : Json) : Option Requirements := do
  let fields ← modelFields [str "input_modalities", str "output_media_type",
    str "structured_output", str "max_output_tokens"] [] document
  let modalities ← modelField (readers.items readers.strictStr) (· = [str "text"]) fields
    (str "input_modalities")
  let mediaType ← modelField readers.strictStr (· = str "application/json") fields
    (str "output_media_type")
  let structured ← modelField readers.literalTrue (fun _ => true) fields (str "structured_output")
  let tokens ← modelField readers.strictInt (fun n => 1 ≤ n && n ≤ Gateway.maxOutputTokens) fields
    (str "max_output_tokens")
  return ⟨modalities, mediaType, structured, tokens⟩

def GenerationMessage.modelValidate (readers : FieldReaders) (document : Json) :
    Option GenerationMessage := do
  let fields ← modelFields [str "role", str "content"] [] document
  let role ← modelField readers.strictStr (fun s => s = str "system" || s = str "user") fields
    (str "role")
  let content ← modelField readers.strictStr
    (fun s => 1 ≤ s.length && s.length ≤ maxMessageChars) fields (str "content")
  return ⟨role, content⟩

/-- An absent seed is `None`; `reject_explicit_null_seed` leaves no other way to have none. -/
def seedField (readers : FieldReaders) (fields : List (Str × Json)) : Option (Option ℤ) :=
  match get fields (str "seed") with
  | none => some none
  | some _ =>
    (modelField readers.strictInt (fun n => 0 ≤ n && n ≤ 9223372036854775807) fields
      (str "seed")).map some

/-- `validate_generation_shape` comes last, on the model as it is built. -/
def Generation.modelValidate (checkSchema : Json → Bool) (readers : FieldReaders) (document : Json) :
    Option Generation := do
  let fields ← modelFields [str "messages", str "temperature", str "response_schema"] [str "seed"]
    document
  let messages ← modelField (readers.items (GenerationMessage.modelValidate readers))
    (fun ms => ms.length = 2) fields (str "messages")
  let temperature ← modelField readers.strictFloat (fun d => 0 ≤ d.toRat && d.toRat ≤ 1) fields
    (str "temperature")
  let seed ← seedField readers fields
  let schema ← modelField readers.strictDict (fun _ => true) fields (str "response_schema")
  match validateGenerationShape checkSchema (messages.map GenerationMessage.role) schema with
  | .ok () => return ⟨messages, temperature, seed, schema⟩
  | .error _ => none

def InferenceRequest.modelValidate (checkSchema : Json → Bool) (readers : FieldReaders)
    (document : Json) : Option InferenceRequest := do
  let fields ← modelFields [str "protocol_version", str "request_id", str "request_expires_at",
    str "task", str "requirements", str "generation"] [] document
  let version ← modelField readers.strictInt (· = Gateway.protocolVersion) fields
    (str "protocol_version")
  let requestId ← modelField readers.strictStr uuidV4 fields (str "request_id")
  let expiry ← modelField readers.expiry (fun _ => true) fields (str "request_expires_at")
  let task ← modelField (TaskReference.modelValidate readers) (fun _ => true) fields (str "task")
  let requirements ← modelField (Requirements.modelValidate readers) (fun _ => true) fields
    (str "requirements")
  let generation ← modelField (Generation.modelValidate checkSchema readers) (fun _ => true) fields
    (str "generation")
  return ⟨version, requestId, expiry, task, requirements, generation⟩

/-! What each reader has found. -/

section Readers

variable {α : Type} {read : Json → Option α} {accepted : α → Bool} {fields : List (Str × Json)}
variable {required optional : List Str} {key : Str} {a : α} {v : Json}

theorem modelFields_eq_some : modelFields required optional v = some fields ↔ v = .dict fields ∧
    (∀ k ∈ required, k ∈ keys fields) ∧ ∀ k ∈ keys fields, k ∈ required ∨ k ∈ optional := by
  cases v with
  | dict fs =>
    rw [modelFields, Json.dict.injEq]
    split_ifs with h
    · rw [Option.some.injEq]
      constructor
      · rintro rfl
        exact ⟨rfl, h⟩
      · exact fun h => h.1
    · simp only [false_iff]
      rintro ⟨rfl, hk⟩
      exact h hk
  | _ => simp [modelFields]

theorem modelField_eq_some : modelField read accepted fields key = some a ↔
    (∃ v, get fields key = some v ∧ read v = some a) ∧ accepted a = true := by
  simp [modelField, Option.filter_eq_some_iff, Option.bind_eq_some_iff]

theorem mapM_eq_some {vs : List Json} {items : List α} :
    vs.mapM read = some items ↔ List.Forall₂ (fun v a => read v = some a) vs items := by
  induction vs generalizing items with
  | nil => simp [eq_comm]
  | cons v vs ih =>
    simp only [List.mapM_cons, bind, Option.bind_eq_some_iff, pure, Option.some.injEq,
      List.forall₂_cons_left_iff, ih]
    constructor
    · rintro ⟨a, ha, as, has, rfl⟩
      exact ⟨a, as, ha, has, rfl⟩
    · rintro ⟨a, as, ha, has, rfl⟩
      exact ⟨a, ha, as, has, rfl⟩

theorem FieldReaders.items_eq_some {readers : FieldReaders} {items : List α} :
    readers.items read v = some items ↔
      ∃ vs, v = .list vs ∧ List.Forall₂ (fun v a => read v = some a) vs items := by
  rw [FieldReaders.items, Option.bind_eq_some_iff]
  simp only [readers.strictList_eq_some, mapM_eq_some]

theorem FieldReaders.expiry_eq_some {readers : FieldReaders} {e : Expiry} :
    readers.expiry v = some e ↔
      v = .string e.text ∧ Scalars e.text ∧ readers.strptime e.text = true := by
  rw [expiry, Option.filter_eq_some_iff, Option.bind_eq_some_iff]
  constructor
  · rintro ⟨⟨s, hs, he⟩, hp⟩
    obtain ⟨rfl, hscalar⟩ := readers.strictStr_eq_some.mp hs
    cases hvalid : validateRequestExpiry s with
    | error e' =>
      rw [hvalid] at he
      cases he
    | ok e' =>
      rw [hvalid] at he
      obtain rfl := Option.some.inj he
      obtain rfl := validateRequestExpiry_eq_ok.mp hvalid
      exact ⟨rfl, hscalar, hp⟩
  · rintro ⟨rfl, hscalar, hp⟩
    refine ⟨⟨e.text, readers.strictStr_eq_some.mpr ⟨rfl, hscalar⟩, ?_⟩, hp⟩
    rw [validateRequestExpiry_eq_ok.mpr rfl]
    rfl

end Readers

end Gateway
