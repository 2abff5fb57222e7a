import Gateway.Foundation.JsonClosed
import Gateway.Contracts.RoundTrip

/-! The values a parsed document holds: those of the protocol, but for lone surrogates. -/
namespace Gateway.Json

mutual

/-- No string or key holds a lone surrogate. -/
def ScalarTexts : Json → Prop
  | .string s => Scalars s
  | .list items => ScalarTextsItems items
  | .dict fields => ScalarTextsFields fields
  | _ => True

def ScalarTextsItems : List Json → Prop
  | [] => True
  | v :: vs => ScalarTexts v ∧ ScalarTextsItems vs

def ScalarTextsFields : List (Str × Json) → Prop
  | [] => True
  | (key, v) :: fields => Scalars key ∧ ScalarTexts v ∧ ScalarTextsFields fields

end

theorem parsedItems_of_scalarTexts {vs : List Json} (h : ∀ v ∈ vs, ScalarTexts v → Parsed v)
    (hs : ScalarTextsItems vs) : ParsedItems vs := by
  induction vs with
  | nil => trivial
  | cons v vs ih =>
    exact ⟨h v (by simp) hs.1, ih (fun w hw => h w (List.mem_cons_of_mem _ hw)) hs.2⟩

theorem parsedFields_of_scalarTexts {fs : List (Str × Json)}
    (h : ∀ f ∈ fs, ScalarTexts f.2 → Parsed f.2) (hs : ScalarTextsFields fs) : ParsedFields fs := by
  induction fs with
  | nil => trivial
  | cons f fs ih =>
    exact ⟨hs.1, h f (by simp) hs.2.1, ih (fun g hg => h g (List.mem_cons_of_mem _ hg)) hs.2.2⟩

theorem toInt_magnitude {t : NumberToken} (h : t.isFloat = false) :
    (Decimal.ofInt t.toInt).magnitude = t.toDecimal.magnitude := by
  obtain ⟨negative, integer, fraction, exponent⟩ := t
  have hf : fraction = [] ∧ exponent = none := by simpa [NumberToken.isFloat] using h
  obtain ⟨rfl, rfl⟩ := hf
  cases negative <;> simp [Decimal.magnitude, Decimal.ofInt, NumberToken.toInt, NumberToken.toDecimal]

/-- Each hook of the parser returns protocol values. -/
theorem jsonHooks_closed : jsonHooks.Closed (fun v => ScalarTexts v → Parsed v) where
  null := fun _ => trivial
  bool := fun _ _ => trivial
  string := fun _ hs => hs
  array := fun _ hvs hs => parsedItems_of_scalarTexts hvs hs
  integer := by
    intro t v hf hv _
    obtain ⟨n, hn, rfl⟩ := map_eq_ok.mp hv
    obtain ⟨rfl, -, hle⟩ := parseJsonInteger_eq_ok.mp hn
    exact (toInt_magnitude hf).trans_le hle
  float := by
    intro t v hv _
    obtain ⟨d, hd, rfl⟩ := map_eq_ok.mp hv
    obtain ⟨rfl, hc, hle⟩ := parseExactJsonDecimal_eq_ok.mp hd
    exact ⟨hc, hle⟩
  constant := fun _ _ hv => by cases hv
  objectPairs := by
    intro kvs v hkvs hv
    change parseJsonObjectPairs kvs = .ok v at hv
    unfold parseJsonObjectPairs at hv
    split_ifs at hv with hn
    obtain rfl := Except.ok.inj hv
    exact fun hs => ⟨hn, parsedFields_of_scalarTexts hkvs hs⟩

theorem parsed_of_loads {recursionLimit : ℕ} {raw : Bytes} {v : Json}
    (h : loads recursionLimit raw = .ok v) (hs : ScalarTexts v) : Parsed v := by
  unfold loads jsonLoads at h
  split at h
  · cases h
  · exact JsonText.decode_closed jsonHooks_closed h hs

/-- A document comes out of the parser within the limits, as a dict of protocol values. -/
theorem parsed_of_parseJsonObject {recursionLimit : ℕ} {raw : Bytes} {v : Json}
    (h : parseJsonObject recursionLimit raw = .ok v) (hs : ScalarTexts v) :
    Parsed v ∧ nodes v ≤ maxJsonNodes ∧ height v ≤ maxJsonDepth := by
  unfold parseJsonObject at h
  split at h
  · cases h
  · rename_i value hload
    split at h
    · obtain ⟨u, hshape, he⟩ := bind_eq_ok.mp h
      obtain rfl := Except.ok.inj he
      exact ⟨parsed_of_loads hload hs, validateJsonShape_eq_ok.mp hshape⟩
    · cases h

/-- A value that occurs in a document, at any depth. -/
inductive Inside : Json → Json → Prop
  | self (v : Json) : Inside v v
  | item {v w : Json} {items : List Json} (hw : w ∈ items) (h : Inside v w) : Inside v (.list items)
  | field {v : Json} {fields : List (Str × Json)} {f : Str × Json} (hf : f ∈ fields)
      (h : Inside v f.2) : Inside v (.dict fields)

theorem Inside.parsed {v doc : Json} (h : Inside v doc) (hp : Parsed doc) : Parsed v := by
  induction h with
  | self => exact hp
  | item hw _ ih => exact ih (parsed_item hp hw)
  | field hf _ ih => exact ih (parsed_field hp hf)

end Gateway.Json
