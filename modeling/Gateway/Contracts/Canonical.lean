import Gateway.Contracts.Json

/-! The canonical document of a value, and that the encoder writes exactly it. -/
namespace Gateway

namespace Json

variable {v w : Json} {vs ws : List Json} {fs gs : List (Str × Json)}

theorem parsedItems_iff : ParsedItems vs ↔ ∀ v ∈ vs, Parsed v := by
  induction vs with
  | nil => simp [ParsedItems]
  | cons v vs ih => simp [ParsedItems, ih]

theorem parsedFields_iff : ParsedFields fs ↔ ∀ f ∈ fs, Scalars f.1 ∧ Parsed f.2 := by
  induction fs with
  | nil => simp [ParsedFields]
  | cons f fs ih => simp [ParsedFields, ih, and_assoc]

/-! Sorting by key. -/

section Sorting

variable {α β : Type*} {xs ys : List (Str × α)}

instance : Std.Total (fun f g : Str × α => f.1 ≤ g.1) := ⟨fun f g => le_total f.1 g.1⟩

instance : IsTrans (Str × α) (fun f g => f.1 ≤ g.1) := ⟨fun _ _ _ => le_trans⟩

theorem sortFields_perm (xs : List (Str × α)) : (sortFields xs).Perm xs :=
  List.perm_insertionSort _ xs

theorem sortFields_map (g : α → β) (xs : List (Str × α)) :
    sortFields (xs.map (fun f => (f.1, g f.2))) = (sortFields xs).map (fun f => (f.1, g f.2)) :=
  (List.map_insertionSort (fun f g : Str × α => f.1 ≤ g.1) (fun f g : Str × β => f.1 ≤ g.1)
    (fun f => (f.1, g f.2)) xs (fun _ _ _ _ => Iff.rfl)).symm

/-- Distinct keys leave one sorted order. -/
theorem sortFields_congr (hn : (xs.map Prod.fst).Nodup) (h : xs.Perm ys) :
    sortFields xs = sortFields ys := by
  have hperm : (sortFields xs).Perm (sortFields ys) :=
    (sortFields_perm xs).trans (h.trans (sortFields_perm ys).symm)
  refine List.Perm.eq_of_pairwise ?_ (List.pairwise_insertionSort _ xs)
    (List.pairwise_insertionSort _ ys) hperm
  intro f g hf hg hfg hgf
  have hf' : f ∈ xs := (sortFields_perm xs).mem_iff.mp hf
  have hg' : g ∈ xs := (sortFields_perm xs).mem_iff.mp (hperm.mem_iff.mpr hg)
  exact List.inj_on_of_nodup_map hn hf' hg' (le_antisymm hfg hgf)

end Sorting

/-! The canonical document. -/

mutual

/-- Keys sorted, numbers in their one spelling. -/
def canonText : Json → JsonText
  | .null => .null
  | .bool b => .bool b
  | .int n => .number (numberToken (.ofInt n))
  | .decimal d => .number (numberToken d)
  | .string s => .string s
  | .list items => .array (canonItems items)
  | .dict fields => .object (sortFields (canonFields fields))

def canonItems : List Json → List JsonText
  | [] => []
  | v :: vs => canonText v :: canonItems vs

def canonFields : List (Str × Json) → List (Str × JsonText)
  | [] => []
  | (key, v) :: fields => (key, canonText v) :: canonFields fields

end

theorem canonItems_eq (vs : List Json) : canonItems vs = vs.map canonText := by
  induction vs with
  | nil => rfl
  | cons v vs ih => rw [canonItems, ih, List.map_cons]

theorem canonFields_eq (fs : List (Str × Json)) :
    canonFields fs = fs.map (fun f => (f.1, canonText f.2)) := by
  induction fs with
  | nil => rfl
  | cons f fs ih => rw [canonFields, ih, List.map_cons]

theorem canonText_dict (fs : List (Str × Json)) :
    canonText (.dict fs) = .object ((sortFields fs).map (fun f => (f.1, canonText f.2))) := by
  rw [canonText, canonFields_eq, sortFields_map]

theorem canonText_list (vs : List Json) : canonText (.list vs) = .array (vs.map canonText) := by
  rw [canonText, canonItems_eq]

theorem ofInt_toRat (n : ℤ) : (Decimal.ofInt n).toRat = n := by
  rw [Decimal.toRat, Decimal.magnitude, Decimal.ofInt]
  simp only [zpow_zero, mul_one, decide_eq_true_eq]
  split_ifs with hn
  · rw [← Int.cast_natCast, ← Int.cast_neg]
    congr 1
    omega
  · rw [← Int.cast_natCast]
    congr 1
    omega

theorem canonText_number {q : ℚ} (h : v.number? = some q) :
    ∃ d : Decimal, d.toRat = q ∧ canonText v = .number (numberToken d) := by
  cases v <;> simp only [number?, Option.some.injEq, reduceCtorEq] at h
  case int n => exact ⟨.ofInt n, (ofInt_toRat n).trans h, rfl⟩
  case decimal d => exact ⟨d, h, rfl⟩

/-! The encoder writes the canonical document. -/

theorem wellFormedItems_iff {ts : List JsonText} :
    JsonText.WellFormedItems ts ↔ ∀ t ∈ ts, t.WellFormed := by
  induction ts with
  | nil => simp [JsonText.WellFormedItems]
  | cons t ts ih => simp [JsonText.WellFormedItems, ih]

theorem wellFormedMembers_iff {ms : List (Str × JsonText)} :
    JsonText.WellFormedMembers ms ↔ ∀ m ∈ ms, m.2.WellFormed := by
  induction ms with
  | nil => simp [JsonText.WellFormedMembers]
  | cons m ms ih => simp [JsonText.WellFormedMembers, ih]

theorem canonText_wellFormed (v : Json) : (canonText v).WellFormed := by
  induction v using induction with
  | null => trivial
  | bool b => trivial
  | int n => exact numberToken_valid _
  | decimal d => exact numberToken_valid _
  | string s => trivial
  | list items ih =>
    rw [canonText_list, JsonText.WellFormed, wellFormedItems_iff]
    simpa using ih
  | dict fields ih =>
    rw [canonText_dict, JsonText.WellFormed, wellFormedMembers_iff]
    intro m hm
    obtain ⟨f, hf, rfl⟩ := List.mem_map.mp hm
    exact ih f ((sortFields_perm fields).mem_iff.mp hf)

theorem ofInt_constructible {n : ℤ} (h : (Decimal.ofInt n).magnitude ≤ acceptBound) :
    (Decimal.ofInt n).Constructible := by
  refine ⟨by simp [Decimal.ofInt, Decimal.minEtiny], ?_⟩
  split_ifs with h0
  · simp [Decimal.ofInt, Decimal.maxEmax]
  · have hb := maxFiniteFull_bound
    have hlt := hb.half_lt
    rw [maxFiniteFull_magnitude] at hlt
    have hpow := ((Decimal.pow_adjusted_le h0).trans h).trans_lt hlt
    have hadj := (zpow_lt_zpow_iff_right₀ (by norm_num : (1 : ℚ) < 10)).mp hpow
    have hmax : maxFiniteFull.adjusted + 1 = 309 := by
      rw [hb.adjusted_eq]
      rfl
    rw [hmax] at hadj
    have : (309 : ℤ) ≤ Decimal.maxEmax := by decide
    omega

theorem renderItems_eq (ts : List JsonText) : JsonText.renderItems ts = ts.map JsonText.render := by
  induction ts with
  | nil => rfl
  | cons t ts ih => rw [JsonText.renderItems, ih, List.map_cons]

theorem renderMembers_eq (ms : List (Str × JsonText)) :
    JsonText.renderMembers ms =
      ms.map (fun m => JsonText.quote m.1 ++ str ":" ++ m.2.render) := by
  induction ms with
  | nil => rfl
  | cons m ms ih =>
    rw [JsonText.renderMembers, ih, List.map_cons]
    simp [str]

theorem encodeItems_eq (h : ∀ v ∈ vs, encodeJson true v = .ok (canonText v).render) :
    encodeItems true vs = .ok (vs.map (fun v => (canonText v).render)) := by
  induction vs with
  | nil => rfl
  | cons v vs ih =>
    rw [encodeItems, h v (by simp), ih (fun w hw => h w (List.mem_cons_of_mem _ hw))]
    rfl

theorem encodeFields_eq (sortKeys : Bool) (fs : List (Str × Json)) :
    encodeFields sortKeys fs = fs.map (fun f => (f.1, encodeJson sortKeys f.2)) := by
  induction fs with
  | nil => rfl
  | cons f fs ih => rw [encodeFields, ih, List.map_cons]

theorem encodeMembers_eq {g : Json → Str} (h : ∀ f ∈ fs, encodeJson true f.2 = .ok (g f.2)) :
    encodeMembers (fs.map (fun f => (f.1, encodeJson true f.2))) =
      .ok (fs.map (fun f => JsonText.quote f.1 ++ str ":" ++ g f.2)) := by
  induction fs with
  | nil => rfl
  | cons f fs ih =>
    have hrest := ih (fun x hx => h x (List.mem_cons_of_mem _ hx))
    rw [encodeMembers] at hrest ⊢
    rw [List.map_cons, List.mapM_cons, h f (by simp), hrest]
    rfl

theorem encodeJson_canonText (hv : Parsed v) : encodeJson true v = .ok (canonText v).render := by
  induction v using induction with
  | null => rfl
  | bool b => rfl
  | int n => exact encodeJsonNumber_eq (ofInt_constructible hv) hv
  | decimal d => exact encodeJsonNumber_eq hv.1 hv.2
  | string s => rfl
  | list items ih =>
    have hitems := parsedItems_iff.mp hv
    rw [encodeJson, encodeItems_eq (fun v hm => ih v hm (hitems v hm)), canonText_list,
      JsonText.render, renderItems_eq, List.map_map]
    rfl
  | dict fields ih =>
    have hfields := parsedFields_iff.mp hv.2
    have hsorted : ∀ f ∈ sortFields fields, encodeJson true f.2 = .ok (canonText f.2).render := by
      intro f hf
      have hf' := (sortFields_perm fields).mem_iff.mp hf
      exact ih f hf' (hfields f hf').2
    rw [encodeJson, encodeFields_eq, if_pos rfl, sortFields_map,
      encodeMembers_eq (g := fun v => (canonText v).render) hsorted, canonText_dict,
      JsonText.render, renderMembers_eq, List.map_map]
    rfl

end Json

end Gateway
