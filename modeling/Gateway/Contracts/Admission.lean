import Gateway.Contracts.Grammar

/-! The recursive validator accepts exactly the grammar, with the exact counts. -/
namespace Gateway

open Json (get keys)

variable {names : Option (List Str)} {fields : List (Str × Json)} {r r' : ℕ} {α β : Type}

/-! What a validation yields, from one counter to another. -/

def Yields (m : Validation α) (r : ℕ) (a : α) (r' : ℕ) : Prop := m.run r = .ok (a, r')

@[simp] theorem yields_pure {a b : α} : Yields (pure a) r b r' ↔ b = a ∧ r' = r := by
  change (Except.ok (a, r) : Except JsonError _) = .ok (b, r') ↔ _
  rw [Except.ok.injEq, Prod.mk.injEq, @eq_comm _ a, @eq_comm _ r]

@[simp] theorem yields_bind {m : Validation α} {f : α → Validation β} {b : β} :
    Yields (m >>= f) r b r' ↔ ∃ a s, Yields m r a s ∧ Yields (f a) s b r' := by
  rw [Yields, StateT.run_bind]
  cases h : m.run r with
  | error e => simp [Yields, h, bind, Except.bind]
  | ok p =>
    obtain ⟨a, s⟩ := p
    simp [Yields, h, bind, Except.bind, and_assoc]

@[simp] theorem yields_raise {e : JsonError} {a : α} : Yields (raise e) r a r' ↔ False := by
  simp [Yields, raise, StateT.lift, StateT.run, bind, Except.bind]

@[simp] theorem yields_ensure {b : Bool} {message : String} {u : Unit} :
    Yields (ensure b message) r u r' ↔ b = true ∧ r' = r := by
  cases b <;> simp [ensure]

@[simp] theorem yields_checkField {value : Option Json} {p : Json → Bool} {message : String}
    {u : Unit} :
    Yields (checkField value p message) r u r' ↔ (∀ v, value = some v → p v = true) ∧ r' = r := by
  simp [checkField, Option.all_eq_true]

@[simp] theorem yields_demand {value : Option α} {message : String} {a : α} :
    Yields (demand value message) r a r' ↔ value = some a ∧ r' = r := by
  cases value <;> simp [demand, eq_comm]

/-! Keys and fields. -/

theorem keysAre_iff {ks : List Str} :
    keysAre fields ks = true ↔ ∀ k, k ∈ keys fields ↔ k ∈ ks := by
  simp only [keysAre, Bool.and_eq_true, List.all_eq_true, decide_eq_true_eq]
  constructor
  · exact fun h k => ⟨h.1 k, h.2 k⟩
  · exact fun h => ⟨fun k hk => (h k).mp hk, fun k hk => (h k).mpr hk⟩

theorem asString?_eq_some {v : Json} {s : Str} : v.asString? = some s ↔ v = .string s := by
  cases v <;> simp [Json.asString?]

theorem asDict?_eq_some {v : Json} {fs : List (Str × Json)} : v.asDict? = some fs ↔ v = .dict fs := by
  cases v <;> simp [Json.asDict?]

theorem asList?_eq_some {v : Json} {vs : List Json} : v.asList? = some vs ↔ v = .list vs := by
  cases v <;> simp [Json.asList?]

theorem asInt?_eq_some {v : Json} {n : ℤ} : v.asInt? = some n ↔ v = .int n := by
  cases v <;> simp [Json.asInt?]

theorem isBool_iff {v : Json} : v.isBool = true ↔ ∃ b, v = .bool b := by
  cases v <;> simp [Json.isBool]

theorem hasText_iff {key text : Str} :
    hasText fields key text = true ↔ get fields key = some (.string text) := by
  simp [hasText, Option.bind_eq_some_iff, asString?_eq_some]

theorem mem_keys_iff {key : Str} : key ∈ keys fields ↔ (get fields key).isSome := by
  simp [keys, Json.get]

theorem isNullBranch_iff {v : Json} : v.isNullBranch = true ↔ NullBranch v := by
  unfold Json.isNullBranch NullBranch
  split
  · simp
  · rename_i h
    simp only [Bool.false_eq_true, false_iff]
    exact fun hv => h _ _ hv

theorem closedObject_iff {v : Json} : closedObject v = true ↔ ClosedObject v := by
  cases v <;> simp only [closedObject, ClosedObject, Json.dict.injEq, reduceCtorEq, false_and,
    exists_false, Bool.false_eq_true]
  case dict fs =>
    rw [exists_eq_left', Bool.and_eq_true, hasText_iff]
    refine and_congr_right fun _ => ?_
    cases h : get fs (str "additionalProperties") with
    | none => simp
    | some v => cases v <;> simp

/-! The checks of one node. -/

theorem firstUnsupported_eq_none :
    firstUnsupported fields = none ↔ ∀ k ∈ keys fields, k ∈ supportedSchemaKeywords := by
  rw [firstUnsupported, List.head?_eq_none_iff]
  constructor
  · intro h k hk
    by_contra hn
    have hmem : k ∈ (keys fields).filter (fun k => k ∉ supportedSchemaKeywords) := by
      simp [hk, hn]
    rw [← List.mem_insertionSort (· ≤ ·), h] at hmem
    simp at hmem
  · intro h
    rw [List.eq_nil_iff_forall_not_mem]
    intro k hk
    rw [List.mem_insertionSort, List.mem_filter] at hk
    simp [h k hk.1] at hk

theorem yields_validateKeywords {u : Unit} :
    Yields (validateKeywords fields) r u r' ↔
      (∀ k ∈ keys fields, k ∈ supportedSchemaKeywords) ∧ r' = r := by
  rw [← firstUnsupported_eq_none, validateKeywords]
  cases firstUnsupported fields <;> simp

theorem yields_validateType {u : Unit} :
    Yields (validateType fields) r u r' ↔
      (∀ v, getNonNull fields (str "type") = some v →
        ∃ t ∈ supportedSchemaTypes, v = .string t) ∧ r' = r := by
  rw [validateType, yields_checkField]
  simp only [Option.any_eq_true, asString?_eq_some, decide_eq_true_eq]
  refine and_congr_left fun _ => forall₂_congr fun v _ => ?_
  exact exists_congr fun t => and_comm

theorem yields_validateAdditional {u : Unit} :
    Yields (validateAdditional fields) r u r' ↔
      (∀ v, getNonNull fields (str "additionalProperties") = some v → ∃ b, v = .bool b) ∧
        r' = r := by
  simp only [validateAdditional, yields_checkField, isBool_iff]

theorem yields_validateEnum {u : Unit} :
    Yields (validateEnum fields) r u r' ↔
      (∀ v, getNonNull fields (str "enum") = some v → ∃ items, v = .list items ∧
        1 ≤ items.length ∧ items.length ≤ maxSchemaEnumValues ∧
        ∀ i ∈ items, i.isContainer = false) ∧ r' = r := by
  simp [validateEnum, Option.any_eq_true, asList?_eq_some, and_assoc]

theorem yields_validateBound {key : Str} {u : Unit} :
    Yields (validateBound fields key) r u r' ↔
      (∀ v, getNonNull fields key = some v → ∃ n, v = .int n) ∧ r' = r := by
  simp [validateBound, Option.isSome_iff_exists, asInt?_eq_some]

theorem yields_validateNoArray {u : Unit} :
    Yields (validateNoArray fields) r u r' ↔
      (∀ k ∈ [str "items", str "minItems", str "maxItems"], getNonNull fields k = none) ∧
        r' = r := by
  simp only [validateNoArray, yields_ensure, List.all_eq_true, Option.isNone_iff_eq_none]

theorem yields_validateArrayBounds {item : List (Str × Json)} {n : ℕ} :
    Yields (validateArrayBounds fields) r (item, n) r' ↔
      (get fields (str "items") = some (.dict item) ∧ get fields (str "maxItems") = some (.int n) ∧
        n ≤ maxSchemaArrayItems ∧
        ∀ v, getNonNull fields (str "minItems") = some v → ∃ m : ℕ, v = .int m ∧ m ≤ n) ∧
      r' = r := by
  simp only [validateArrayBounds, yields_bind, yields_demand, yields_ensure, yields_checkField,
    yields_pure, Option.bind_eq_some_iff, asDict?_eq_some, asInt?_eq_some, Bool.and_eq_true,
    decide_eq_true_eq, Option.any_eq_true, exists_eq_right, Prod.mk.injEq]
  constructor
  · rintro ⟨fs, s, ⟨hitem, rfl⟩, i, s, ⟨hmax, rfl⟩, -, s, ⟨⟨h0, hle⟩, rfl⟩, -, s, ⟨hmin, rfl⟩,
      ⟨rfl, rfl⟩, rfl⟩
    obtain ⟨n, rfl⟩ := Int.eq_ofNat_of_zero_le h0
    refine ⟨⟨hitem, hmax, by simpa using hle, fun v hv => ?_⟩, rfl⟩
    obtain ⟨m, rfl, hm0, hmn⟩ := hmin v hv
    obtain ⟨m, rfl⟩ := Int.eq_ofNat_of_zero_le hm0
    exact ⟨m, rfl, by simpa using hmn⟩
  · rintro ⟨⟨hitem, hmax, hle, hmin⟩, rfl⟩
    refine ⟨item, r', ⟨hitem, rfl⟩, n, r', ⟨hmax, rfl⟩, (), r', ⟨⟨by omega, by omega⟩, rfl⟩, (), r',
      ⟨fun v hv => ?_, rfl⟩, ⟨rfl, by simp⟩, rfl⟩
    obtain ⟨m, rfl, hm⟩ := hmin v hv
    exact ⟨m, rfl, by omega, by omega⟩

theorem referenceTarget_eq_some {s name : Str} :
    referenceTarget s = some name ↔ s = referencePrefix ++ name := by
  rw [referenceTarget]
  split_ifs with h
  · obtain ⟨t, rfl⟩ := List.isPrefixOf_iff_prefix.mp h
    simp
  · simp only [false_iff]
    rintro rfl
    exact h (List.isPrefixOf_iff_prefix.mpr (List.prefix_append _ _))

theorem yields_countReference {u : Unit} :
    Yields countReference r u r' ↔ r' = r + 1 ∧ r + 1 ≤ maxPassageReferences := by
  have hget : ∀ n s, Yields (getThe ℕ : Validation ℕ) r n s ↔ n = r ∧ s = r := by
    intro n s
    change (Except.ok (r, r) : Except JsonError _) = .ok (n, s) ↔ _
    rw [Except.ok.injEq, Prod.mk.injEq, @eq_comm _ r, @eq_comm _ r]
  have hset : ∀ k u s, Yields (set k : Validation PUnit) r u s ↔ s = k := by
    intro k u s
    change (Except.ok (PUnit.unit, k) : Except JsonError _) = .ok (u, s) ↔ _
    rw [Except.ok.injEq, Prod.mk.injEq, @eq_comm _ k]
    simp
  simp only [countReference, yields_bind, hget, yields_ensure, decide_eq_true_eq]
  constructor
  · rintro ⟨n, s, ⟨rfl, rfl⟩, u, t, ht, hle, rfl⟩
    exact ⟨(hset _ _ _).mp ht, hle⟩
  · rintro ⟨rfl, hle⟩
    exact ⟨r, r, ⟨rfl, rfl⟩, PUnit.unit, r + 1, (hset _ _ _).mpr rfl, hle, rfl⟩

theorem yields_validateReference {owned : List Str} {m v : ℕ} :
    Yields (validateReference owned fields m) r v r' ↔
      ReferenceNode owned fields ∧ v = m ∧ r' = r + 1 ∧ r + 1 ≤ maxPassageReferences := by
  have htarget : (((get fields (str "$ref")).bind Json.asString?).bind referenceTarget).any
      (· ∈ owned) = true ↔
      ∃ name ∈ owned, get fields (str "$ref") = some (.string (referencePrefix ++ name)) := by
    simp only [Option.any_eq_true, Option.bind_eq_some_iff, asString?_eq_some,
      referenceTarget_eq_some, decide_eq_true_eq]
    constructor
    · rintro ⟨name, ⟨s, ⟨v, hv, rfl⟩, rfl⟩, hname⟩
      exact ⟨name, hname, hv⟩
    · rintro ⟨name, hname, hv⟩
      exact ⟨name, ⟨_, ⟨_, hv, rfl⟩, rfl⟩, hname⟩
  simp only [validateReference, yields_bind, yields_ensure, Bool.and_eq_true, htarget,
    yields_countReference, yields_pure, keysAre_iff, List.mem_singleton, ReferenceNode]
  constructor
  · rintro ⟨-, s, ⟨href, rfl⟩, -, s, ⟨rfl, hle⟩, rfl, rfl⟩
    exact ⟨href, rfl, rfl, hle⟩
  · rintro ⟨href, rfl, rfl, hle⟩
    exact ⟨(), r, ⟨href, rfl⟩, (), r + 1, ⟨rfl, hle⟩, rfl, rfl⟩

theorem get_withoutDefinitions {key : Str} (h : key ≠ str "$defs") :
    get (withoutDefinitions fields) key = get fields key := by
  unfold Json.get withoutDefinitions
  rw [List.find?_filter]
  congr 1
  congr 1
  funext f
  by_cases hf : f.1 = key <;> simp [hf, h]

theorem isBoundedRootObjectChoice_iff :
    isBoundedRootObjectChoice fields = true ↔ ClosedChoice (withoutDefinitions fields) := by
  rw [isBoundedRootObjectChoice, Bool.and_eq_true, ClosedChoice,
    get_withoutDefinitions (by decide)]
  refine and_congr ?_ ?_
  · rw [keysAre_iff]
    simp only [List.mem_singleton, withoutDefinitions]
  · split
    · rename_i branches hget
      simp [hget, closedObject_iff, and_assoc]
    · rename_i hget
      simp only [Bool.false_eq_true, false_iff]
      rintro ⟨branches, hb, -⟩
      exact hget branches hb

/-- Without definitions the classification looks at the schema itself. -/
theorem isBoundedRootObjectChoice_self (h : get fields (str "$defs") = none) :
    isBoundedRootObjectChoice fields = true ↔ ClosedChoice fields := by
  have hself : withoutDefinitions fields = fields := by
    refine List.filter_eq_self.mpr (fun f hf => ?_)
    have hk : str "$defs" ∉ keys fields := by
      rw [mem_keys_iff, h]
      simp
    have hne : f.1 ≠ str "$defs" := fun he => hk (he ▸ List.mem_map_of_mem hf)
    simpa using hne
  rw [isBoundedRootObjectChoice_iff, hself]

theorem closedObject_not_null {v : Json} (h : ClosedObject v) : ¬ NullBranch v := by
  rintro rfl
  obtain ⟨fs, hfs, htype, -⟩ := h
  cases hfs
  have : str "null" = str "object" := by simpa [Json.get] using htype
  exact absurd this (by decide)

theorem branchType_any {branches : List Json} {b : Json}
    (h : branches.find? (fun item => !item.isNullBranch) = some b) :
    (branchType branches).any (· ≠ str "null") = true ↔
      ∃ fs t, b = .dict fs ∧ get fs (str "type") = some (.string t) ∧ t ≠ str "null" := by
  simp only [branchType, h, Option.bind_some, Option.any_eq_true, Option.bind_eq_some_iff,
    asDict?_eq_some, asString?_eq_some, decide_eq_true_eq]
  constructor
  · rintro ⟨t, ⟨fs, rfl, v, hv, rfl⟩, ht⟩
    exact ⟨fs, t, rfl, hv, ht⟩
  · rintro ⟨fs, t, rfl, hv, ht⟩
    exact ⟨t, ⟨fs, rfl, _, hv, rfl⟩, ht⟩

theorem nullBranch_type {v : Json} (h : NullBranch v) {fs : List (Str × Json)} {t : Str}
    (hv : v = .dict fs) (ht : get fs (str "type") = some (.string t)) : t = str "null" := by
  subst hv
  cases h
  simpa [Json.get] using ht.symm

theorem nullableUnion_iff {x y : Json} :
    NullableUnion (.list [x, y]) ↔ ([x, y].filter Json.isNullBranch).length = 1 ∧
      (branchType [x, y]).any (· ≠ str "null") = true := by
  have hx := @isNullBranch_iff x
  have hy := @isNullBranch_iff y
  constructor
  · rintro ⟨a, b, hab, ha, fs, t, rfl, ht, hne⟩
    have hb : ¬ NullBranch (.dict fs) := fun hn => hne (nullBranch_type hn rfl ht)
    rw [← isNullBranch_iff] at ha hb
    rw [Bool.not_eq_true] at hb
    rcases hab with h | h <;> obtain ⟨rfl, rfl⟩ : _ ∧ _ := by simpa using h
    · refine ⟨by simp [ha, hb], (branchType_any (b := .dict fs) (by simp [ha, hb])).mpr
        ⟨fs, t, rfl, ht, hne⟩⟩
    · refine ⟨by simp [ha, hb], (branchType_any (b := .dict fs) (by simp [hb])).mpr
        ⟨fs, t, rfl, ht, hne⟩⟩
  · rintro ⟨hlen, htype⟩
    cases hxb : x.isNullBranch <;> cases hyb : y.isNullBranch <;> simp [hxb, hyb] at hlen
    · have hfind : [x, y].find? (fun item => !item.isNullBranch) = some x := by simp [hxb]
      exact ⟨y, x, .inr rfl, hy.mp hyb, (branchType_any hfind).mp htype⟩
    · have hfind : [x, y].find? (fun item => !item.isNullBranch) = some y := by simp [hxb, hyb]
      exact ⟨x, y, .inl rfl, hx.mp hxb, (branchType_any hfind).mp htype⟩

theorem yields_validateNullable {nullable : Bool} {v : Json} {branches : List Json} :
    Yields (validateNullable nullable v) r branches r' ↔
      (nullable = true ∧ NullableUnion v ∧ v = .list branches) ∧ r' = r := by
  simp only [validateNullable, yields_bind, yields_demand, yields_ensure, yields_pure,
    asList?_eq_some, Bool.and_eq_true, decide_eq_true_eq]
  constructor
  · rintro ⟨bs, s, ⟨rfl, rfl⟩, -, s, ⟨⟨hnull, hlen⟩, rfl⟩, -, s, ⟨hone, rfl⟩, -, s, ⟨htype, rfl⟩,
      rfl, rfl⟩
    obtain ⟨x, y, rfl⟩ := List.length_eq_two.mp hlen
    exact ⟨⟨hnull, nullableUnion_iff.mpr ⟨hone, htype⟩, rfl⟩, rfl⟩
  · rintro ⟨⟨hnull, hunion, rfl⟩, rfl⟩
    obtain ⟨x, y, rfl⟩ : ∃ x y, branches = [x, y] := by
      obtain ⟨a, b, h | h, -⟩ := hunion <;> cases h
      · exact ⟨a, b, rfl⟩
      · exact ⟨b, a, rfl⟩
    obtain ⟨hone, htype⟩ := nullableUnion_iff.mp hunion
    exact ⟨[x, y], r', ⟨rfl, rfl⟩, (), r', ⟨⟨hnull, rfl⟩, rfl⟩, (), r', ⟨hone, rfl⟩, (), r',
      ⟨htype, rfl⟩, rfl, rfl⟩

end Gateway
