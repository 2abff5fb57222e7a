import Gateway.Contracts.Admission

/-! The recursion of the validator: every reachable node obeys the rules, and the counts add up. -/
namespace Gateway

open Json (get keys)

variable {names : Option (List Str)} {fields : List (Str × Json)} {r r' : ℕ}

/-! Heights of subschemas. -/

theorem height_child {c : Json} {n : ℕ} (hn : Json.height (.dict fields) ≤ n + 1)
    (h : c ∈ propertyChildren fields ∨ c ∈ itemChildren fields ∨ c ∈ branchChildren fields) :
    Json.height c ≤ n := by
  rw [Json.height, Nat.add_le_add_iff_right, Json.heightFields_le] at hn
  obtain ⟨f, hf, h⟩ := child_below h
  have hv := hn f hf
  rcases h with rfl | ⟨vs, hvs, hc⟩ | ⟨fs, hfs, g, hg, rfl⟩
  · exact hv
  · rw [hvs, Json.height] at hv
    have := Json.heightItems_le.mp (le_refl (Json.heightItems vs)) c hc
    omega
  · rw [hfs, Json.height] at hv
    have := Json.heightFields_le.mp (le_refl (Json.heightFields fs)) g hg
    omega

/-! Nodes with nothing below them. -/

theorem get_of_single {key other : Str} (hk : ∀ k, k ∈ keys fields ↔ k = key) (h : other ≠ key) :
    get fields other = none := by
  have hn : other ∉ keys fields := fun hm => h ((hk other).mp hm)
  rw [mem_keys_iff, Bool.not_eq_true, Option.isSome_eq_false_iff, Option.isNone_iff_eq_none] at hn
  exact hn

theorem children_of_reference {owned : List Str} (h : ReferenceNode owned fields) :
    propertyChildren fields = [] ∧ itemChildren fields = [] ∧ branchChildren fields = [] := by
  have hp : get fields (str "properties") = none := get_of_single h.1 (by decide)
  have hi : get fields (str "items") = none := get_of_single h.1 (by decide)
  have ha : get fields (str "anyOf") = none := get_of_single h.1 (by decide)
  simp [propertyChildren, itemChildren, branchChildren, hp, hi, ha]

/-- The reference case: no subschemas, one more reference. -/
theorem allOk_reference {owned : List Str} {nullable root : Bool}
    (href : isReference (some owned) fields = true) :
    AllOk (some owned) ⟨.dict fields, nullable, root⟩ ↔ ReferenceNode owned fields := by
  have hnode : NodeOk (some owned) ⟨.dict fields, nullable, root⟩ ↔ ReferenceNode owned fields := by
    constructor
    · rintro ⟨fs, hfs, h⟩
      obtain rfl : fields = fs := by simpa using hfs
      rw [if_pos href] at h
      obtain ⟨o, ho, h⟩ := h
      obtain rfl : owned = o := by simpa using ho
      exact h
    · intro h
      exact ⟨fields, rfl, by rw [if_pos href]; exact ⟨owned, rfl, h⟩⟩
  rw [allOk_iff, hnode]
  refine ⟨fun h => h.1, fun h => ⟨h, fun c hc => ?_⟩⟩
  obtain ⟨hp, hi, hb⟩ := children_of_reference h
  cases hc with
  | property hc => simp [hp] at hc
  | item hc => simp [hi] at hc
  | choice _ hc => simp [hb] at hc
  | union _ hc => simp [hb] at hc

theorem allOk_dict {p : Position} (h : AllOk names p) : ∃ fs, p.schema = .dict fs := by
  obtain ⟨fs, hfs, -⟩ := (allOk_iff.mp h).1
  exact ⟨fs, hfs⟩

/-! Running over children. -/

/-- What a subschema's validation is to yield, at every counter within the limit. -/
def Meets (validate : List (Str × Json) → Validation ℕ) (names : Option (List Str))
    (nullable root : Bool) (multiplicity : ℕ) (fields : List (Str × Json)) : Prop :=
  ∀ r v r', r ≤ maxPassageReferences →
    (Yields (validate fields) r v r' ↔ AllOk names ⟨.dict fields, nullable, root⟩ ∧
      v = multiplicity * passageCost names (.dict fields) ∧
      r' = r + referenceCount names (.dict fields) ∧ r' ≤ maxPassageReferences)

theorem yields_validateChildren {validate : List (Str × Json) → Validation ℕ} {message : String}
    {nullable : Bool} {m : ℕ} {children : List Json}
    (hmeets : ∀ fs, .dict fs ∈ children → Meets validate names nullable false m fs)
    (hr : r ≤ maxPassageReferences) {vs : List ℕ} :
    Yields (validateChildren validate message children) r vs r' ↔
      (∀ c ∈ children, AllOk names ⟨c, nullable, false⟩) ∧
        vs = children.map (fun c => m * passageCost names c) ∧
        r' = r + (children.map (referenceCount names)).sum ∧ r' ≤ maxPassageReferences := by
  induction children generalizing r vs with
  | nil =>
    simp only [validateChildren, yields_pure, List.not_mem_nil, false_implies, implies_true,
      List.map_nil, List.sum_nil, Nat.add_zero, true_and]
    constructor
    · rintro ⟨rfl, rfl⟩
      exact ⟨rfl, rfl, hr⟩
    · rintro ⟨rfl, rfl, -⟩
      exact ⟨rfl, rfl⟩
  | cons c children ih =>
    have hrest : ∀ s, s ≤ maxPassageReferences → ∀ vs,
        Yields (validateChildren validate message children) s vs r' ↔ _ :=
      fun s hs vs => ih (fun fs hfs => hmeets fs (List.mem_cons_of_mem _ hfs)) hs
    simp only [validateChildren, yields_bind, yields_demand, yields_pure, asDict?_eq_some,
      List.forall_mem_cons, List.map_cons, List.sum_cons]
    constructor
    · rintro ⟨fs, s, ⟨rfl, rfl⟩, v, s, hv, vs', s', hvs, rfl, rfl⟩
      obtain ⟨hok, rfl, rfl, hs⟩ := (hmeets fs (by simp) _ _ _ hr).mp hv
      obtain ⟨hoks, rfl, rfl, hs'⟩ := (hrest _ hs _).mp hvs
      exact ⟨⟨hok, hoks⟩, rfl, by omega, hs'⟩
    · rintro ⟨⟨hok, hoks⟩, rfl, rfl, hle⟩
      obtain ⟨fs, hfs⟩ := allOk_dict hok
      simp only at hfs
      subst hfs
      refine ⟨fs, r, ⟨rfl, rfl⟩, _, r + referenceCount names (.dict fs),
        (hmeets fs (by simp) _ _ _ hr).mpr ⟨hok, rfl, rfl, by omega⟩, _, _,
        (hrest _ (by omega) _).mpr ⟨hoks, rfl, by omega, by omega⟩, rfl, rfl⟩

/-! The three places of subschemas. -/

section Parts

variable {validate : Validator} {nullable root : Bool} {m : ℕ}

theorem yields_validateProperties {vs : List ℕ}
    (hmeets : ∀ fs, .dict fs ∈ propertyChildren fields →
      Meets (fun child => validate child m nullable false) names nullable false m fs)
    (hr : r ≤ maxPassageReferences) :
    Yields (validateProperties validate fields m nullable) r vs r' ↔
      (∀ c ∈ propertyChildren fields, AllOk names ⟨c, nullable, false⟩) ∧
        vs = (propertyChildren fields).map (fun c => m * passageCost names c) ∧
        r' = r + ((propertyChildren fields).map (referenceCount names)).sum ∧
        r' ≤ maxPassageReferences :=
  yields_validateChildren hmeets hr

theorem yields_validateItems {v : ℕ}
    (hmeets : ∀ fs k, .dict fs ∈ itemChildren fields →
      Meets (fun child => validate child (m * k) nullable false) names nullable false (m * k) fs)
    (hr : r ≤ maxPassageReferences) :
    Yields (validateItems validate fields m nullable) r v r' ↔
      ((hasText fields (str "type") (str "array") → ArrayRules fields) ∧
        (¬ hasText fields (str "type") (str "array") →
          ∀ k ∈ [str "items", str "minItems", str "maxItems"], getNonNull fields k = none)) ∧
      (∀ c ∈ itemChildren fields, AllOk names ⟨c, nullable, false⟩) ∧
        v = m * (arrayBound fields * ((itemChildren fields).map (passageCost names)).sum) ∧
        r' = r + ((itemChildren fields).map (referenceCount names)).sum ∧
        r' ≤ maxPassageReferences := by
  unfold validateItems
  by_cases harray : hasText fields (str "type") (str "array") = true
  · have hchild : itemChildren fields = (get fields (str "items")).toList := if_pos harray
    simp only [harray, if_true, yields_bind, Prod.exists, forall_const, not_true_eq_false,
      false_implies, and_true, yields_validateArrayBounds]
    constructor
    · rintro ⟨item, n, s, ⟨⟨hitem, hmax, hle, hmin⟩, rfl⟩, hv⟩
      have hmem : .dict item ∈ itemChildren fields := by simp [hchild, hitem]
      obtain ⟨hok, rfl, rfl, hr'⟩ := (hmeets item n hmem _ _ _ hr).mp hv
      have hbound : arrayBound fields = n := by simp [arrayBound, hmax, Json.asInt?]
      refine ⟨⟨⟨item, hitem⟩, n, hmax, hle, hmin⟩, ?_⟩
      simpa [hchild, hitem, hbound, Nat.mul_assoc] using ⟨hok, hr'⟩
    · rintro ⟨⟨⟨item, hitem⟩, n, hmax, hle, hmin⟩, hok, rfl, rfl, hr'⟩
      have hmem : .dict item ∈ itemChildren fields := by simp [hchild, hitem]
      have hbound : arrayBound fields = n := by simp [arrayBound, hmax, Json.asInt?]
      refine ⟨item, n, r, ⟨⟨hitem, hmax, hle, hmin⟩, rfl⟩, (hmeets item n hmem _ _ _ hr).mpr ?_⟩
      simpa [hchild, hitem, hbound, Nat.mul_assoc] using ⟨hok _ hmem, by simpa [hchild, hitem] using hr'⟩
  · have hchild : itemChildren fields = [] := if_neg harray
    simp only [harray, Bool.false_eq_true, if_false, yields_bind, yields_validateNoArray,
      yields_pure, false_implies, true_and, not_false_eq_true, forall_const, hchild, List.map_nil,
      List.sum_nil, Nat.mul_zero, Nat.add_zero, List.not_mem_nil, implies_true]
    constructor
    · rintro ⟨-, s, ⟨hnone, rfl⟩, rfl, rfl⟩
      exact ⟨hnone, rfl, rfl, hr⟩
    · rintro ⟨hnone, rfl, rfl, -⟩
      exact ⟨(), r', ⟨hnone, rfl⟩, rfl, rfl⟩

theorem getNonNull_eq_some {key : Str} {v : Json} :
    getNonNull fields key = some v ↔ get fields key = some v ∧ v ≠ .null := by
  unfold getNonNull
  split
  · rename_i h
    simp only [h, reduceCtorEq, Option.some.injEq, false_iff, not_and, ne_eq, not_not]
    exact fun h => h.symm
  · rename_i h
    constructor
    · intro hv
      refine ⟨hv, ?_⟩
      rintro rfl
      exact h hv
    · exact fun hv => hv.1

theorem branchChildren_none (h : getNonNull fields (str "anyOf") = none) :
    branchChildren fields = [] := by
  unfold branchChildren
  split
  · rename_i branches hget
    have := getNonNull_eq_some.mpr ⟨hget, by simp⟩
    simp [h] at this
  · rfl

theorem branchChildren_list {branches : List Json}
    (h : getNonNull fields (str "anyOf") = some (.list branches)) :
    branchChildren fields = branches := by
  simp [branchChildren, (getNonNull_eq_some.mp h).1]

theorem nullableUnion_list {v : Json} (h : NullableUnion v) :
    ∃ branches, v = .list branches ∧ ∃ b ∈ branches, NullBranch b := by
  obtain ⟨a, b, rfl | rfl, ha, -⟩ := h
  · exact ⟨_, rfl, a, by simp, ha⟩
  · exact ⟨_, rfl, a, by simp, ha⟩

theorem closedChoice_branches (h : ClosedChoice fields) {v : Json}
    (hv : getNonNull fields (str "anyOf") = some v) :
    ∃ branches, v = .list branches ∧ ∀ b ∈ branches, ¬ NullBranch b := by
  obtain ⟨-, branches, hget, -, -, hall⟩ := h
  obtain rfl : v = .list branches := by
    have := (getNonNull_eq_some.mp hv).1
    rw [hget] at this
    exact (Option.some.inj this).symm
  exact ⟨branches, rfl, fun b hb => closedObject_not_null (hall b hb)⟩

/-- The branches' own permission: nullable unions again below a root choice, none below a union. -/
def branchNullable (fields : List (Str × Json)) (root : Bool) : Bool :=
  root && isBoundedRootObjectChoice fields

theorem branchNullable_iff (hd : get fields (str "$defs") = none) :
    branchNullable fields root = true ↔ root = true ∧ ClosedChoice fields := by
  rw [branchNullable, Bool.and_eq_true, isBoundedRootObjectChoice_self hd]

theorem yields_validateAnyOf {vs : List ℕ} (hd : get fields (str "$defs") = none)
    (hmeets : ∀ fs flag, .dict fs ∈ branchChildren fields →
      Meets (fun child => validate child m flag false) names flag false m fs)
    (hr : r ≤ maxPassageReferences) :
    Yields (validateAnyOf validate fields m nullable root) r vs r' ↔
      (∀ v, getNonNull fields (str "anyOf") = some v →
        (root = true ∧ ClosedChoice fields) ∨ (nullable = true ∧ NullableUnion v)) ∧
      (∀ c ∈ branchChildren fields, AllOk names ⟨c, branchNullable fields root, false⟩) ∧
        vs = (branchChildren fields).map (fun c => m * passageCost names c) ∧
        r' = r + ((branchChildren fields).map (referenceCount names)).sum ∧
        r' ≤ maxPassageReferences := by
  unfold validateAnyOf
  cases hv : getNonNull fields (str "anyOf") with
  | none =>
    simp only [yields_pure, branchChildren_none hv, reduceCtorEq, false_implies, implies_true,
      List.not_mem_nil, List.map_nil, List.sum_nil, Nat.add_zero, true_and]
    constructor
    · rintro ⟨rfl, rfl⟩
      exact ⟨rfl, rfl, hr⟩
    · rintro ⟨rfl, rfl, -⟩
      exact ⟨rfl, rfl⟩
  | some v =>
    have hflag : ∀ {branches}, v = .list branches → (∀ b ∈ branches, ¬ NullBranch b) →
        v.asList?.any (·.any Json.isNullBranch) = false := by
      rintro branches rfl hall
      simpa [Json.asList?, Bool.eq_false_iff, isNullBranch_iff] using hall
    have hflag' : ∀ {branches}, v = .list branches → (∃ b ∈ branches, NullBranch b) →
        v.asList?.any (·.any Json.isNullBranch) = true := by
      rintro branches rfl ⟨b, hb, hn⟩
      simpa [Json.asList?] using ⟨b, hb, isNullBranch_iff.mpr hn⟩
    have hkids : ∀ flag vs, Yields (validateChildren (fun child => validate child m flag false)
        "response_schema anyOf must contain schemas" (branchChildren fields)) r vs r' ↔ _ :=
      fun flag vs => yields_validateChildren (fun fs => hmeets fs flag) hr
    simp only [Option.some.injEq, forall_eq']
    by_cases hc : (root && !(v.asList?.any (·.any Json.isNullBranch))) = true
    · obtain ⟨hroot, hnone⟩ : root = true ∧ v.asList?.any (·.any Json.isNullBranch) = false := by
        simpa using hc
      have hrule : (root = true ∧ ClosedChoice fields ∨ nullable = true ∧ NullableUnion v) ↔
          ClosedChoice fields := by
        constructor
        · rintro (⟨-, h⟩ | ⟨-, h⟩)
          · exact h
          · obtain ⟨branches, rfl, hex⟩ := nullableUnion_list h
            exact absurd (hflag' rfl hex) (by simp [hnone])
        · exact fun h => .inl ⟨hroot, h⟩
      rw [hrule]
      simp only [hc, if_true, yields_bind, validateChoice, yields_ensure, yields_pure]
      constructor
      · rintro ⟨bs, s, ⟨-, s, ⟨hbound, rfl⟩, rfl, rfl⟩, hy⟩
        have hclosed := (isBoundedRootObjectChoice_self hd).mp hbound
        obtain ⟨branches, rfl, -⟩ := closedChoice_branches hclosed hv
        have hflagged : branchNullable fields root = true :=
          (branchNullable_iff hd).mpr ⟨hroot, hclosed⟩
        rw [hflagged]
        refine ⟨hclosed, (hkids true vs).mp ?_⟩
        rwa [branchChildren_list hv]
      · rintro ⟨hclosed, hrest⟩
        obtain ⟨branches, rfl, -⟩ := closedChoice_branches hclosed hv
        have hflagged : branchNullable fields root = true :=
          (branchNullable_iff hd).mpr ⟨hroot, hclosed⟩
        rw [hflagged] at hrest
        have hy := (hkids true vs).mpr hrest
        rw [branchChildren_list hv] at hy
        exact ⟨branches, r, ⟨(), r, ⟨(isBoundedRootObjectChoice_self hd).mpr hclosed, rfl⟩, rfl,
          rfl⟩, hy⟩
    · have hnot : ¬ (root = true ∧ ClosedChoice fields) := by
        rintro ⟨hroot, hclosed⟩
        obtain ⟨branches, rfl, hall⟩ := closedChoice_branches hclosed hv
        exact hc (by simp [hroot, hflag rfl hall])
      have hflagged : branchNullable fields root = false := by
        rw [Bool.eq_false_iff, ne_eq, branchNullable_iff hd]
        exact hnot
      rw [hflagged]
      simp only [hc, Bool.false_eq_true, if_false, yields_bind, yields_validateNullable, hnot,
        false_or]
      constructor
      · rintro ⟨bs, s, ⟨⟨hn, hu, rfl⟩, rfl⟩, hy⟩
        refine ⟨⟨hn, hu⟩, (hkids false vs).mp ?_⟩
        rwa [branchChildren_list hv]
      · rintro ⟨⟨hn, hu⟩, hrest⟩
        obtain ⟨branches, rfl, -⟩ := nullableUnion_list hu
        have hy := (hkids false vs).mpr hrest
        rw [branchChildren_list hv] at hy
        exact ⟨branches, r, ⟨⟨hn, hu, rfl⟩, rfl⟩, hy⟩

end Parts

theorem foldr_max_mul (m : ℕ) (f : Json → ℕ) (cs : List Json) :
    (cs.map (fun c => m * f c)).foldr max 0 = m * (cs.map f).foldr max 0 := by
  induction cs with
  | nil => simp
  | cons c cs ih => simp [ih, Nat.mul_max_mul_left]

/-! One node. -/

theorem noDefinitions (h : ∀ k ∈ keys fields, k ∈ supportedSchemaKeywords) :
    get fields (str "$defs") = none := by
  have hn : str "$defs" ∉ keys fields := fun hm => absurd (h _ hm) (by decide)
  rw [mem_keys_iff, Bool.not_eq_true, Option.isSome_eq_false_iff, Option.isNone_iff_eq_none] at hn
  exact hn

theorem forall_child_iff {nullable root : Bool} (hd : get fields (str "$defs") = none)
    {P : Position → Prop} :
    (∀ c, Child ⟨.dict fields, nullable, root⟩ c → P c) ↔
      (∀ c ∈ propertyChildren fields, P ⟨c, nullable, false⟩) ∧
        (∀ c ∈ itemChildren fields, P ⟨c, nullable, false⟩) ∧
        ∀ c ∈ branchChildren fields, P ⟨c, branchNullable fields root, false⟩ := by
  have hflag : branchNullable fields root = true ↔ _ := branchNullable_iff hd
  constructor
  · intro h
    refine ⟨fun c hc => h _ (.property hc), fun c hc => h _ (.item hc), fun c hc => ?_⟩
    by_cases hroot : root = true ∧ ClosedChoice fields
    · rw [hflag.mpr hroot]
      obtain ⟨rfl, hclosed⟩ := hroot
      exact h _ (.choice hclosed hc)
    · rw [Bool.eq_false_iff.mpr (fun hb => hroot (hflag.mp hb))]
      exact h _ (.union hroot hc)
  · rintro ⟨hp, hi, hb⟩ c hc
    cases hc with
    | property hc => exact hp _ hc
    | item hc => exact hi _ hc
    | choice hclosed hc => exact hflag.mpr ⟨rfl, hclosed⟩ ▸ hb _ hc
    | union hroot hc =>
      have := Bool.eq_false_iff.mpr (fun hb => hroot (hflag.mp hb))
      exact this ▸ hb _ hc

theorem nodeOk_plain {nullable root : Bool} (href : isReference names fields = false) :
    NodeOk names ⟨.dict fields, nullable, root⟩ ↔ PlainNode fields nullable root := by
  constructor
  · rintro ⟨fs, hfs, h⟩
    obtain rfl : fields = fs := by simpa using hfs
    rw [if_neg (by simp [href])] at h
    exact h
  · intro h
    exact ⟨fields, rfl, by rw [if_neg (by simp [href])]; exact h⟩

/-- The counts of a node that is no reference, part by part. -/
theorem counts_plain (href : isReference names fields = false) (m : ℕ) :
    m * passageCost names (.dict fields) =
        ((propertyChildren fields).map (fun c => m * passageCost names c)).sum +
          m * (arrayBound fields * ((itemChildren fields).map (passageCost names)).sum) +
          ((branchChildren fields).map (fun c => m * passageCost names c)).foldr max 0 ∧
      referenceCount names (.dict fields) =
        ((propertyChildren fields).map (referenceCount names)).sum +
          ((itemChildren fields).map (referenceCount names)).sum +
          ((branchChildren fields).map (referenceCount names)).sum := by
  constructor
  · rw [foldr_max_mul, List.sum_map_mul_left]
    simp only [passageCost, tally_dict, href, Bool.false_eq_true, if_false]
    ring
  · simp only [referenceCount, tally_dict, href, Bool.false_eq_true, if_false, Nat.one_mul]

/-- A node that is no reference, given that its subschemas are validated as they should be. -/
theorem meets_plain {validate : Validator} {nullable root : Bool} {m : ℕ}
    (href : isReference names fields = false)
    (hmeets : ∀ fs k flag, .dict fs ∈ propertyChildren fields ∨ .dict fs ∈ itemChildren fields ∨
      .dict fs ∈ branchChildren fields →
      Meets (fun child => validate child k flag false) names flag false k fs) :
    Meets (fun schema => validatePlain validate schema m nullable root) names nullable root m
      fields := by
  intro r v r' hr
  have hprops : ∀ vs r', Yields (validateProperties validate fields m nullable) r vs r' ↔ _ :=
    fun vs r' => yields_validateProperties (fun fs hfs => hmeets fs m nullable (.inl hfs)) hr
  have hitems : ∀ s, s ≤ maxPassageReferences → ∀ v r',
      Yields (validateItems validate fields m nullable) s v r' ↔ _ := fun s hs v r' =>
    yields_validateItems (fun fs k hfs => hmeets fs (m * k) nullable (.inr (.inl hfs))) hs
  have hbranches : get fields (str "$defs") = none → ∀ s, s ≤ maxPassageReferences → ∀ vs r',
      Yields (validateAnyOf validate fields m nullable root) s vs r' ↔ _ := fun hd s hs vs r' =>
    yields_validateAnyOf hd (fun fs flag hfs => hmeets fs m flag (.inr (.inr hfs))) hs
  obtain ⟨hcost, hrefs⟩ := counts_plain href m
  rw [hcost, hrefs, allOk_iff, nodeOk_plain href]
  simp only [validatePlain, yields_bind, yields_pure, yields_validateKeywords, yields_validateType,
    yields_validateAdditional, yields_validateEnum, yields_validateBound]
  constructor
  · rintro ⟨-, s, ⟨hkeys, rfl⟩, -, s, ⟨htype, rfl⟩, vs, s1, hp, -, s, ⟨hadd, rfl⟩, i, s2, hi, -, s,
      ⟨henum, rfl⟩, -, s, ⟨hmin, rfl⟩, -, s, ⟨hmax, rfl⟩, ws, s3, ha, rfl, rfl⟩
    have hd := noDefinitions hkeys
    obtain ⟨hpok, rfl, rfl, hs1⟩ := (hprops _ _).mp hp
    obtain ⟨⟨harr, hnot⟩, hiok, rfl, rfl, hs2⟩ := (hitems _ hs1 _ _).mp hi
    obtain ⟨hany, hbok, rfl, rfl, hs3⟩ := (hbranches hd _ hs2 _ _).mp ha
    refine ⟨⟨⟨hkeys, htype, hadd, harr, hnot, henum, ?_, hany⟩,
      (forall_child_iff hd).mpr ⟨hpok, hiok, hbok⟩⟩, rfl, by omega, hs3⟩
    intro k hk
    rcases List.mem_cons.mp hk with rfl | hk
    · exact hmin
    · exact List.mem_singleton.mp hk ▸ hmax
  · rintro ⟨⟨hnode, hchildren⟩, rfl, rfl, hle⟩
    have hd := noDefinitions hnode.keywords
    obtain ⟨hpok, hiok, hbok⟩ := (forall_child_iff hd).mp hchildren
    have hp := (hprops _ _).mpr ⟨hpok, rfl, rfl, by omega⟩
    have hi := (hitems (r + ((propertyChildren fields).map (referenceCount names)).sum) (by omega)
      _ _).mpr
      ⟨⟨hnode.array, hnode.notArray⟩, hiok, rfl, rfl, by omega⟩
    have ha := (hbranches hd (r + ((propertyChildren fields).map (referenceCount names)).sum +
      ((itemChildren fields).map (referenceCount names)).sum) (by omega) _ _).mpr
      ⟨hnode.anyOf, hbok, rfl, rfl, by omega⟩
    exact ⟨(), r, ⟨hnode.keywords, rfl⟩, (), r, ⟨hnode.type, rfl⟩, _, _, hp, (), _,
      ⟨hnode.additional, rfl⟩, _, _, hi, (), _, ⟨hnode.enum, rfl⟩, (), _,
      ⟨hnode.bounds _ (by simp), rfl⟩, (), _, ⟨hnode.bounds _ (by simp), rfl⟩, _, _, ha, rfl,
      by omega⟩

/-- The validator, from any counter: the rules at every reachable node, and the exact counts. -/
theorem validateSupportedSchema_meets (names : Option (List Str)) (fuel : ℕ) :
    ∀ fields m nullable root, Json.height (.dict fields) ≤ fuel →
      Meets (fun schema => validateSupportedSchema names fuel schema m nullable root) names nullable
        root m fields := by
  induction fuel with
  | zero =>
    intro fields m nullable root h
    have := Json.height_pos (.dict fields)
    omega
  | succ fuel ih =>
    intro fields m nullable root h
    cases href : isReference names fields with
    | true =>
      obtain ⟨hn, hg⟩ : names.isSome = true ∧ (get fields (str "$ref")).isSome = true := by
        simpa [isReference] using href
      obtain ⟨owned, rfl⟩ := Option.isSome_iff_exists.mp hn
      obtain ⟨target, hget⟩ := Option.isSome_iff_exists.mp hg
      intro r v r' hr
      have hunfold : validateSupportedSchema (some owned) (fuel + 1) fields m nullable root =
          validateReference owned fields m := by
        simp only [validateSupportedSchema, hget]
      simp only [hunfold, yields_validateReference, allOk_reference href, passageCost,
        referenceCount, tally_dict, href, if_true, Nat.mul_one]
      constructor
      · rintro ⟨hnode, rfl, rfl, hle⟩
        exact ⟨hnode, rfl, rfl, hle⟩
      · rintro ⟨hnode, rfl, rfl, hle⟩
        exact ⟨hnode, rfl, rfl, hle⟩
    | false =>
      have hunfold : validateSupportedSchema names (fuel + 1) fields m nullable root =
          validatePlain (validateSupportedSchema names fuel) fields m nullable root := by
        rw [validateSupportedSchema]
        intro owned target hn hget
        simp [isReference, hn, hget] at href
      intro r v r' hr
      simp only [hunfold]
      exact meets_plain href
        (fun fs k flag hfs => ih fs k flag false (height_child h hfs)) r v r' hr

/-! Definitions. -/

theorem filterMap_asString {values : List Json} :
    (values.filterMap Json.asString?).length = values.length ↔
      values = (values.filterMap Json.asString?).map .string := by
  constructor
  · intro h
    induction values with
    | nil => rfl
    | cons v values ih =>
      cases hv : v.asString? with
      | none =>
        rw [List.filterMap_cons_none hv] at h
        have := List.length_filterMap_le Json.asString? values
        simp at h
        omega
      | some s =>
        rw [List.filterMap_cons_some hv] at h ⊢
        rw [List.map_cons, ← ih (by simpa using h), asString?_eq_some.mp hv]
  · intro h
    conv_rhs => rw [h]
    rw [List.length_map]

theorem map_string_filterMap (texts : List Str) :
    (texts.map Json.string).filterMap Json.asString? = texts := by
  rw [List.filterMap_map]
  exact List.filterMap_some

theorem boundedTexts_iff {v : Json} :
    boundedTexts v = true ↔ ∃ texts : List Str, v = .list (texts.map Json.string) ∧
      1 ≤ texts.length ∧ texts.length ≤ maxPassageEnumValues ∧
      (∀ s ∈ texts, 1 ≤ s.length ∧ s.length ≤ maxPassageCharacters) ∧ texts.Nodup := by
  cases v with
  | list values =>
    simp only [boundedTexts, decide_eq_true_eq]
    constructor
    · rintro ⟨h1, h2, h3, h4, h5⟩
      refine ⟨_, congrArg Json.list (filterMap_asString.mp h3), h3 ▸ h1, h3 ▸ h2, h4, h5⟩
    · rintro ⟨texts, htexts, h1, h2, h4, h5⟩
      obtain rfl := Json.list.inj htexts
      rw [map_string_filterMap, List.length_map]
      exact ⟨h1, h2, rfl, h4, h5⟩
  | _ => simp [boundedTexts]

theorem stringEnumLeaf_iff {v : Json} :
    stringEnumLeaf v = true ↔ ∃ fs, v = .dict fs ∧
      (∀ k, k ∈ keys fs ↔ k = str "type" ∨ k = str "enum") ∧
      get fs (str "type") = some (.string (str "string")) := by
  cases v with
  | dict fs => simp [stringEnumLeaf, keysAre_iff, hasText_iff]
  | _ => simp [stringEnumLeaf]

theorem passageLeaf_iff {v : Json} :
    PassageLeaf v ↔ stringEnumLeaf v = true ∧
      (v.asDict?.bind (get · (str "enum"))).any boundedTexts = true := by
  rw [stringEnumLeaf_iff]
  simp only [Option.any_eq_true, Option.bind_eq_some_iff, asDict?_eq_some, boundedTexts_iff]
  constructor
  · rintro ⟨fs, texts, rfl, hkeys, htype, henum, h⟩
    exact ⟨⟨fs, rfl, hkeys, htype⟩, _, ⟨fs, rfl, henum⟩, texts, rfl, h⟩
  · rintro ⟨⟨fs, rfl, hkeys, htype⟩, w, ⟨fs', hfs, henum⟩, texts, rfl, h⟩
    cases hfs
    exact ⟨fs, texts, rfl, hkeys, htype, henum, h⟩

theorem checkDefinition_eq_ok {name : Str} {v : Json} :
    checkDefinition name v = .ok () ↔ passageName name = true ∧ PassageLeaf v := by
  rw [passageLeaf_iff, checkDefinition]
  split_ifs with h1 h2 h3 <;> simp_all

theorem checkDefinitions_eq_ok {leaves : List (Str × Json)} :
    checkDefinitions leaves = .ok () ↔ ∀ f ∈ leaves, passageName f.1 = true ∧ PassageLeaf f.2 := by
  induction leaves with
  | nil => simp [checkDefinitions]
  | cons f leaves ih =>
    obtain ⟨name, v⟩ := f
    rw [checkDefinitions, List.forall_mem_cons, ← ih, ← checkDefinition_eq_ok]
    cases h : checkDefinition name v <;> simp [bind, Except.bind]

/-- The root is an object, or nothing but a choice of closed objects. -/
def RootShape (schema : List (Str × Json)) : Prop :=
  get schema (str "type") = some (.string (str "object")) ∨
    ClosedChoice (withoutDefinitions schema)

theorem rootShape_iff :
    (!hasText fields (str "type") (str "object") && !isBoundedRootObjectChoice fields) = false ↔
      RootShape fields := by
  rw [RootShape, ← hasText_iff, ← isBoundedRootObjectChoice_iff]
  cases hasText fields (str "type") (str "object") <;> simp

theorem passageDefinitions_eq_ok (hroot : RootShape fields) {result : Option (List Str)} :
    passageDefinitions fields = .ok result ↔
      (∀ v, get fields (str "$defs") = some v → PassageDefinitions v) ∧
        result = ownedNames fields := by
  unfold passageDefinitions ownedNames
  rw [rootShape_iff.mpr hroot]
  cases get fields (str "$defs") with
  | none => simp [eq_comm]
  | some v =>
    cases v with
    | dict leaves =>
      simp only [Bool.false_eq_true, if_false, Option.some.injEq, forall_eq', PassageDefinitions,
        Json.dict.injEq, exists_eq_left', Option.map_some, Json.asDict?, Option.getD_some]
      split_ifs with hlen
      · have hdefs := @checkDefinitions_eq_ok leaves
        cases hc : checkDefinitions leaves with
        | error e =>
          simp only [hc, reduceCtorEq, false_iff] at hdefs
          simp only [bind, Except.bind, reduceCtorEq, false_iff]
          rintro ⟨⟨-, -, h⟩, -⟩
          exact hdefs h
        | ok u =>
          have hall := hdefs.mp hc
          simp only [bind, Except.bind, pure, Except.pure, Except.ok.injEq, hlen.1, hlen.2, true_and]
          exact ⟨fun h => ⟨hall, h.symm⟩, fun h => h.2.symm⟩
      · simp only [false_iff]
        rintro ⟨⟨h1, h2, -⟩, -⟩
        exact hlen ⟨h1, h2⟩
    | _ => simp [PassageDefinitions]

/-! The whole check. -/

theorem require_ok {b : Bool} {message : String} {u : Unit} :
    require b message = .ok u ↔ b = true := by
  cases b <;> simp [require]

theorem validateGenerationShape_checked {checkSchema : Json → Bool} {roles : List Str}
    (h : validateGenerationShape checkSchema roles fields = .ok ()) :
    checkSchema (.dict fields) = true := by
  simp only [validateGenerationShape, bind, bind_eq_ok, require_ok] at h
  obtain ⟨-, -, -, -, -, -, -, -, -, -, -, -, -, -, -, hcheck, -⟩ := h
  exact hcheck

/-- On a parsed object that the metaschema accepts, the check accepts exactly the grammar. -/
theorem validateGenerationShape_eq_ok {checkSchema : Json → Bool} {roles : List Str}
    (hp : Json.Parsed (.dict fields)) (hc : checkSchema (.dict fields) = true) :
    validateGenerationShape checkSchema roles fields = .ok () ↔
      roles = [str "system", str "user"] ∧ Admitted fields := by
  have hbytes := Json.encodeJsonBytes_eq hp
  have hroot := @rootShape_iff fields
  have hor : (hasText fields (str "type") (str "object") || isBoundedRootObjectChoice fields) = true
      ↔ RootShape fields := by
    rw [← hroot]
    cases hasText fields (str "type") (str "object") <;>
      cases isBoundedRootObjectChoice fields <;> simp
  have hmeets := fun names => validateSupportedSchema_meets names
    (Json.height (.dict (withoutDefinitions fields))) (withoutDefinitions fields) 1 true true le_rfl
  have hyield : ∀ names v r', (validateSupportedSchema names
      (Json.height (.dict (withoutDefinitions fields))) (withoutDefinitions fields) 1 true true).run 0 =
        .ok (v, r') ↔ AllOk names ⟨.dict (withoutDefinitions fields), true, true⟩ ∧
          v = passageCost names (.dict (withoutDefinitions fields)) ∧
          r' = referenceCount names (.dict (withoutDefinitions fields)) ∧
          r' ≤ maxPassageReferences := by
    intro names v r'
    have h := hmeets names 0 v r' (Nat.zero_le _)
    rwa [Nat.one_mul, Nat.zero_add] at h
  have hshape : ∀ u, validateJsonShape (.dict fields) = .ok u ↔
      Json.nodes (.dict fields) ≤ maxJsonNodes ∧ Json.height (.dict fields) ≤ maxJsonDepth :=
    fun _ => Json.validateJsonShape_eq_ok
  simp only [validateGenerationShape, bind, bind_eq_ok, require_ok, hor, hbytes, Except.ok.injEq,
    decide_eq_true_eq, Prod.exists, hc, true_and, exists_eq_left', exists_const, hshape]
  change _ ∧ _ ∧ (_ ∧ _) ∧ (∃ names, _ ∧ ∃ v r', (validateSupportedSchema names
    (Json.height (.dict (withoutDefinitions fields))) (withoutDefinitions fields) 1 true true).run 0 =
        .ok (v, r') ∧ _ ∧ _) ↔ _
  simp only [hyield]
  constructor
  · rintro ⟨hroles, hlen, ⟨hnodes, hdepth⟩, names, hdefs, v, r', ⟨hok, rfl, rfl, hrefs⟩, hcost, hshape⟩
    obtain ⟨hpass, rfl⟩ := (passageDefinitions_eq_ok hshape).mp hdefs
    refine ⟨hroles, ?_, hnodes, hdepth, hshape, hpass, hok, hrefs, hcost⟩
    intro b hb
    rw [hbytes, Except.ok.injEq] at hb
    exact hb ▸ hlen
  · rintro ⟨hroles, h⟩
    exact ⟨hroles, h.bytes _ hbytes, ⟨h.nodes, h.depth⟩, ownedNames fields,
      (passageDefinitions_eq_ok h.root).mpr ⟨h.definitions, rfl⟩, _, _,
      ⟨h.reachable, rfl, rfl, h.references⟩, h.budget, h.root⟩

end Gateway
