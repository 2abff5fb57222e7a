import Gateway.Contracts.Validator

/-! The grammar sees neither the order of keys nor how a fraction is spelled. -/
namespace Gateway

open Json (get keys Reordered Alike FieldsRel Same SameScalar Parsed)

variable {v w : Json} {fs gs gs' : List (Str × Json)}

/-! `Alike` as a relation. -/

theorem Json.Alike.mono {R S : Json → Json → Prop} (hRS : ∀ v w, R v w → Alike S v w)
    (h : Alike R v w) : Alike S v w :=
  h.induction (P := Alike S) hRS (fun _ _ ih => .list ih) (fun _ _ _ hp ih => .of_fields hp ih)

theorem Json.Alike.symm {R : Json → Json → Prop} (hR : ∀ v w, R v w → R w v) (h : Alike R v w) :
    Alike R w v := by
  refine h.induction (P := fun v w => Alike R w v) (fun v w h => .leaf (hR v w h))
    (fun vs ws ih => .list ih.flip) (fun fs gs gs' hp ih => ?_)
  have hflip : FieldsRel (Alike R) gs' fs := by
    refine List.Forall₂.flip (ih.imp ?_)
    exact fun f g h => ⟨h.1.symm, h.2⟩
  obtain ⟨fs', hrel, hperm⟩ := List.perm_comp_forall₂ hp.symm hflip
  exact .of_fields hperm hrel

theorem reordered_symm (h : Reordered v w) : Reordered w v := Alike.symm (fun _ _ h => h.symm) h

theorem same_refl (v : Json) : Same v v := by
  induction v using Json.induction with
  | null => exact .leaf .null
  | bool b => exact .leaf (.bool b)
  | int n => exact .leaf (.number rfl rfl)
  | decimal d => exact .leaf (.number rfl rfl)
  | string s => exact .leaf (.string s)
  | list vs ih =>
    refine .list (List.forall₂_same.mpr ih)
  | dict fs ih =>
    exact .of_fields (List.Perm.refl fs) (List.forall₂_same.mpr (fun f hf => ⟨rfl, ih f hf⟩))

theorem same_of_reordered (h : Reordered v w) : Same v w :=
  Alike.mono (fun v w (h : v = w) => h ▸ same_refl v) h

/-! What each key holds. -/

/-- Both dicts hold alike values under every key, or nothing. -/
def Matching (R : Json → Json → Prop) (fs gs : List (Str × Json)) : Prop :=
  ∀ k, Option.Rel R (get fs k) (get gs k)

theorem get_cons (f : Str × Json) (fs : List (Str × Json)) (k : Str) :
    get (f :: fs) k = if f.1 = k then some f.2 else get fs k := by
  unfold Json.get
  rw [List.find?_cons]
  by_cases h : f.1 = k <;> simp [h]

theorem get_of_mem (hn : (keys fs).Nodup) {f : Str × Json} (hf : f ∈ fs) :
    get fs f.1 = some f.2 := by
  induction fs with
  | nil => simp at hf
  | cons g fs ih =>
    obtain ⟨hg, hn⟩ := List.nodup_cons.mp hn
    rw [get_cons]
    rcases List.mem_cons.mp hf with rfl | hf
    · rw [if_pos rfl]
    · have hne : g.1 ≠ f.1 := fun he => hg (he ▸ List.mem_map_of_mem (f := Prod.fst) hf)
      rw [if_neg hne, ih hn hf]

theorem get_perm (hn : (keys fs).Nodup) (h : fs.Perm gs) (k : Str) : get fs k = get gs k := by
  have hn' : (keys gs).Nodup := (h.map Prod.fst).nodup_iff.mp hn
  cases hf : get fs k with
  | some v => exact (get_of_mem hn' (h.mem_iff.mp (mem_of_get hf))).symm
  | none =>
    cases hg : get gs k with
    | none => rfl
    | some v =>
      have := get_of_mem hn (h.mem_iff.mpr (mem_of_get hg))
      simp [hf] at this

theorem matching_of_fields {R : Json → Json → Prop} (h : FieldsRel R fs gs) : Matching R fs gs := by
  intro k
  induction h with
  | nil => exact .none
  | @cons f g fs gs hfg _ ih =>
    rw [get_cons, get_cons, hfg.1]
    split_ifs
    · exact .some hfg.2
    · exact ih

theorem Matching.some_left {R : Json → Json → Prop} (h : Matching R fs gs) {k : Str}
    (hv : get fs k = some v) : ∃ w, get gs k = some w ∧ R v w := by
  have hk := h k
  rw [hv] at hk
  cases hg : get gs k with
  | none => rw [hg] at hk; cases hk
  | some w =>
    rw [hg] at hk
    cases hk with
    | some h => exact ⟨w, rfl, h⟩

theorem Matching.some_right {R : Json → Json → Prop} (h : Matching R fs gs) {k : Str}
    (hw : get gs k = some w) : ∃ v, get fs k = some v ∧ R v w := by
  have hk := h k
  rw [hw] at hk
  cases hf : get fs k with
  | none => rw [hf] at hk; cases hk
  | some v =>
    rw [hf] at hk
    cases hk with
    | some h => exact ⟨v, rfl, h⟩

theorem Matching.none_iff {R : Json → Json → Prop} (h : Matching R fs gs) (k : Str) :
    get fs k = none ↔ get gs k = none := by
  have hk := h k
  cases hf : get fs k <;> cases hg : get gs k <;> rw [hf, hg] at hk <;> simp <;> cases hk

theorem Matching.mem_keys {R : Json → Json → Prop} (h : Matching R fs gs) (k : Str) :
    k ∈ keys fs ↔ k ∈ keys gs := by
  have := h.none_iff k
  rw [mem_keys_iff, mem_keys_iff, ← not_iff_not]
  simpa using this

/-! Alike values of each form. -/

section Alike

variable {R : Json → Json → Prop} (hR : ∀ v w, R v w → SameScalar v w)
include hR

theorem alike_same (h : Alike R v w) : Same v w := Alike.mono (fun v w h => .leaf (hR v w h)) h

theorem alike_list {vs : List Json} (h : Alike R (.list vs) w) :
    ∃ ws, w = .list ws ∧ List.Forall₂ (Alike R) vs ws := by
  cases h with
  | leaf h =>
    cases hR _ _ h with
    | number hv _ => simp [Json.number?] at hv
  | list h => exact ⟨_, rfl, h⟩

/-- Fields in some order of the second dict match those of the first, one by one. -/
theorem alike_dict (h : Alike R (.dict fs) w) :
    ∃ gs gs', w = .dict gs ∧ gs'.Perm gs ∧ FieldsRel (Alike R) fs gs' := by
  cases h with
  | leaf h =>
    cases hR _ _ h with
    | number hv _ => simp [Json.number?] at hv
  | dict hperm hkeys h => exact ⟨_, _, rfl, hperm, Json.fieldsRel_iff.mpr ⟨hkeys, h⟩⟩

theorem alike_matching (h : Alike R (.dict fs) (.dict gs)) (hn : (keys gs).Nodup) :
    Matching (Alike R) fs gs := by
  obtain ⟨gs₁, gs', hgs, hperm, hrel⟩ := alike_dict hR h
  obtain rfl := Json.dict.inj hgs
  intro k
  rw [← get_perm ((hperm.map Prod.fst).nodup_iff.mpr hn) hperm]
  exact matching_of_fields hrel k

/-- Alike dicts have the same keys, and as many. -/
theorem alike_keys (h : Alike R (.dict fs) (.dict gs)) :
    fs.length = gs.length ∧ ∀ k, k ∈ keys fs ↔ k ∈ keys gs := by
  obtain ⟨gs₀, gs', hgs, hperm, hrel⟩ := alike_dict hR h
  obtain rfl := Json.dict.inj hgs
  refine ⟨hrel.length_eq.trans hperm.length_eq, fun k => ?_⟩
  rw [(Json.fieldsRel_iff.mp hrel).1]
  exact (hperm.map Prod.fst).mem_iff

theorem alike_isContainer (h : Alike R v w) : v.isContainer = w.isContainer := by
  cases h with
  | leaf h =>
    cases hR _ _ h with
    | number hv hw => cases v <;> cases w <;> simp [Json.number?, Json.isContainer] at hv hw ⊢
    | _ => rfl
  | _ => rfl

end Alike

theorem same_list {vs : List Json} (h : Same (.list vs) w) :
    ∃ ws, w = .list ws ∧ List.Forall₂ Same vs ws := alike_list (fun _ _ h => h) h

theorem same_dict (h : Same (.dict fs) w) :
    ∃ gs gs', w = .dict gs ∧ gs'.Perm gs ∧ FieldsRel Same fs gs' := alike_dict (fun _ _ h => h) h

theorem same_matching (h : Same (.dict fs) (.dict gs)) (hg : Parsed (.dict gs)) :
    Matching Same fs gs := alike_matching (fun _ _ h => h) h hg.1

theorem sameScalar_symm (h : SameScalar v w) : SameScalar w v := by
  cases h with
  | null => exact .null
  | bool b => exact .bool b
  | number hv hw => exact .number hw hv
  | string s => exact .string s

theorem same_symm (h : Same v w) : Same w v := Alike.symm (fun _ _ => sameScalar_symm) h

/-- Only numbers can be respelled. -/
theorem same_scalar (h : Same v w) (hv : v.isContainer = false) (hn : v.number? = none) : w = v := by
  cases h with
  | leaf h =>
    cases h with
    | number hv' _ => simp [hn] at hv'
    | _ => rfl
  | _ => simp [Json.isContainer] at hv

theorem same_string {s : Str} (h : Same (.string s) w) : w = .string s := same_scalar h rfl rfl

theorem same_bool {b : Bool} (h : Same (.bool b) w) : w = .bool b := same_scalar h rfl rfl

theorem same_null (h : Same .null w) : w = .null := same_scalar h rfl rfl

theorem Matching.mono {R S : Json → Json → Prop} (hRS : ∀ v w, R v w → S v w)
    (h : Matching R fs gs) : Matching S fs gs := by
  intro k
  have hk := h k
  generalize get fs k = x, get gs k = y at hk
  cases hk with
  | none => exact .none
  | some h => exact .some (hRS _ _ h)

theorem Matching.symm {R : Json → Json → Prop} (hR : ∀ v w, R v w → R w v)
    (h : Matching R fs gs) : Matching R gs fs := by
  intro k
  have hk := h k
  generalize get fs k = x, get gs k = y at hk
  cases hk with
  | none => exact .none
  | some h => exact .some (hR _ _ h)

/-! Keeping a scalar as it is written. -/

/-- How leaves may be respelled where a schema is read: integers stay as they are written. -/
structure Json.Respells (R : Json → Json → Prop) : Prop where
  same : ∀ v w, R v w → SameScalar v w
  int : ∀ n w, R (.int n) w → w = .int n

/-- The same scalar. -/
def Json.Kept (v w : Json) : Prop := v = w ∧ v.isContainer = false

theorem kept_respells : Json.Respells Json.Kept where
  same := by
    rintro v _ ⟨rfl, hv⟩
    cases v with
    | null => exact .null
    | bool b => exact .bool b
    | int n => exact .number rfl rfl
    | decimal d => exact .number rfl rfl
    | string s => exact .string s
    | _ => simp [Json.isContainer] at hv
  int := fun _ _ h => h.1.symm

theorem kept_refl (v : Json) : Alike Json.Kept v v := by
  induction v using Json.induction with
  | list vs ih => exact .list (List.forall₂_same.mpr ih)
  | dict fs ih =>
    exact .of_fields (List.Perm.refl fs) (List.forall₂_same.mpr (fun f hf => ⟨rfl, ih f hf⟩))
  | _ => exact .leaf ⟨rfl, rfl⟩

/-- Reordered values keep their scalars. -/
theorem reordered_kept (h : Reordered v w) : Alike Json.Kept v w :=
  Alike.mono (fun v w (h : v = w) => h ▸ kept_refl v) h

theorem reordered_refl (v : Json) : Reordered v v := .leaf rfl

theorem forall₂_mem_right {α β : Type*} {R : α → β → Prop} {xs : List α} {ys : List β}
    (h : List.Forall₂ R xs ys) {y : β} (hy : y ∈ ys) : ∃ x ∈ xs, R x y := by
  induction h with
  | nil => simp at hy
  | cons hxy _ ih =>
    rcases List.mem_cons.mp hy with rfl | hy
    · exact ⟨_, by simp, hxy⟩
    · obtain ⟨x, hx, hxy⟩ := ih hy
      exact ⟨x, List.mem_cons_of_mem _ hx, hxy⟩

theorem forall₂_pair {α : Type*} {R : α → α → Prop} {x y : α} {zs : List α}
    (h : List.Forall₂ R [x, y] zs) : ∃ x' y', zs = [x', y'] ∧ R x x' ∧ R y y' := by
  obtain ⟨x', zs', hx, hrest, rfl⟩ := List.forall₂_cons_left_iff.mp h
  obtain ⟨y', zs'', hy, hnil, rfl⟩ := List.forall₂_cons_left_iff.mp hrest
  obtain rfl := List.forall₂_nil_left_iff.mp hnil
  exact ⟨x', y', rfl, hx, hy⟩

/-! What a node says in strings and booleans, which no respelling touches. -/

theorem same_nullBranch (h : Same v w) (hv : NullBranch v) : NullBranch w := by
  obtain rfl : v = _ := hv
  obtain ⟨gs, gs', rfl, hperm, hrel⟩ := same_dict h
  obtain ⟨g, gs'', hfg, hnil, rfl⟩ := List.forall₂_cons_left_iff.mp hrel
  obtain rfl := List.forall₂_nil_left_iff.mp hnil
  obtain rfl := List.singleton_perm.mp hperm
  obtain ⟨hk, hval⟩ := hfg
  exact congrArg (fun g => Json.dict [g]) (Prod.ext hk.symm (same_string hval))

section Node

variable (hm : Matching Same fs gs)
include hm

theorem matching_string {k t : Str} (h : get fs k = some (.string t)) :
    get gs k = some (.string t) := by
  obtain ⟨w, hw, hvw⟩ := hm.some_left h
  rw [hw, same_string hvw]

theorem matching_bool {k : Str} {b : Bool} (h : get fs k = some (.bool b)) :
    get gs k = some (.bool b) := by
  obtain ⟨w, hw, hvw⟩ := hm.some_left h
  rw [hw, same_bool hvw]

theorem matching_hasText (k t : Str) : hasText fs k t = hasText gs k t := by
  have hback := hm.symm (fun _ _ => same_symm)
  rw [Bool.eq_iff_iff, hasText_iff, hasText_iff]
  exact ⟨matching_string hm, matching_string hback⟩

end Node

theorem same_closedObject (h : Same v w) (hw : Parsed w) (hv : ClosedObject v) : ClosedObject w := by
  obtain ⟨fs, rfl, htype, hadd⟩ := hv
  obtain ⟨gs, gs', rfl, -⟩ := same_dict h
  have hm := same_matching h hw
  exact ⟨gs, rfl, matching_string hm htype, matching_bool hm hadd⟩

theorem matching_closedChoice (hm : Matching Same fs gs) (hg : Parsed (.dict gs))
    (h : ClosedChoice fs) : ClosedChoice gs := by
  obtain ⟨hkeys, branches, hget, h2, h64, hall⟩ := h
  refine ⟨fun k => (hm.mem_keys k).symm.trans (hkeys k), ?_⟩
  obtain ⟨w, hw, hvw⟩ := hm.some_left hget
  obtain ⟨ws, rfl, hrel⟩ := same_list hvw
  refine ⟨ws, hw, hrel.length_eq ▸ h2, hrel.length_eq ▸ h64, fun b hb => ?_⟩
  obtain ⟨a, ha, hab⟩ := forall₂_mem_right hrel hb
  exact same_closedObject hab (Json.parsed_item (Json.parsed_field hg (mem_of_get hw)) hb)
    (hall a ha)

theorem same_nullableUnion (hvw : Same v w) (hw : Parsed w) (h : NullableUnion v) :
    NullableUnion w := by
  have htyped : ∀ {b b' : Json}, Same b b' → Parsed b' →
      (∃ fs t, b = .dict fs ∧ get fs (str "type") = some (.string t) ∧ t ≠ str "null") →
      ∃ fs t, b' = .dict fs ∧ get fs (str "type") = some (.string t) ∧ t ≠ str "null" := by
    rintro b b' hbb hpb ⟨fs, t, rfl, ht, hne⟩
    obtain ⟨gs, gs', rfl, -⟩ := same_dict hbb
    exact ⟨gs, t, rfl, matching_string (same_matching hbb hpb) ht, hne⟩
  obtain ⟨a, b, rfl | rfl, ha, hb⟩ := h
  · obtain ⟨ws, rfl, hrel⟩ := same_list hvw
    obtain ⟨a', b', rfl, haa, hbb⟩ := forall₂_pair hrel
    exact ⟨a', b', .inl rfl, same_nullBranch haa ha, htyped hbb (Json.parsed_item hw (by simp)) hb⟩
  · obtain ⟨ws, rfl, hrel⟩ := same_list hvw
    obtain ⟨b', a', rfl, hbb, haa⟩ := forall₂_pair hrel
    exact ⟨a', b', .inr rfl, same_nullBranch haa ha, htyped hbb (Json.parsed_item hw (by simp)) hb⟩

/-- Two documents own the same names, in whatever order. -/
def SameNames (names names' : Option (List Str)) : Prop :=
  Option.Rel (fun a b : List Str => ∀ n, n ∈ a ↔ n ∈ b) names names'

theorem SameNames.isSome {names names' : Option (List Str)} (h : SameNames names names') :
    names.isSome = names'.isSome := by
  cases h <;> rfl

theorem matching_isReference {names names' : Option (List Str)} (hn : SameNames names names')
    (hm : Matching Same fs gs) : isReference names fs = isReference names' gs := by
  rw [isReference, isReference, hn.isSome]
  congr 1
  have := hm.none_iff (str "$ref")
  cases hf : get fs (str "$ref") <;> cases hg : get gs (str "$ref") <;> simp_all

/-! Nodes. -/

section Transfer

variable {R : Json → Json → Prop} (hR : Json.Respells R) (hm : Matching (Alike R) fs gs)
include hR hm

theorem matching_same : Matching Same fs gs := hm.mono (fun _ _ => alike_same hR.same)

theorem matching_int {k : Str} {n : ℤ} (h : get fs k = some (.int n)) : get gs k = some (.int n) := by
  obtain ⟨w, hw, hvw⟩ := hm.some_left h
  cases hvw with
  | leaf h => rw [hw, hR.int n w h]

theorem matching_nonNull {k : Str} (hw : getNonNull gs k = some w) :
    ∃ v, getNonNull fs k = some v ∧ Alike R v w := by
  obtain ⟨hget, hne⟩ := getNonNull_eq_some.mp hw
  obtain ⟨v, hv, hvw⟩ := hm.some_right hget
  refine ⟨v, getNonNull_eq_some.mpr ⟨hv, ?_⟩, hvw⟩
  rintro rfl
  exact hne (same_null (alike_same hR.same hvw))

theorem matching_nonNull_none {k : Str} (h : getNonNull fs k = none) : getNonNull gs k = none := by
  cases hw : getNonNull gs k with
  | none => rfl
  | some w =>
    obtain ⟨v, hv, -⟩ := matching_nonNull hR hm hw
    simp [h] at hv

omit hm in
theorem alike_int {n : ℤ} (h : Alike R (.int n) w) : w = .int n := by
  cases h with
  | leaf h => exact hR.int n w h

theorem matching_plainNode (hg : Parsed (.dict gs)) {nullable root : Bool}
    (h : PlainNode fs nullable root) : PlainNode gs nullable root := by
  have hsame := matching_same hR hm
  have htext := matching_hasText hsame (str "type") (str "array")
  refine ⟨?_, ?_, ?_, ?_, ?_, ?_, ?_, ?_⟩
  · exact fun k hk => h.keywords k ((hm.mem_keys k).mpr hk)
  · intro w hw
    obtain ⟨v, hv, hvw⟩ := matching_nonNull hR hm hw
    obtain ⟨t, ht, rfl⟩ := h.type v hv
    exact ⟨t, ht, same_string (alike_same hR.same hvw)⟩
  · intro w hw
    obtain ⟨v, hv, hvw⟩ := matching_nonNull hR hm hw
    obtain ⟨b, rfl⟩ := h.additional v hv
    exact ⟨b, same_bool (alike_same hR.same hvw)⟩
  · intro harray
    obtain ⟨⟨item, hitem⟩, n, hmax, hle, hmin⟩ := h.array (htext.trans harray)
    obtain ⟨w, hw, hvw⟩ := hm.some_left hitem
    obtain ⟨item', -, rfl, -⟩ := alike_dict hR.same hvw
    refine ⟨⟨item', hw⟩, n, matching_int hR hm hmax, hle, fun w hw => ?_⟩
    obtain ⟨v, hv, hvw⟩ := matching_nonNull hR hm hw
    obtain ⟨m, rfl, hmn⟩ := hmin v hv
    exact ⟨m, alike_int hR hvw, hmn⟩
  · intro hnot k hk
    exact matching_nonNull_none hR hm (h.notArray (fun ha => hnot (htext.symm.trans ha)) k hk)
  · intro w hw
    obtain ⟨v, hv, hvw⟩ := matching_nonNull hR hm hw
    obtain ⟨items, rfl, h1, h2, hall⟩ := h.enum v hv
    obtain ⟨ws, rfl, hrel⟩ := alike_list hR.same hvw
    refine ⟨ws, rfl, hrel.length_eq ▸ h1, hrel.length_eq ▸ h2, fun i hi => ?_⟩
    obtain ⟨j, hj, hji⟩ := forall₂_mem_right hrel hi
    rw [← alike_isContainer hR.same hji]
    exact hall j hj
  · intro k hk w hw
    obtain ⟨v, hv, hvw⟩ := matching_nonNull hR hm hw
    obtain ⟨n, rfl⟩ := h.bounds k hk v hv
    exact ⟨n, alike_int hR hvw⟩
  · intro w hw
    obtain ⟨v, hv, hvw⟩ := matching_nonNull hR hm hw
    rcases h.anyOf v hv with ⟨hroot, hclosed⟩ | ⟨hnull, hunion⟩
    · exact .inl ⟨hroot, matching_closedChoice hsame hg hclosed⟩
    · exact .inr ⟨hnull, same_nullableUnion (alike_same hR.same hvw)
        (Json.parsed_field hg (mem_of_get (getNonNull_eq_some.mp hw).1)) hunion⟩

end Transfer

/-! Subschemas. -/

theorem parsed_child {c : Json} (h : Parsed (.dict fs))
    (hc : c ∈ propertyChildren fs ∨ c ∈ itemChildren fs ∨ c ∈ branchChildren fs) : Parsed c := by
  obtain ⟨f, hf, hcase⟩ := child_below hc
  have hv := Json.parsed_field h hf
  rcases hcase with rfl | ⟨vs, hvs, hc⟩ | ⟨gs, hgs, g, hg, rfl⟩
  · exact hv
  · exact Json.parsed_item (hvs ▸ hv) hc
  · exact Json.parsed_field (hgs ▸ hv) hg

section Children

variable {R : Json → Json → Prop} (hR : ∀ v w, R v w → SameScalar v w)
variable (hm : Matching (Alike R) fs gs)
include hR hm

/-- The values under `properties` match up in some order. -/
theorem propertyChildren_rel :
    ∃ cs, cs.Perm (propertyChildren gs) ∧ List.Forall₂ (Alike R) (propertyChildren fs) cs := by
  have hdict := hm (str "properties")
  unfold propertyChildren
  cases hf : get fs (str "properties") with
  | none =>
    rw [(hm.none_iff _).mp hf]
    exact ⟨[], .refl _, .nil⟩
  | some v =>
    obtain ⟨w, hw, hvw⟩ := hm.some_left hf
    rw [hw]
    cases v with
    | dict ps =>
      obtain ⟨qs, qs', rfl, hperm, hrel⟩ := alike_dict hR hvw
      exact ⟨qs'.map Prod.snd, hperm.map _, (Json.fieldsRel_iff.mp hrel).2⟩
    | _ =>
      obtain ⟨cs, hcs⟩ | hw : (∃ ps, w = .dict ps) ∨ ∀ ps, w ≠ .dict ps := by
        cases w <;> simp
      · obtain ⟨ps, -, hps, -⟩ := same_dict (hcs ▸ same_symm (alike_same hR hvw))
        cases hps
      · cases w with
        | dict ps => exact absurd rfl (hw ps)
        | _ => exact ⟨[], .refl _, .nil⟩

theorem itemChildren_rel : List.Forall₂ (Alike R) (itemChildren fs) (itemChildren gs) := by
  unfold itemChildren
  rw [matching_hasText (hm.mono (fun _ _ => alike_same hR)) (str "type") (str "array")]
  split_ifs
  · cases hf : get fs (str "items") with
    | none =>
      rw [(hm.none_iff _).mp hf]
      exact .nil
    | some v =>
      obtain ⟨w, hw, hvw⟩ := hm.some_left hf
      rw [hw]
      exact .cons hvw .nil
  · exact .nil

theorem branchChildren_rel : List.Forall₂ (Alike R) (branchChildren fs) (branchChildren gs) := by
  unfold branchChildren
  cases hf : get fs (str "anyOf") with
  | none =>
    rw [(hm.none_iff _).mp hf]
    exact .nil
  | some v =>
    obtain ⟨w, hw, hvw⟩ := hm.some_left hf
    rw [hw]
    cases v with
    | list vs =>
      obtain ⟨ws, rfl, hrel⟩ := alike_list hR hvw
      exact hrel
    | _ =>
      obtain ⟨cs, hcs⟩ | hw : (∃ ps, w = .list ps) ∨ ∀ ps, w ≠ .list ps := by
        cases w <;> simp
      · obtain ⟨ps, hps, -⟩ := same_list (hcs ▸ same_symm (alike_same hR hvw))
        cases hps
      · cases w with
        | list ps => exact absurd rfl (hw ps)
        | _ => exact .nil

end Children

/-- Alike places in two documents. -/
structure Like (R : Json → Json → Prop) (p q : Position) : Prop where
  schema : Alike R p.schema q.schema
  nullable : p.nullable = q.nullable
  root : p.root = q.root
  left : Parsed p.schema
  right : Parsed q.schema

section Walk

variable {R : Json → Json → Prop} (hR : Json.Respells R)
include hR

theorem like_nodeOk {names names' : Option (List Str)} {p q : Position}
    (hn : SameNames names names') (h : Like R p q) (hp : NodeOk names p) : NodeOk names' q := by
  obtain ⟨⟨v, nullable, root⟩, hpp⟩ : ∃ x : Position, p = x := ⟨p, rfl⟩
  subst hpp
  obtain ⟨w, nullable', root'⟩ := q
  obtain ⟨hvw, rfl, rfl, hv, hw⟩ := h
  simp only at hvw hv hw
  obtain ⟨fs, rfl, hok⟩ := hp
  obtain ⟨gs, gs', rfl, -⟩ := alike_dict hR.same hvw
  have hm := alike_matching hR.same hvw hw.1
  have hsame := matching_same hR hm
  refine ⟨gs, rfl, ?_⟩
  rw [← matching_isReference hn hsame]
  split_ifs at hok ⊢
  · obtain ⟨owned, rfl, hkeys, name, hname, hget⟩ := hok
    cases hn with
    | some hnames =>
      exact ⟨_, rfl, fun k => (hm.mem_keys k).symm.trans (hkeys k), name, (hnames name).mp hname,
        matching_string hsame hget⟩
  · exact matching_plainNode hR hm hw hok

/-- A step in one document is a step between alike places in the other. -/
theorem like_child {p q d : Position} (h : Like R p q) (hd : Child q d) :
    ∃ c, Child p c ∧ Like R c d := by
  obtain ⟨v, nullable, root⟩ := p
  obtain ⟨hvw, hnullable, hroot, hv, hw⟩ := h
  simp only at hvw hnullable hroot hv
  have hsetup : ∀ {gs : List (Str × Json)}, Alike R v (.dict gs) → Parsed (.dict gs) →
      ∃ fs, v = .dict fs ∧ Matching (Alike R) fs gs := by
    intro gs hvw hg
    obtain ⟨fs, fs', rfl, -⟩ := same_dict (same_symm (alike_same hR.same hvw))
    exact ⟨fs, rfl, alike_matching hR.same hvw hg.1⟩
  have hclosed : ∀ {fs gs : List (Str × Json)}, Matching (Alike R) fs gs → Parsed (.dict fs) →
      Parsed (.dict gs) → (ClosedChoice fs ↔ ClosedChoice gs) := by
    intro fs gs hm hf hg
    have hsame := matching_same hR hm
    exact ⟨matching_closedChoice hsame hg,
      matching_closedChoice (hsame.symm (fun _ _ => same_symm)) hf⟩
  cases hd with
  | property hc =>
    obtain ⟨fs, rfl, hm⟩ := hsetup hvw hw
    obtain ⟨cs, hperm, hrel⟩ := propertyChildren_rel hR.same hm
    obtain ⟨b, hb, hbc⟩ := forall₂_mem_right hrel (hperm.mem_iff.mpr hc)
    exact ⟨_, .property hb, hbc, hnullable, rfl, parsed_child hv (.inl hb), parsed_child hw (.inl hc)⟩
  | item hc =>
    obtain ⟨fs, rfl, hm⟩ := hsetup hvw hw
    obtain ⟨b, hb, hbc⟩ := forall₂_mem_right (itemChildren_rel hR.same hm) hc
    exact ⟨_, .item hb, hbc, hnullable, rfl, parsed_child hv (.inr (.inl hb)),
      parsed_child hw (.inr (.inl hc))⟩
  | choice hchoice hc =>
    obtain ⟨fs, rfl, hm⟩ := hsetup hvw hw
    obtain ⟨b, hb, hbc⟩ := forall₂_mem_right (branchChildren_rel hR.same hm) hc
    subst hroot
    exact ⟨_, .choice ((hclosed hm hv hw).mpr hchoice) hb, hbc, rfl, rfl,
      parsed_child hv (.inr (.inr hb)), parsed_child hw (.inr (.inr hc))⟩
  | union hnot hc =>
    obtain ⟨fs, rfl, hm⟩ := hsetup hvw hw
    obtain ⟨b, hb, hbc⟩ := forall₂_mem_right (branchChildren_rel hR.same hm) hc
    subst hroot
    exact ⟨_, .union (fun h => hnot ⟨h.1, (hclosed hm hv hw).mp h.2⟩) hb, hbc, rfl, rfl,
      parsed_child hv (.inr (.inr hb)), parsed_child hw (.inr (.inr hc))⟩

theorem like_allOk {names names' : Option (List Str)} {p q : Position}
    (hn : SameNames names names') (h : Like R p q) (hp : AllOk names p) : AllOk names' q := by
  intro d hqd
  have hreach : ∃ c, Relation.ReflTransGen Child p c ∧ Like R c d := by
    induction hqd with
    | refl => exact ⟨p, .refl, h⟩
    | tail _ hstep ih =>
      obtain ⟨c, hpc, hcd⟩ := ih
      obtain ⟨c', hstep', hcd'⟩ := like_child hR hcd hstep
      exact ⟨c', hpc.tail hstep', hcd'⟩
  obtain ⟨c, hpc, hcd⟩ := hreach
  exact like_nodeOk hR hn hcd (hp c hpc)

end Walk

/-! Counts. -/

/-- Every subschema of a node is a place one step below it. -/
theorem child_position {nullable root : Bool} {c : Json}
    (hc : c ∈ propertyChildren fs ∨ c ∈ itemChildren fs ∨ c ∈ branchChildren fs) :
    ∃ nullable', Child ⟨.dict fs, nullable, root⟩ ⟨c, nullable', false⟩ := by
  rcases hc with hc | hc | hc
  · exact ⟨nullable, .property hc⟩
  · exact ⟨nullable, .item hc⟩
  · by_cases hclosed : root = true ∧ ClosedChoice fs
    · obtain ⟨rfl, hclosed⟩ := hclosed
      exact ⟨true, .choice hclosed hc⟩
    · exact ⟨false, .union hclosed hc⟩

section Tally

variable {R : Json → Json → Prop} (hR : Json.Respells R)
include hR

/-- A count is the same where the weights of alike plain nodes are. -/
theorem tally_alike {names names' : Option (List Str)} (hn : SameNames names names')
    {weight : List (Str × Json) → ℕ} {combine : List ℕ → ℕ}
    (hweight : ∀ fs gs nullable root, PlainNode fs nullable root → Matching (Alike R) fs gs →
      weight fs = weight gs) (n : ℕ) :
    ∀ v w nullable root, Json.height v ≤ n → Alike R v w → Parsed v → Parsed w →
      AllOk names ⟨v, nullable, root⟩ →
      tally names weight combine v = tally names' weight combine w := by
  induction n with
  | zero =>
    intro v w _ _ hle
    have := Json.height_pos v
    omega
  | succ n ih =>
    intro v w nullable root hle hvw hv hw hok
    obtain ⟨fs, hfs, hnode⟩ := (allOk_iff.mp hok).1
    obtain rfl : v = .dict fs := hfs
    obtain ⟨gs, gs', rfl, -⟩ := alike_dict hR.same hvw
    have hm := alike_matching hR.same hvw hw.1
    rw [tally_dict, tally_dict, matching_isReference hn (matching_same hR hm)]
    rw [matching_isReference hn (matching_same hR hm)] at hnode
    split_ifs at hnode ⊢
    · rfl
    · have hsub : ∀ {cs ds : List Json}, List.Forall₂ (Alike R) cs ds →
          (∀ c ∈ cs, c ∈ propertyChildren fs ∨ c ∈ itemChildren fs ∨ c ∈ branchChildren fs) →
          (∀ d ∈ ds, Parsed d) →
          cs.map (tally names weight combine) = ds.map (tally names' weight combine) := by
        intro cs ds hrel hcs hds
        induction hrel with
        | nil => rfl
        | @cons c d cs ds hcd _ ihs =>
          have hmem := hcs c (by simp)
          obtain ⟨nullable', hchild⟩ := @child_position fs nullable root c hmem
          rw [List.map_cons, List.map_cons, ih c d nullable' false (height_child hle hmem) hcd
            (parsed_child hv hmem) (hds d (by simp)) ((allOk_iff.mp hok).2 _ hchild),
            ihs (fun c hc => hcs c (List.mem_cons_of_mem _ hc))
              (fun d hd => hds d (List.mem_cons_of_mem _ hd))]
      obtain ⟨cs, hperm, hprops⟩ := propertyChildren_rel hR.same hm
      have hp := hsub hprops (fun c hc => .inl hc)
        (fun d hd => parsed_child hw (.inl (hperm.mem_iff.mp hd)))
      have hi := hsub (itemChildren_rel hR.same hm) (fun c hc => .inr (.inl hc))
        (fun d hd => parsed_child hw (.inr (.inl hd)))
      have hb := hsub (branchChildren_rel hR.same hm) (fun c hc => .inr (.inr hc))
        (fun d hd => parsed_child hw (.inr (.inr hd)))
      rw [hp, hi, hb, hweight _ _ _ _ hnode hm, (hperm.map _).sum_eq]

omit hR in
theorem getNonNull_eq_none {k : Str} :
    getNonNull fs k = none ↔ get fs k = none ∨ get fs k = some .null := by
  unfold getNonNull
  split <;> simp_all

/-- Alike plain nodes have one bound: an integer under `maxItems`, or nothing there. -/
theorem arrayBound_matching {nullable root : Bool} (hp : PlainNode fs nullable root)
    (hm : Matching (Alike R) fs gs) : arrayBound fs = arrayBound gs := by
  unfold arrayBound
  congr 1
  by_cases harray : hasText fs (str "type") (str "array") = true
  · obtain ⟨-, n, hmax, -⟩ := hp.array harray
    rw [hmax, matching_int hR hm hmax]
  · have hnone := hp.notArray harray (str "maxItems") (by simp)
    rw [getNonNull_eq_none] at hnone
    rcases hnone with hnone | hnull
    · rw [hnone, (hm.none_iff _).mp hnone]
    · obtain ⟨w, hw, hvw⟩ := hm.some_left hnull
      rw [hnull, hw, same_null (alike_same hR.same hvw)]

end Tally

end Gateway
