import Gateway.Contracts.Decoder

/-! The decision and the projection see a schema as a value, never the order of its keys. -/
namespace Gateway

open Json (get keys Parsed Same Alike FieldsRel)

variable {v w : Json} {fs gs : List (Str × Json)}

/-! The decision. -/

/-- From a schema to the schemas the loop goes on to. -/
inductive Below : Json → Json → Prop
  | mk {node : List (Str × Json)} {c : Json} (h : c ∈ nodeChildren node) : Below (.dict node) c

/-- A node names all its properties in `required`. -/
def Covered : Json → Prop
  | .dict node => requiresAll node = true
  | _ => True

/-- Every node the loop can come to names all its properties. -/
def AllCovered (v : Json) : Prop := ∀ w, Relation.ReflTransGen Below v w → Covered w

theorem allCovered_iff : AllCovered v ↔ Covered v ∧ ∀ c, Below v c → AllCovered c := by
  constructor
  · intro h
    exact ⟨h v .refl, fun c hc w hw => h w (.head hc hw)⟩
  · rintro ⟨hv, hc⟩ w hw
    rcases Relation.ReflTransGen.cases_head hw with rfl | ⟨c, hvc, hcw⟩
    · exact hv
    · exact hc c hvc w hcw

theorem nodes_dict (fs : List (Str × Json)) :
    Json.nodes (.dict fs) = (fs.map (fun f => Json.nodes f.2)).sum + 1 := by
  rw [Json.nodes, Json.nodesFields_eq]

theorem nodes_list (vs : List Json) : Json.nodes (.list vs) = (vs.map Json.nodes).sum + 1 := by
  rw [Json.nodes, Json.nodesItems_eq]

/-- Three different keys hold no more nodes than their dict. -/
theorem nodes_get_three (h : (keys fs).Nodup) {a b c : Str} (hab : a ≠ b) (hac : a ≠ c) (hbc : b ≠ c) :
    ((get fs a).map Json.nodes).getD 0 + ((get fs b).map Json.nodes).getD 0 +
      ((get fs c).map Json.nodes).getD 0 ≤ (fs.map (fun f => Json.nodes f.2)).sum := by
  induction fs with
  | nil => simp [Json.get]
  | cons f fs ih =>
    obtain ⟨hf, hn⟩ := List.nodup_cons.mp h
    have hnone : get fs f.1 = none := by
      cases hg : get fs f.1 with
      | none => rfl
      | some v => exact absurd (List.mem_map_of_mem (f := Prod.fst) (mem_of_get hg)) hf
    have hrest := ih hn
    rw [get_cons, get_cons, get_cons, List.map_cons, List.sum_cons]
    by_cases ha : f.1 = a
    · have hb : f.1 ≠ b := ha ▸ hab
      have hc : f.1 ≠ c := ha ▸ hac
      rw [← ha, hnone] at hrest
      simp only [if_pos ha, if_neg hb, if_neg hc, Option.map_some, Option.getD_some,
        Option.map_none, Option.getD_none] at hrest ⊢
      omega
    · by_cases hb : f.1 = b
      · have hc : f.1 ≠ c := hb ▸ hbc
        rw [← hb, hnone] at hrest
        simp only [if_neg ha, if_pos hb, if_neg hc, Option.map_some, Option.getD_some,
          Option.map_none, Option.getD_none] at hrest ⊢
        omega
      · by_cases hc : f.1 = c
        · rw [← hc, hnone] at hrest
          simp only [if_neg ha, if_neg hb, if_pos hc, Option.map_some, Option.getD_some,
            Option.map_none, Option.getD_none] at hrest ⊢
          omega
        · simp only [if_neg ha, if_neg hb, if_neg hc]
          omega

/-- What a visit pushes weighs less than what it took. -/
theorem nodes_children (h : (keys fs).Nodup) :
    ((nodeChildren fs).map Json.nodes).sum + 1 ≤ Json.nodes (.dict fs) := by
  have hthree := nodes_get_three h (a := str "properties") (b := str "items") (c := str "anyOf")
    (by decide) (by decide) (by decide)
  have hp : ((nodeProperties fs).map (fun f => Json.nodes f.2)).sum ≤
      ((get fs (str "properties")).map Json.nodes).getD 0 := by
    unfold nodeProperties
    cases get fs (str "properties") with
    | none => simp
    | some v =>
      cases v with
      | dict ps =>
        simp only [Option.bind_some, Json.asDict?, Option.getD_some, Option.map_some, nodes_dict]
        omega
      | _ => simp [Json.asDict?]
  have hb : ((nodeBranches fs).map Json.nodes).sum ≤
      ((get fs (str "anyOf")).map Json.nodes).getD 0 := by
    unfold nodeBranches
    cases get fs (str "anyOf") with
    | none => simp
    | some v =>
      cases v with
      | list vs =>
        simp only [Option.bind_some, Json.asList?, Option.getD_some, Option.map_some, nodes_list]
        omega
      | _ => simp [Json.asList?]
  have hi : ((get fs (str "items")).toList.map Json.nodes).sum =
      ((get fs (str "items")).map Json.nodes).getD 0 := by
    cases get fs (str "items") <;> simp
  rw [nodes_dict]
  simp only [nodeChildren, List.map_append, List.map_map, List.sum_append, Function.comp_def]
  omega

theorem parsed_below (hv : Parsed (.dict fs)) {c : Json} (hc : c ∈ nodeChildren fs) : Parsed c := by
  simp only [nodeChildren, List.mem_append] at hc
  rcases hc with (hc | hc) | hc
  · obtain ⟨f, hf, rfl⟩ := List.mem_map.mp hc
    unfold nodeProperties at hf
    cases hg : get fs (str "properties") with
    | none => simp [hg] at hf
    | some v =>
      have hp := Json.parsed_field hv (mem_of_get hg)
      cases v with
      | dict ps =>
        simp only [hg, Option.bind_some, Json.asDict?, Option.getD_some] at hf
        exact Json.parsed_field hp hf
      | _ => simp [hg, Json.asDict?] at hf
  · exact Json.parsed_field hv (mem_of_get (Option.mem_toList.mp hc))
  · unfold nodeBranches at hc
    cases hg : get fs (str "anyOf") with
    | none => simp [hg] at hc
    | some v =>
      have hp := Json.parsed_field hv (mem_of_get hg)
      cases v with
      | list vs =>
        simp only [hg, Option.bind_some, Json.asList?, Option.getD_some] at hc
        exact Json.parsed_item hp hc
      | _ => simp [hg, Json.asList?] at hc

/-- With fuel for every node below, the loop decides coverage of all it can reach. -/
theorem fieldOrderLoop_eq_true {fuel : ℕ} {pending : List Json}
    (hf : (pending.map Json.nodes).sum ≤ fuel) (hp : ∀ v ∈ pending, Parsed v) :
    fieldOrderLoop fuel pending = true ↔ ∀ v ∈ pending, AllCovered v := by
  induction fuel generalizing pending with
  | zero =>
    cases pending with
    | nil => simp [fieldOrderLoop]
    | cons v pending =>
      have := Json.nodes_pos v
      simp only [List.map_cons, List.sum_cons] at hf
      omega
  | succ fuel ih =>
    cases pending with
    | nil => simp [fieldOrderLoop]
    | cons v pending =>
      obtain ⟨hv, hrest⟩ := List.forall_mem_cons.mp hp
      simp only [List.map_cons, List.sum_cons] at hf
      rw [List.forall_mem_cons, allCovered_iff]
      have hskip : (∀ c, ¬ Below v c) → Covered v → (fieldOrderLoop fuel pending = true ↔
          (Covered v ∧ ∀ c, Below v c → AllCovered c) ∧ ∀ w ∈ pending, AllCovered w) := by
        intro hnone hc
        have := Json.nodes_pos v
        rw [ih (by omega) hrest]
        simp [hc, hnone]
      cases v with
      | dict node =>
        have hnodes := nodes_children hv.1
        have hstack := @ih ((nodeChildren node).reverse ++ pending)
          (by simp only [List.map_append, List.map_reverse, List.sum_append, List.sum_reverse]
              omega)
          (by
            intro w hw
            rcases List.mem_append.mp hw with hw | hw
            · exact parsed_below hv (List.mem_reverse.mp hw)
            · exact hrest w hw)
        have hbelow : (∀ c, Below (.dict node) c → AllCovered c) ↔
            ∀ c ∈ nodeChildren node, AllCovered c :=
          ⟨fun h c hc => h c (.mk hc), fun h c hc => by cases hc with | mk hc => exact h c hc⟩
        simp only [fieldOrderLoop, Covered, hbelow]
        split_ifs with hr
        · rw [hstack]
          simp only [List.mem_append, List.mem_reverse, hr, true_and]
          exact ⟨fun h => ⟨fun c hc => h c (.inl hc), fun w hw => h w (.inr hw)⟩,
            fun h w hw => hw.elim (h.1 w) (h.2 w)⟩
        · simp [hr]
      | _ => exact hskip (fun c hc => by cases hc) trivial

/-! Two spellings of one schema. -/

theorem same_asDict (h : Same v w) :
    ∃ gs', gs'.Perm (w.asDict?.getD []) ∧ FieldsRel Same (v.asDict?.getD []) gs' := by
  cases h with
  | leaf h =>
    refine ⟨[], ?_⟩
    cases h with
    | number hv hw => cases v <;> cases w <;> simp_all [Json.number?, Json.asDict?, FieldsRel]
    | _ => exact ⟨.refl _, .nil⟩
  | list h => exact ⟨[], .refl _, .nil⟩
  | dict hperm hkeys h => exact ⟨_, hperm, Json.fieldsRel_iff.mpr ⟨hkeys, h⟩⟩

theorem same_asList (h : Same v w) :
    List.Forall₂ Same (v.asList?.getD []) (w.asList?.getD []) := by
  cases h with
  | leaf h =>
    cases h with
    | number hv hw => cases v <;> cases w <;> simp_all [Json.number?, Json.asList?]
    | _ => exact .nil
  | list h => exact h
  | dict _ _ h => exact .nil

theorem same_asString (h : Same v w) : v.asString? = w.asString? := by
  cases h with
  | leaf h =>
    cases h with
    | number hv hw => cases v <;> cases w <;> simp_all [Json.number?, Json.asString?]
    | _ => rfl
  | list h => rfl
  | dict _ _ h => rfl

section Spellings

variable (hm : Matching Same fs gs)
include hm

theorem nodeProperties_rel :
    ∃ ps, ps.Perm (nodeProperties gs) ∧ FieldsRel Same (nodeProperties fs) ps := by
  unfold nodeProperties
  cases hf : get fs (str "properties") with
  | none =>
    rw [(hm.none_iff _).mp hf]
    exact ⟨[], .refl _, .nil⟩
  | some v =>
    obtain ⟨w, hw, hvw⟩ := hm.some_left hf
    rw [hw]
    exact same_asDict hvw

theorem nodeBranches_rel : List.Forall₂ Same (nodeBranches fs) (nodeBranches gs) := by
  unfold nodeBranches
  cases hf : get fs (str "anyOf") with
  | none =>
    rw [(hm.none_iff _).mp hf]
    exact .nil
  | some v =>
    obtain ⟨w, hw, hvw⟩ := hm.some_left hf
    rw [hw]
    exact same_asList hvw

theorem requiredNames_eq : requiredNames fs = requiredNames gs := by
  unfold requiredNames
  cases hf : get fs (str "required") with
  | none => rw [(hm.none_iff _).mp hf]
  | some v =>
    obtain ⟨w, hw, hvw⟩ := hm.some_left hf
    rw [hw]
    have hlist := same_asList hvw
    simp only [Option.bind_some]
    generalize v.asList?.getD [] = vs at hlist ⊢
    generalize w.asList?.getD [] = ws at hlist ⊢
    induction hlist with
    | nil => rfl
    | cons h _ ih => rw [List.filterMap_cons, List.filterMap_cons, same_asString h, ih]

theorem requiresAll_eq : requiresAll fs = requiresAll gs := by
  obtain ⟨ps, hperm, hrel⟩ := nodeProperties_rel hm
  have hkeys : ∀ k, k ∈ keys (nodeProperties fs) ↔ k ∈ keys (nodeProperties gs) := by
    intro k
    rw [(Json.fieldsRel_iff.mp hrel).1]
    exact (hperm.map Prod.fst).mem_iff
  rw [Bool.eq_iff_iff, requiresAll, requiresAll, List.all_eq_true, List.all_eq_true,
    requiredNames_eq hm]
  simp only [hkeys]

/-- Every child in one spelling has a child of the same value in the other. -/
theorem nodeChildren_mem {d : Json} (hd : d ∈ nodeChildren gs) :
    ∃ c ∈ nodeChildren fs, Same c d := by
  simp only [nodeChildren, List.mem_append] at hd ⊢
  rcases hd with (hd | hd) | hd
  · obtain ⟨ps, hperm, hrel⟩ := nodeProperties_rel hm
    obtain ⟨c, hc, hcd⟩ := forall₂_mem_right (Json.fieldsRel_iff.mp hrel).2
      ((hperm.map Prod.snd).mem_iff.mpr hd)
    exact ⟨c, .inl (.inl hc), hcd⟩
  · obtain ⟨c, hc, hcd⟩ := hm.some_right (Option.mem_toList.mp hd)
    exact ⟨c, .inl (.inr (Option.mem_toList.mpr hc)), hcd⟩
  · obtain ⟨c, hc, hcd⟩ := forall₂_mem_right (nodeBranches_rel hm) hd
    exact ⟨c, .inr hc, hcd⟩

end Spellings

theorem same_covered (h : Same v w) (hw : Parsed w) (hv : Covered v) : Covered w := by
  cases w with
  | dict gs =>
    obtain ⟨fs, fs', rfl, -⟩ := same_dict (same_symm h)
    exact (requiresAll_eq (same_matching h hw)).symm.trans hv
  | _ => trivial

theorem same_allCovered (h : Same v w) (hw : Parsed w) (hv : AllCovered v) : AllCovered w := by
  intro d hd
  have hreach : ∃ c, Relation.ReflTransGen Below v c ∧ Same c d ∧ Parsed d := by
    induction hd with
    | refl => exact ⟨v, .refl, h, hw⟩
    | tail _ hstep ih =>
      obtain ⟨c, hvc, hcd, hp⟩ := ih
      cases hstep with
      | mk hmem =>
        obtain ⟨fs, fs', rfl, -⟩ := same_dict (same_symm hcd)
        obtain ⟨c', hc', hsame⟩ := nodeChildren_mem (same_matching hcd hp) hmem
        exact ⟨c', hvc.tail (.mk hc'), hsame, parsed_below hp hmem⟩
  obtain ⟨c, hvc, hcd, hp⟩ := hreach
  exact same_covered hcd hp (hv c hvc)

/-- The decision is the same for every spelling of a schema. -/
theorem usesDecoderFieldOrder_same (h : Same (.dict fs) (.dict gs)) (hf : Parsed (.dict fs))
    (hg : Parsed (.dict gs)) (task : Task) :
    usesDecoderFieldOrder fs task = usesDecoderFieldOrder gs task := by
  have hm := same_matching h hg
  have hdefs : usesPassageDefinitions fs = usesPassageDefinitions gs := by
    unfold usesPassageDefinitions
    have := hm.none_iff (str "$defs")
    cases hf : get fs (str "$defs") <;> cases hg : get gs (str "$defs") <;> simp_all
  have hloop : ∀ {hs}, Parsed (.dict hs) →
      (fieldOrderLoop (Json.nodes (.dict hs)) [.dict hs] = true ↔ AllCovered (.dict hs)) := by
    intro hs hp
    rw [fieldOrderLoop_eq_true (by simp) (by simpa using hp)]
    simp
  have hcovered : fieldOrderLoop (Json.nodes (.dict fs)) [.dict fs] =
      fieldOrderLoop (Json.nodes (.dict gs)) [.dict gs] := by
    rw [Bool.eq_iff_iff, hloop hf, hloop hg]
    exact ⟨same_allCovered h hg, same_allCovered (same_symm h) hf⟩
  rw [usesDecoderFieldOrder, usesDecoderFieldOrder, hdefs, hcovered]

/-! The projection. -/

/-- Two values are written alike, or fail alike. -/
def WrittenAlike (sortKeys : Bool) (v w : Json) : Prop :=
  encodeJson sortKeys v = encodeJson sortKeys w

theorem writtenAlike_list {sortKeys : Bool} {vs ws : List Json}
    (h : List.Forall₂ (WrittenAlike sortKeys) vs ws) :
    WrittenAlike sortKeys (.list vs) (.list ws) := by
  have hitems : encodeItems sortKeys vs = encodeItems sortKeys ws := by
    induction h with
    | nil => rfl
    | cons h _ ih => rw [encodeItems, encodeItems, h, ih]
  rw [WrittenAlike, encodeJson, encodeJson, hitems]

theorem writtenAlike_dict {sortKeys : Bool} (h : FieldsRel (WrittenAlike sortKeys) fs gs) :
    WrittenAlike sortKeys (.dict fs) (.dict gs) := by
  have hfields : encodeFields sortKeys fs = encodeFields sortKeys gs := by
    rw [Json.encodeFields_eq, Json.encodeFields_eq]
    exact Json.map_eq_of_forall₂ h (fun f _ g _ hfg => Prod.ext hfg.1 hfg.2)
  rw [WrittenAlike, encodeJson, encodeJson, hfields]

theorem writtenAlike_scalar (sortKeys : Bool) (h : Json.SameScalar v w) (hv : Parsed v)
    (hw : Parsed w) : WrittenAlike sortKeys v w := by
  have hunsorted : ∀ {u : Json}, u.isContainer = false →
      encodeJson sortKeys u = encodeJson true u := by
    intro u hu
    cases u <;> first | rfl | simp [Json.isContainer] at hu
  have hscalar : v.isContainer = false ∧ w.isContainer = false := by
    cases h with
    | number hv hw => cases v <;> cases w <;> simp_all [Json.number?, Json.isContainer]
    | _ => exact ⟨rfl, rfl⟩
  rw [WrittenAlike, hunsorted hscalar.1, hunsorted hscalar.2, Json.encodeJson_canonText hv,
    Json.encodeJson_canonText hw, h.canonText_eq]

/-- Sorting sees a list of distinct keys as a set. -/
theorem names_eq (r : Reading) {names names' : List Str} (h : names.Perm names') :
    r.names names = r.names names' := by
  have hsorted : names.insertionSort (· ≤ ·) = names'.insertionSort (· ≤ ·) :=
    List.Perm.eq_of_pairwise (fun _ _ _ _ h h' => le_antisymm h h')
      (List.pairwise_insertionSort _ _) (List.pairwise_insertionSort _ _)
      ((List.perm_insertionSort _ _).trans (h.trans (List.perm_insertionSort _ _).symm))
  cases r <;> simp only [Reading.names, hsorted]

theorem field_eq (hm : Matching Same fs gs) (r : Reading) : r.field fs = r.field gs := by
  funext key
  cases r <;> simp only [Reading.field, requiredNames_eq hm]

theorem pick_rel {R : Json → Json → Prop} (hm : Matching R fs gs) (names : List Str) :
    FieldsRel R (pick names fs) (pick names gs) := by
  induction names with
  | nil => exact .nil
  | cons name names ih =>
    unfold pick at ih ⊢
    have hn := hm name
    rw [List.filterMap_cons, List.filterMap_cons]
    cases hf : get fs name with
    | none =>
      rw [(hm.none_iff _).mp hf]
      exact ih
    | some v =>
      obtain ⟨w, hw, hvw⟩ := hm.some_left hf
      rw [hw]
      exact .cons ⟨rfl, hvw⟩ ih

theorem get_orderedFields (r : Str → Reading) (fs : List (Str × Json)) (k : Str) :
    get (orderedFields r fs) k = (get fs k).map (ordered (r k)) := by
  rw [orderedFields_eq]
  induction fs with
  | nil => rfl
  | cons f fs ih =>
    rw [List.map_cons, get_cons, get_cons, ih]
    by_cases hk : f.1 = k <;> simp [hk]

theorem keys_orderedFields (r : Str → Reading) (fs : List (Str × Json)) :
    keys (orderedFields r fs) = keys fs := by
  simp [orderedFields_eq, keys, Function.comp_def]

theorem forall₂_discharge {α : Type*} {P Q : α → Prop} {R : α → α → Prop} {xs ys : List α}
    (h : List.Forall₂ (fun x y => P x → Q y → R x y) xs ys) (hP : ∀ x ∈ xs, P x)
    (hQ : ∀ y ∈ ys, Q y) : List.Forall₂ R xs ys := by
  induction h with
  | nil => exact .nil
  | cons h _ ih =>
    obtain ⟨hx, hP⟩ := List.forall_mem_cons.mp hP
    obtain ⟨hy, hQ⟩ := List.forall_mem_cons.mp hQ
    exact .cons (h hx hy) (ih hP hQ)

/-- Both spellings are projected to values that the unsorted encoder writes alike. -/
theorem ordered_writtenAlike (h : Same v w) :
    Parsed v → Parsed w → ∀ r, WrittenAlike false (ordered r v) (ordered r w) := by
  refine (h.induction (P := fun v w => Same v w ∧ (Parsed v → Parsed w →
    ∀ r, WrittenAlike false (ordered r v) (ordered r w))) ?leaf ?list ?dict).2
  case leaf =>
    intro v w h
    refine ⟨.leaf h, fun hv hw r => ?_⟩
    have hself : ordered r v = v ∧ ordered r w = w := by
      cases h with
      | number hv hw => cases v <;> cases w <;> simp_all [Json.number?, ordered]
      | _ => exact ⟨by rw [ordered] <;> simp, by rw [ordered] <;> simp⟩
    rw [hself.1, hself.2]
    exact writtenAlike_scalar false h hv hw
  case list =>
    intro vs ws ih
    refine ⟨.list (ih.imp fun _ _ h => h.1), fun hv hw r => ?_⟩
    rw [ordered, ordered, orderedItems_eq, orderedItems_eq]
    refine writtenAlike_list ?_
    rw [List.forall₂_map_left_iff, List.forall₂_map_right_iff]
    refine (forall₂_discharge (P := Parsed) (Q := Parsed)
      (R := fun v w => ∀ r, WrittenAlike false (ordered r v) (ordered r w)) (ih.imp fun _ _ h => h.2)
      (fun _ => Json.parsed_item hv) (fun _ => Json.parsed_item hw)).imp fun _ _ h => h r.item
  case dict =>
    intro fs gs gs' hperm ih
    have hsame : Same (.dict fs) (.dict gs) :=
      .of_fields hperm (ih.imp fun _ _ h => ⟨h.1, h.2.1⟩)
    refine ⟨hsame, fun hv hw r => ?_⟩
    have hkeys : (keys fs).Perm (keys gs) := by
      rw [(Json.fieldsRel_iff.mp ih).1]
      exact hperm.map Prod.fst
    have hn : (keys gs').Nodup := (hperm.map Prod.fst).nodup_iff.mpr hw.1
    have hm : Matching (WrittenAlike false) (orderedFields (r.field fs) fs)
        (orderedFields (r.field gs) gs) := by
      intro k
      rw [get_orderedFields, get_orderedFields, field_eq (same_matching hsame hw)]
      have hk := matching_of_fields ih k
      rw [get_perm hn hperm] at hk
      cases hf : get fs k with
      | none =>
        rw [hf] at hk
        cases hg : get gs k with
        | none => exact .none
        | some w => rw [hg] at hk; cases hk
      | some v =>
        rw [hf] at hk
        cases hg : get gs k with
        | none => rw [hg] at hk; cases hk
        | some w =>
          rw [hg] at hk
          cases hk with
          | some h =>
            exact .some (h.2 (Json.parsed_field hv (mem_of_get hf))
              (Json.parsed_field hw (mem_of_get hg)) _)
    rw [ordered, ordered, names_eq r hkeys]
    exact writtenAlike_dict (pick_rel hm _)

/-! What the projection makes of a parsed value is a parsed value. -/

theorem nodup_eraseDups (names : List Str) : names.eraseDups.Nodup := by
  induction h : names.length using Nat.strong_induction_on generalizing names with
  | _ n ih =>
    cases names with
    | nil => simp
    | cons name names =>
      rw [List.eraseDups_cons, List.nodup_cons]
      refine ⟨by simp [List.mem_eraseDups], ih _ ?_ _ rfl⟩
      have := List.length_filter_le (fun b => !b == name) names
      simp only [List.length_cons] at h
      omega

theorem names_nodup (r : Reading) {names : List Str} (h : names.Nodup) : (r.names names).Nodup := by
  have hsorted := (List.perm_insertionSort (· ≤ ·) names).nodup_iff.mpr h
  cases r with
  | members required => exact nodup_eraseDups _
  | _ => exact hsorted

theorem keys_pick (names : List Str) (fs : List (Str × Json)) :
    keys (pick names fs) = names.filter (fun name => (get fs name).isSome) := by
  induction names with
  | nil => rfl
  | cons name names ih =>
    simp only [pick, keys] at ih
    rw [pick, List.filterMap_cons, List.filter_cons]
    cases get fs name <;> simp [keys, ih]

theorem mem_pick {names : List Str} {f : Str × Json} (h : f ∈ pick names fs) : f ∈ fs := by
  obtain ⟨name, -, hf⟩ := List.mem_filterMap.mp h
  obtain ⟨v, hv, rfl⟩ := Option.map_eq_some_iff.mp hf
  exact mem_of_get hv

theorem ordered_parsed (hv : Parsed v) (r : Reading) : Parsed (ordered r v) := by
  induction v using Json.induction generalizing r with
  | list vs ih =>
    rw [ordered, orderedItems_eq]
    refine Json.parsedItems_iff.mpr fun w hw => ?_
    obtain ⟨u, hu, rfl⟩ := List.mem_map.mp hw
    exact ih u hu (Json.parsed_item hv hu) _
  | dict fs ih =>
    rw [ordered]
    refine ⟨?_, Json.parsedFields_iff.mpr fun f hf => ?_⟩
    · rw [keys_pick]
      exact (names_nodup r hv.1).filter _
    · have hf' := mem_pick hf
      rw [orderedFields_eq] at hf'
      obtain ⟨g, hg, rfl⟩ := List.mem_map.mp hf'
      exact ⟨(Json.parsedFields_iff.mp hv.2 g hg).1, ih g hg (Json.parsed_field hv hg) _⟩
  | _ => exact hv

/-! A parsed value is written, in either order of keys. -/

theorem encodeItems_plain {sortKeys : Bool} {vs : List Json}
    (h : ∀ v ∈ vs, ∃ s, encodeJson sortKeys v = .ok s ∧ ∀ c ∈ s, Json.Plain c) :
    ∃ parts, encodeItems sortKeys vs = .ok parts ∧ ∀ p ∈ parts, ∀ c ∈ p, Json.Plain c := by
  induction vs with
  | nil => exact ⟨[], rfl, by simp⟩
  | cons v vs ih =>
    obtain ⟨hv, hvs⟩ := List.forall_mem_cons.mp h
    obtain ⟨s, hs, hplain⟩ := hv
    obtain ⟨parts, hparts, hall⟩ := ih hvs
    refine ⟨s :: parts, ?_, List.forall_mem_cons.mpr ⟨hplain, hall⟩⟩
    rw [encodeItems, hs, hparts]
    rfl

theorem encodeMembers_plain {ms : List (Str × Except JsonError Str)}
    (h : ∀ m ∈ ms, Scalars m.1 ∧ ∃ s, m.2 = .ok s ∧ ∀ c ∈ s, Json.Plain c) :
    ∃ parts, encodeMembers ms = .ok parts ∧ ∀ p ∈ parts, ∀ c ∈ p, Json.Plain c := by
  induction ms with
  | nil => exact ⟨[], rfl, by simp⟩
  | cons m ms ih =>
    obtain ⟨⟨hkey, s, hs, hplain⟩, hms⟩ := List.forall_mem_cons.mp h
    obtain ⟨parts, hparts, hall⟩ := ih hms
    refine ⟨(JsonText.quote m.1 ++ str ":" ++ s) :: parts, ?_,
      List.forall_mem_cons.mpr ⟨fun c hc => ?_, hall⟩⟩
    · rw [encodeMembers] at hparts ⊢
      rw [List.mapM_cons, hs, hparts]
      rfl
    · simp only [List.mem_append] at hc
      rcases hc with (hc | hc) | hc
      · exact Json.plain_quote hkey c hc
      · have hcolon : ∀ c ∈ str ":", 32 ≤ c ∧ c < 128 := by decide
        exact Json.plain_ascii (hcolon c hc)
      · exact hplain c hc

/-- Plain parts between plain brackets are plain. -/
theorem plain_bracket {parts : List Str} (a b : Str) (ha : ∀ c ∈ a, 32 ≤ c ∧ c < 128)
    (hb : ∀ c ∈ b, 32 ≤ c ∧ c < 128) (h : ∀ p ∈ parts, ∀ c ∈ p, Json.Plain c) :
    ∀ c ∈ a ++ JsonText.joinComma parts ++ b, Json.Plain c := by
  intro c hc
  simp only [List.mem_append] at hc
  rcases hc with (hc | hc) | hc
  · exact Json.plain_ascii (ha c hc)
  · rcases Json.mem_joinComma hc with rfl | ⟨p, hp, hc⟩
    · exact Json.plain_ascii (by norm_num)
    · exact h p hp c hc
  · exact Json.plain_ascii (hb c hc)

theorem encodeJson_plain (sortKeys : Bool) (hv : Parsed v) :
    ∃ s, encodeJson sortKeys v = .ok s ∧ ∀ c ∈ s, Json.Plain c := by
  have hscalar : ∀ {u}, encodeJson sortKeys u = encodeJson true u → Parsed u →
      ∃ s, encodeJson sortKeys u = .ok s ∧ ∀ c ∈ s, Json.Plain c :=
    fun he hu => ⟨_, he.trans (Json.encodeJson_canonText hu), Json.plain_render hu⟩
  induction v using Json.induction with
  | list vs ih =>
    obtain ⟨parts, hparts, hall⟩ := @encodeItems_plain sortKeys _
      (fun u hu => ih u hu (Json.parsed_item hv hu))
    rw [encodeJson, hparts]
    exact ⟨_, rfl, plain_bracket _ _ (by decide) (by decide) hall⟩
  | dict fs ih =>
    have hmembers : ∀ m ∈ encodeFields sortKeys fs,
        Scalars m.1 ∧ ∃ s, m.2 = .ok s ∧ ∀ c ∈ s, Json.Plain c := by
      intro m hm
      rw [Json.encodeFields_eq] at hm
      obtain ⟨f, hf, rfl⟩ := List.mem_map.mp hm
      exact ⟨(Json.parsedFields_iff.mp hv.2 f hf).1, ih f hf (Json.parsed_field hv hf)⟩
    have hsorted : ∀ m ∈ (if sortKeys then Json.sortFields (encodeFields sortKeys fs)
        else encodeFields sortKeys fs), Scalars m.1 ∧ ∃ s, m.2 = .ok s ∧ ∀ c ∈ s, Json.Plain c := by
      intro m hm
      split_ifs at hm
      · exact hmembers m ((Json.sortFields_perm _).mem_iff.mp hm)
      · exact hmembers m hm
    obtain ⟨parts, hparts, hall⟩ := encodeMembers_plain hsorted
    rw [encodeJson]
    simp only [hparts]
    exact ⟨_, rfl, plain_bracket _ _ (by decide) (by decide) hall⟩
  | _ => exact hscalar rfl hv

theorem encodeJsonBytes_ok (sortKeys : Bool) (hv : Parsed v) :
    ∃ b, encodeJsonBytes v sortKeys = .ok b := by
  obtain ⟨s, hs, hplain⟩ := encodeJson_plain sortKeys hv
  refine ⟨utf8 s, ?_⟩
  rw [encodeJsonBytes, hs]
  exact if_pos fun c hc => (hplain c hc).1

end Gateway
