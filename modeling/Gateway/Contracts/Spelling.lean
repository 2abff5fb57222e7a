import Gateway.Contracts.Conformance
import Gateway.Contracts.Documents
import Gateway.Contracts.OrderFree

/-! Conformance sees values: what it makes of reordered members and respelled numbers. -/
namespace Gateway

open Json (get keys Alike FieldsRel Same SameScalar Inside Parsed)

namespace Json

/-- No dict in the value repeats a key. -/
def Distinct (v : Json) : Prop := ∀ fields, Inside (.dict fields) v → (keys fields).Nodup

variable {v : Json} {fields : List (Str × Json)}

theorem Parsed.distinct (h : Parsed v) : Distinct v := fun _ hin => (hin.parsed h).1

theorem Distinct.keys (h : Distinct (.dict fields)) : (keys fields).Nodup := h _ (.self _)

theorem Distinct.field (h : Distinct (.dict fields)) {f : Str × Json} (hf : f ∈ fields) :
    Distinct f.2 := fun _ hin => h _ (.field hf hin)

theorem Distinct.item {items : List Json} (h : Distinct (.list items)) {w : Json} (hw : w ∈ items) :
    Distinct w := fun _ hin => h _ (.item hw hin)

theorem Distinct.elements (h : Distinct v) {w : Json} (hw : w ∈ v.elements) : Distinct w := by
  cases v with
  | list items => exact h.item hw
  | _ => simp [Json.elements] at hw

theorem Distinct.member {key : Str} (h : Distinct v) {w : Json} (hw : v.member? key = some w) :
    Distinct w := by
  obtain ⟨fields, hv, hget⟩ := Option.bind_eq_some_iff.mp hw
  obtain rfl := asDict?_eq_some.mp hv
  exact h.field (mem_of_get hget)

theorem jsonHooks_distinct : jsonHooks.Closed Distinct where
  null := fun _ hin => by cases hin
  bool := fun _ _ hin => by cases hin
  string := fun _ _ hin => by cases hin
  array := by
    intro vs hvs fields hin
    cases hin with
    | item hw hin => exact hvs _ hw _ hin
  integer := by
    intro t v _ hv fields hin
    obtain ⟨n, -, rfl⟩ := map_eq_ok.mp hv
    cases hin
  float := by
    intro t v hv fields hin
    obtain ⟨d, -, rfl⟩ := map_eq_ok.mp hv
    cases hin
  constant := fun _ _ hv => by cases hv
  objectPairs := by
    intro kvs v hkvs hv fields hin
    change parseJsonObjectPairs kvs = .ok v at hv
    unfold parseJsonObjectPairs at hv
    split_ifs at hv with hn
    obtain rfl := Except.ok.inj hv
    cases hin with
    | self => exact hn
    | field hf hin => exact hkvs _ hf _ hin

/-- What the parser returns holds no repeated key. -/
theorem distinct_of_loads {recursionLimit : ℕ} {raw : Bytes}
    (h : loads recursionLimit raw = .ok v) : Distinct v := by
  unfold loads jsonLoads at h
  split at h
  · cases h
  · exact JsonText.decode_closed jsonHooks_distinct h

end Json

/-! Lists related one by one. -/

section Lists

variable {α β : Type*} {S : α → β → Prop} {xs : List α} {ys : List β} {p : α → Prop} {q : β → Prop}

theorem forall_mem_congr (h : List.Forall₂ S xs ys)
    (hpq : ∀ x ∈ xs, ∀ y ∈ ys, S x y → (p x ↔ q y)) : (∀ x ∈ xs, p x) ↔ ∀ y ∈ ys, q y := by
  induction h with
  | nil => simp
  | cons hxy _ ih =>
    rw [List.forall_mem_cons, List.forall_mem_cons, hpq _ (by simp) _ (by simp) hxy,
      ih (fun x hx y hy => hpq x (List.mem_cons_of_mem _ hx) y (List.mem_cons_of_mem _ hy))]

theorem exists_mem_congr (h : List.Forall₂ S xs ys)
    (hpq : ∀ x ∈ xs, ∀ y ∈ ys, S x y → (p x ↔ q y)) : (∃ x ∈ xs, p x) ↔ ∃ y ∈ ys, q y := by
  induction h with
  | nil => simp
  | cons hxy _ ih =>
    rw [List.exists_mem_cons_iff, List.exists_mem_cons_iff, hpq _ (by simp) _ (by simp) hxy,
      ih (fun x hx y hy => hpq x (List.mem_cons_of_mem _ hx) y (List.mem_cons_of_mem _ hy))]

end Lists

section Fields

variable {S : Json → Json → Prop} {fs gs gs' : List (Str × Json)} {p q : Str × Json → Prop}

theorem forall_field_congr (hperm : gs'.Perm gs) (h : FieldsRel S fs gs')
    (hpq : ∀ k a b, (k, a) ∈ fs → (k, b) ∈ gs → S a b → (p (k, a) ↔ q (k, b))) :
    (∀ f ∈ fs, p f) ↔ ∀ g ∈ gs, q g := by
  have hpermuted : (∀ g ∈ gs, q g) ↔ ∀ g ∈ gs', q g :=
    forall_congr' fun g => imp_congr_left hperm.mem_iff.symm
  rw [hpermuted]
  refine forall_mem_congr h ?_
  rintro ⟨k, a⟩ hf ⟨_, b⟩ hg ⟨rfl, hab⟩
  exact hpq k a b hf (hperm.mem_iff.mp hg) hab

theorem exists_field_congr (hperm : gs'.Perm gs) (h : FieldsRel S fs gs')
    (hpq : ∀ k a b, (k, a) ∈ fs → (k, b) ∈ gs → S a b → (p (k, a) ↔ q (k, b))) :
    (∃ f ∈ fs, p f) ↔ ∃ g ∈ gs, q g := by
  have hpermuted : (∃ g ∈ gs, q g) ↔ ∃ g ∈ gs', q g :=
    exists_congr fun g => and_congr_left fun _ => hperm.mem_iff.symm
  rw [hpermuted]
  refine exists_mem_congr h ?_
  rintro ⟨k, a⟩ hf ⟨_, b⟩ hg ⟨rfl, hab⟩
  exact hpq k a b hf (hperm.mem_iff.mp hg) hab

end Fields

/-! Alike values, read by each keyword. -/

section Alike

variable {R : Json → Json → Prop} (hR : ∀ v w, R v w → SameScalar v w)
variable {v w : Json} {fs gs : List (Str × Json)}
include hR

theorem alike_number? (h : Alike R v w) : v.number? = w.number? := by
  cases h with
  | leaf h =>
    cases hR _ _ h with
    | number hv hw => rw [hv, hw]
    | _ => rfl
  | _ => rfl

theorem alike_asString? (h : Alike R v w) : v.asString? = w.asString? := by
  cases h with
  | leaf h =>
    cases hR _ _ h with
    | number hv hw => cases v <;> cases w <;> simp [Json.number?, Json.asString?] at hv hw ⊢
    | _ => rfl
  | _ => rfl

theorem alike_asList? (h : Alike R v w) :
    Option.Rel (List.Forall₂ (Alike R)) v.asList? w.asList? := by
  cases h with
  | leaf h =>
    cases hR _ _ h with
    | number hv hw => cases v <;> cases w <;> simp [Json.number?, Json.asList?] at hv hw ⊢
    | _ => exact .none
  | list h => exact .some h
  | dict => exact .none

theorem alike_asDict? (h : Alike R v w) (hw : Json.Distinct w) :
    Option.Rel (Matching (Alike R)) v.asDict? w.asDict? := by
  have hkeep := h
  cases h with
  | leaf h =>
    cases hR _ _ h with
    | number hv hw => cases v <;> cases w <;> simp [Json.number?, Json.asDict?] at hv hw ⊢
    | _ => exact .none
  | list h => exact .none
  | dict hperm hkeys h => exact .some (alike_matching hR hkeep hw.keys)

theorem alike_elements (h : Alike R v w) : List.Forall₂ (Alike R) v.elements w.elements := by
  cases h with
  | leaf h =>
    cases hR _ _ h with
    | number hv hw => cases v <;> cases w <;> simp [Json.number?, Json.elements] at hv hw ⊢
    | _ => exact .nil
  | list h => exact h
  | dict => exact .nil

theorem alike_member? (h : Alike R v w) (hw : Json.Distinct w) (key : Str) :
    Option.Rel (Alike R) (v.member? key) (w.member? key) := by
  have hdict := alike_asDict? hR h hw
  unfold Json.member?
  generalize v.asDict? = x at hdict
  generalize w.asDict? = y at hdict
  cases hdict with
  | none => exact .none
  | some h => exact h key

theorem alike_isBool (h : Alike R v w) (b : Bool) : v = .bool b ↔ w = .bool b := by
  cases h with
  | leaf h =>
    cases hR _ _ h with
    | number hv hw => cases v <;> cases w <;> simp [Json.number?] at hv hw ⊢
    | _ => simp
  | _ => simp

end Alike

/-! What one keyword makes of alike values, its argument respelled. -/

section Keywords

variable {R : Json → Json → Prop} (hR : ∀ v w, R v w → SameScalar v w)
variable {v w a b : Json} {fs gs : List (Str × Json)}
include hR

theorem alike_textLength (h : Alike R v w) : textLength v = textLength w := by
  rw [textLength, textLength, alike_asString? hR h]

theorem alike_itemCount (h : Alike R v w) : itemCount v = itemCount w := by
  have hlist := alike_asList? hR h
  unfold itemCount
  generalize v.asList? = x at hlist
  generalize w.asList? = y at hlist
  cases hlist with
  | none => rfl
  | some h => simp [h.length_eq]

theorem alike_equalsScalar (ha : Same a b) (h : Alike R v w) :
    Json.equalsScalar a v = Json.equalsScalar b w := by
  have hnumber := alike_number? hR h
  cases ha with
  | leaf ha =>
    cases ha with
    | number ha hb =>
      have hread : ∀ {c u : Json} {q : ℚ}, c.number? = some q →
          Json.equalsScalar c u = (c.number?.isSome && c.number? = u.number?) := by
        intro c u q hc
        cases c <;> first | rfl | simp [Json.number?] at hc
      rw [hread ha, hread hb, ha, hb, hnumber]
    | _ =>
      cases h with
      | leaf h =>
        cases hR _ _ h with
        | number hv hw => cases v <;> cases w <;> simp [Json.number?] at hv hw <;> rfl
        | _ => rfl
      | _ => rfl
  | _ => rfl

theorem alike_enum (ha : Same a b) (h : Alike R v w) :
    (a.asList?.all (·.any (Json.equalsScalar · v))) = b.asList?.all (·.any (Json.equalsScalar · w)) := by
  have hvalues := alike_asList? (fun _ _ h => h) ha
  generalize a.asList? = x at hvalues
  generalize b.asList? = y at hvalues
  cases hvalues with
  | none => rfl
  | some hvalues =>
    rw [Option.all_some, Option.all_some, Bool.eq_iff_iff, List.any_eq_true, List.any_eq_true]
    exact exists_mem_congr hvalues (fun x _ y _ hxy => by rw [alike_equalsScalar hR hxy h])

theorem alike_required (ha : Same a b) (h : Alike R v w) (hw : w.Distinct) :
    (v.asDict?.all fun members => (a.elements.filterMap Json.asString?).all
      fun name => (get members name).isSome) =
    w.asDict?.all fun members => (b.elements.filterMap Json.asString?).all
      fun name => (get members name).isSome := by
  have hnames : a.elements.filterMap Json.asString? = b.elements.filterMap Json.asString? := by
    have helements := alike_elements (fun _ _ h => h) ha
    generalize a.elements = xs at helements
    generalize b.elements = ys at helements
    induction helements with
    | nil => rfl
    | cons hxy _ ih =>
      rw [List.filterMap_cons, List.filterMap_cons, alike_asString? (fun _ _ h => h) hxy, ih]
  have hdict := alike_asDict? hR h hw
  rw [hnames]
  generalize v.asDict? = x at hdict
  generalize w.asDict? = y at hdict
  cases hdict with
  | none => rfl
  | @some members members' hm =>
    have hsome : ∀ name, (get members name).isSome = (get members' name).isSome := by
      intro name
      rw [Bool.eq_iff_iff, ← Option.ne_none_iff_isSome, ← Option.ne_none_iff_isSome]
      exact not_congr (hm.none_iff name)
    simp only [Option.all_some, hsome]

theorem alike_closed (hfields : Matching Same fs gs)
    (hgs : ∀ p, get gs (str "properties") = some p → p.Distinct) (h : Alike R v w) (hw : w.Distinct) :
    (v.asDict?.all fun members => (keys members).all fun name =>
      (((get fs (str "properties")).bind (·.member? name)).isSome)) =
    w.asDict?.all fun members => (keys members).all fun name =>
      (((get gs (str "properties")).bind (·.member? name)).isSome) := by
  have hnamed : ∀ name, ((get fs (str "properties")).bind (·.member? name)).isSome =
      ((get gs (str "properties")).bind (·.member? name)).isSome := by
    intro name
    have hp := hfields (str "properties")
    generalize get fs (str "properties") = x at hp
    generalize hy : get gs (str "properties") = y at hp hgs
    cases hp with
    | none => rfl
    | @some p q hpq =>
      have hmember := alike_member? (fun _ _ h => h) hpq (hgs q rfl) name
      simp only [Option.bind_some]
      generalize p.member? name = m at hmember
      generalize q.member? name = n at hmember
      cases hmember <;> rfl
  have hdict := alike_asDict? hR h hw
  generalize v.asDict? = x at hdict
  generalize w.asDict? = y at hdict
  cases hdict with
  | none => rfl
  | @some members members' hm =>
    rw [Option.all_some, Option.all_some, Bool.eq_iff_iff, List.all_eq_true, List.all_eq_true]
    simp only [hnamed, hm.mem_keys]

variable {isInteger : Json → Bool} (hint : ∀ v w, Alike R v w → isInteger v = isInteger w)
include hint

theorem alike_hasType (h : Alike R v w) (name : Str) :
    hasType isInteger name v = hasType isInteger name w := by
  unfold hasType
  rw [hint v w h]
  split_ifs
  · rfl
  · cases h with
    | leaf h =>
      cases hR _ _ h with
      | number hv hw => cases v <;> cases w <;> simp [Json.number?] at hv hw ⊢
      | _ => rfl
    | _ => rfl

theorem alike_satisfies {resolve resolve' : Str → Json → Bool} {keyword : Str}
    (hresolve : ∀ reference, resolve reference v = resolve' reference w)
    (hfields : Matching Same fs gs) (hgs : (Json.dict gs).Distinct) (ha : Same a b)
    (h : Alike R v w) (hw : w.Distinct) :
    satisfies isInteger resolve fs keyword a v = satisfies isInteger resolve' gs keyword b w := by
  have hlimit := alike_number? (fun _ _ h => h) ha
  have hname := alike_asString? (fun _ _ h => h) ha
  have hvalue := alike_number? hR h
  have htext := alike_textLength hR h
  have hcount := alike_itemCount hR h
  have hbounds : ∀ (q : Option ℚ) (relation : ℚ → ℚ → Bool),
      bounds q relation a = bounds q relation b := by
    intro q relation
    unfold bounds
    rw [hlimit]
  unfold satisfies
  refine ite_congr rfl (fun _ => ?type) fun _ => ite_congr rfl (fun _ => ?enum) fun _ =>
    ite_congr rfl (fun _ => ?minimum) fun _ => ite_congr rfl (fun _ => ?maximum) fun _ =>
    ite_congr rfl (fun _ => ?minLength) fun _ => ite_congr rfl (fun _ => ?maxLength) fun _ =>
    ite_congr rfl (fun _ => ?minItems) fun _ => ite_congr rfl (fun _ => ?maxItems) fun _ =>
    ite_congr rfl (fun _ => alike_required hR ha h hw) fun _ => ite_congr rfl (fun _ => ?closed)
    fun _ => ite_congr rfl (fun _ => ?ref) fun _ => rfl
  case type =>
    rw [hname]
    exact congrArg (fun p => Option.all p b.asString?) (funext fun name => alike_hasType hR hint h name)
  case enum => exact alike_enum hR ha h
  case minimum => rw [hvalue, hbounds]
  case maximum => rw [hvalue, hbounds]
  case minLength => rw [htext, hbounds]
  case maxLength => rw [htext, hbounds]
  case minItems => rw [hcount, hbounds]
  case maxItems => rw [hcount, hbounds]
  case closed =>
    by_cases hfalse : a = .bool false
    · have hfalse' := (alike_isBool (fun _ _ h => h) ha false).mp hfalse
      subst hfalse hfalse'
      exact alike_closed hR hfields (fun p hp => hgs.field (mem_of_get hp)) h hw
    · have hfalse' : b ≠ .bool false := fun hb =>
        hfalse ((alike_isBool (fun _ _ h => h) ha false).mpr hb)
      split
      · exact absurd rfl hfalse
      · rfl
  case ref =>
    rw [hname]
    exact congrArg (fun p => Option.all p b.asString?) (funext hresolve)

end Keywords

/-! What a whole schema makes of alike values, respelled itself. -/

section Conforms

variable {R : Json → Json → Prop} (hR : ∀ v w, R v w → SameScalar v w)
variable {isInteger : Json → Bool} (hint : ∀ v w, Alike R v w → isInteger v = isInteger w)
variable {resolve resolve' : Str → Json → Bool}
variable {S T v w a b : Json} {fs gs : List (Str × Json)}

/-- Under `anyOf`, alike branches meet the value. -/
theorem alike_conformsAnyOf (hab : Same a b) (hb : b.Distinct) (h : Alike R v w) (hw : w.Distinct)
    (hbelow : ∀ c d u x, sizeOf c ≤ sizeOf a → Same c d → d.Distinct → Alike R u x → x.Distinct →
      conforms isInteger resolve c u = conforms isInteger resolve' d x) :
    conformsAnyOf isInteger resolve a v = true ↔ conformsAnyOf isInteger resolve' b w = true := by
  cases hab with
  | leaf hscalar =>
    cases hscalar with
    | number ha hb => cases a <;> cases b <;> simp [Json.number?, conformsAnyOf] at ha hb ⊢
    | _ => simp only [conformsAnyOf]
  | dict => simp only [conformsAnyOf]
  | @list cs ds hrel =>
    rw [conformsAnyOf, conformsAnyOf, conformsBranches_iff, conformsBranches_iff]
    refine exists_mem_congr hrel fun c hc d hd hcd => ?_
    have hsmall : sizeOf c ≤ sizeOf (Json.list cs) := by
      have hlt := List.sizeOf_lt_of_mem hc
      rw [Json.list.sizeOf_spec]
      omega
    rw [hbelow _ _ _ _ hsmall hcd (hb.item hd) h hw]

include hR

/-- Under `properties`, alike members meet alike schemas. -/
theorem alike_conformsProperties (hab : Same a b) (hb : b.Distinct) (h : Alike R v w)
    (hw : w.Distinct)
    (hbelow : ∀ c d u x, sizeOf c ≤ sizeOf a → Same c d → d.Distinct → Alike R u x → x.Distinct →
      conforms isInteger resolve c u = conforms isInteger resolve' d x) :
    conformsProperties isInteger resolve a v = true ↔
      conformsProperties isInteger resolve' b w = true := by
  cases hab with
  | leaf hscalar =>
    cases hscalar with
    | number ha hb => cases a <;> cases b <;> simp [Json.number?, conformsProperties] at ha hb ⊢
    | _ => simp only [conformsProperties]
  | list => simp only [conformsProperties]
  | @dict ps qs qs' hperm hkeys hrel =>
    have hnamed : FieldsRel Same ps qs' := Json.fieldsRel_iff.mpr ⟨hkeys, hrel⟩
    rw [conformsProperties, conformsProperties, conformsMembers_iff, conformsMembers_iff]
    refine forall_field_congr hperm hnamed fun name c d hp hq hcd => ?_
    have hsmall : sizeOf c ≤ sizeOf (Json.dict ps) := by
      have hlt := List.sizeOf_lt_of_mem hp
      simp only [Prod.mk.sizeOf_spec] at hlt
      rw [Json.dict.sizeOf_spec]
      omega
    have hmember := alike_member? hR h hw name
    generalize v.member? name = m at hmember
    generalize hn : w.member? name = n at hmember
    cases hmember with
    | none => simp
    | some hux =>
      have hd : d.Distinct := hb.field hq
      simp only [Option.some.injEq, forall_eq']
      rw [hbelow _ _ _ _ hsmall hcd hd hux (hw.member hn)]

include hint

/-- Verdicts do not see the spelling of the schema, nor what `isInteger` does not see of the value. -/
theorem alike_conforms (hresolve : ∀ v w, Alike R v w → w.Distinct → ∀ reference,
      resolve reference v = resolve' reference w) (hST : Same S T) (hT : T.Distinct)
    (h : Alike R v w) (hw : w.Distinct) :
    conforms isInteger resolve S v = conforms isInteger resolve' T w := by
  induction hsize : sizeOf S using Nat.strong_induction_on generalizing S T v w with
  | _ size ih =>
    cases hST with
    | leaf hscalar =>
      cases hscalar with
      | number hS hT =>
        cases S <;> cases T <;> simp only [Json.number?, reduceCtorEq] at hS hT <;> simp only [conforms]
      | _ => simp only [conforms]
    | list => simp only [conforms]
    | @dict fs gs gs' hperm hkeys hrel =>
      have hm : Matching Same fs gs :=
        alike_matching (fun _ _ h => h) (.dict hperm hkeys hrel) hT.keys
      have hfields : FieldsRel Same fs gs' := Json.fieldsRel_iff.mpr ⟨hkeys, hrel⟩
      rw [Bool.eq_iff_iff, conforms_dict, conforms_dict]
      refine forall_field_congr hperm hfields fun keyword a b hf hg hab => ?_
      have hb : b.Distinct := hT.field hg
      have hbelow : ∀ c d u x, sizeOf c ≤ sizeOf a → Same c d → d.Distinct → Alike R u x →
          x.Distinct → conforms isInteger resolve c u = conforms isInteger resolve' d x := by
        intro c d u x hc hcd hd hux hx
        have hlt := List.sizeOf_lt_of_mem hf
        refine ih (sizeOf c) ?_ hcd hd hux hx rfl
        rw [← hsize, Json.dict.sizeOf_spec]
        simp only [Prod.mk.sizeOf_spec] at hlt
        omega
      unfold Asks
      refine Iff.of_eq (ite_congr rfl (fun _ => propext ?properties) fun _ =>
        ite_congr rfl (fun _ => propext ?items) fun _ =>
        ite_congr rfl (fun _ => propext ?anyOf) fun _ => ?keyword)
      case properties => exact alike_conformsProperties hR hab hb h hw hbelow
      case items =>
        refine forall_mem_congr (alike_elements hR h) fun u _ x hx hux => ?_
        rw [hbelow _ _ _ _ le_rfl hab hb hux (hw.elements hx)]
      case anyOf => exact alike_conformsAnyOf hab hb h hw hbelow
      case keyword =>
        rw [alike_satisfies hR hint (hresolve v w h hw) hm hT hab h hw]

/-- References lead to alike definitions. -/
theorem alike_resolveIn (hsame : Same (.dict fs) (.dict gs)) (hgs : (Json.dict gs).Distinct)
    (h : Alike R v w) (hw : w.Distinct) (reference : Str) :
    resolveIn isInteger fs reference v = resolveIn isInteger gs reference w := by
  have hm := alike_matching (fun _ _ h => h) hsame hgs.keys (str "$defs")
  unfold resolveIn
  generalize get fs (str "$defs") = x at hm
  generalize hy : get gs (str "$defs") = y at hm
  cases hm with
  | none => rfl
  | @some a b hab =>
    have hb : b.Distinct := hgs.field (mem_of_get hy)
    cases hab with
    | leaf hscalar =>
      cases hscalar with
      | number ha hb => cases a <;> cases b <;> simp [Json.number?, Json.asDict?] at ha hb ⊢
      | _ => rfl
    | list => rfl
    | @dict ps qs qs' hperm hkeys hrel =>
      have hnamed : FieldsRel Same ps qs' := Json.fieldsRel_iff.mpr ⟨hkeys, hrel⟩
      simp only [Option.bind_some, Json.asDict?, Option.any_some]
      rw [Bool.eq_iff_iff, List.any_eq_true, List.any_eq_true]
      refine exists_field_congr hperm hnamed fun name c d _ hq hcd => ?_
      rw [alike_conforms hR hint (fun _ _ _ _ _ => rfl) hcd (hb.field hq) h hw]

theorem alike_conformsTo (hsame : Same (.dict fs) (.dict gs)) (hgs : (Json.dict gs).Distinct)
    (h : Alike R v w) (hw : w.Distinct) :
    conformsTo isInteger fs v = conformsTo isInteger gs w :=
  alike_conforms hR hint (fun _ _ h hw reference => alike_resolveIn hR hint hsame hgs h hw reference)
    hsame hgs h hw

end Conforms

end Gateway
