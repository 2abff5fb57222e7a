import Gateway.Contracts.Order

/-! Schemas that differ in the order of keys alone are admitted alike. -/
namespace Gateway

open Json (get keys Reordered Alike FieldsRel Same Parsed)

variable {v w : Json} {fs gs : List (Str × Json)}

theorem parsed_withoutDefinitions (h : Parsed (.dict fs)) :
    Parsed (.dict (withoutDefinitions fs)) := by
  have hsub : (withoutDefinitions fs).Sublist fs := List.filter_sublist
  refine ⟨(hsub.map Prod.fst).nodup h.1, Json.parsedFields_iff.mpr fun f hf => ?_⟩
  exact Json.parsedFields_iff.mp h.2 f (hsub.subset hf)

section Alike

variable {R : Json → Json → Prop} (hR : Json.Respells R)
include hR

theorem alike_withoutDefinitions (h : Alike R (.dict fs) (.dict gs)) :
    Alike R (.dict (withoutDefinitions fs)) (.dict (withoutDefinitions gs)) := by
  obtain ⟨gs₀, gs', hgs, hperm, hrel⟩ := alike_dict hR.same h
  obtain rfl := Json.dict.inj hgs
  refine .of_fields (hperm.filter _) (List.rel_filter ?_ hrel)
  intro f g hfg
  simp [hfg.1]

theorem ownedNames_alike (hm : Matching (Alike R) fs gs) :
    SameNames (ownedNames fs) (ownedNames gs) := by
  unfold ownedNames
  cases hf : get fs (str "$defs") with
  | none =>
    rw [(hm.none_iff _).mp hf]
    exact .none
  | some v =>
    obtain ⟨w, hw, hvw⟩ := hm.some_left hf
    rw [hw]
    refine .some fun k => ?_
    cases hvw with
    | leaf h =>
      cases hR.same _ _ h with
      | number hv hw => cases v <;> cases w <;> simp [Json.number?, Json.asDict?] at hv hw ⊢
      | _ => rfl
    | list h => rfl
    | dict hperm hkeys h => exact (alike_keys hR.same (.dict hperm hkeys h)).2 k

end Alike

theorem same_texts {texts : List Str} (h : Same (.list (texts.map Json.string)) w) :
    w = .list (texts.map Json.string) := by
  obtain ⟨ws, rfl, hrel⟩ := same_list h
  congr 1
  clear h
  induction texts generalizing ws with
  | nil => exact List.forall₂_nil_left_iff.mp hrel
  | cons t texts ih =>
    obtain ⟨w, ws', hw, hrest, rfl⟩ := List.forall₂_cons_left_iff.mp hrel
    rw [same_string hw, List.map_cons, ih _ hrest]

theorem same_passageLeaf (h : Same v w) (hw : Parsed w) (hv : PassageLeaf v) : PassageLeaf w := by
  obtain ⟨fs, texts, rfl, hkeys, htype, henum, hrest⟩ := hv
  obtain ⟨gs, gs', rfl, -⟩ := same_dict h
  have hm := same_matching h hw
  obtain ⟨e, he, hte⟩ := hm.some_left henum
  rw [same_texts hte] at he
  exact ⟨gs, texts, rfl, fun k => (hm.mem_keys k).symm.trans (hkeys k), matching_string hm htype, he,
    hrest⟩

theorem same_definitions (h : Same v w) (hw : Parsed w) (hv : PassageDefinitions v) :
    PassageDefinitions w := by
  obtain ⟨leaves, rfl, h1, h2, hall⟩ := hv
  obtain ⟨gs, gs', rfl, hperm, hrel⟩ := same_dict h
  have hlen := (alike_keys (fun _ _ h => h) h).1
  refine ⟨gs, rfl, hlen ▸ h1, hlen ▸ h2, fun g hg => ?_⟩
  obtain ⟨f, hf, hfg⟩ := forall₂_mem_right hrel (hperm.mem_iff.mpr hg)
  obtain ⟨hname, hleaf⟩ := hall f hf
  exact ⟨hfg.1 ▸ hname, same_passageLeaf hfg.2 (Json.parsed_field hw hg) hleaf⟩

/-- The grammar transfers to every reordering of a schema, its fractions respelled. -/
theorem admitted_alike {R : Json → Json → Prop} (hR : Json.Respells R)
    (h : Alike R (.dict fs) (.dict gs)) (hv : Parsed (.dict fs)) (hw : Parsed (.dict gs))
    (ha : Admitted fs) : Admitted gs := by
  have hsame := alike_same hR.same h
  have hm := same_matching hsame hw
  have hroot := alike_withoutDefinitions hR h
  have hvroot := parsed_withoutDefinitions hv
  have hwroot := parsed_withoutDefinitions hw
  have hnames := ownedNames_alike hR (alike_matching hR.same h hw.1)
  have hlike : Like R ⟨.dict (withoutDefinitions fs), true, true⟩
      ⟨.dict (withoutDefinitions gs), true, true⟩ := ⟨hroot, rfl, rfl, hvroot, hwroot⟩
  have htally : ∀ (weight : List (Str × Json) → ℕ) (combine : List ℕ → ℕ),
      (∀ fs gs nullable root, PlainNode fs nullable root → Matching (Alike R) fs gs →
        weight fs = weight gs) →
      tally (ownedNames fs) weight combine (.dict (withoutDefinitions fs)) =
        tally (ownedNames gs) weight combine (.dict (withoutDefinitions gs)) :=
    fun _ _ hweight => tally_alike hR hnames hweight _ _ _ _ _ le_rfl hroot hvroot hwroot ha.reachable
  refine ⟨?_, ?_, ?_, ?_, ?_, ?_, ?_, ?_⟩
  · exact (Json.encodeJsonBytes_eq_iff hv hw).mpr hsame ▸ ha.bytes
  · exact (Json.Same.size hsame).1 ▸ ha.nodes
  · exact ((Json.Same.size hsame).2 _).mp ha.depth
  · refine ha.root.imp (fun htype => matching_string hm htype) ?_
    exact matching_closedChoice (same_matching (alike_same hR.same hroot) hwroot) hwroot
  · intro w hget
    obtain ⟨v, hv', hvw⟩ := hm.some_right hget
    exact same_definitions hvw (Json.parsed_field hw (mem_of_get hget)) (ha.definitions v hv')
  · exact like_allOk hR hnames hlike ha.reachable
  · rw [referenceCount, ← htally _ _ (fun _ _ _ _ _ _ => rfl)]
    exact ha.references
  · rw [passageCost, ← htally _ _ (fun _ _ _ _ hp hm => arrayBound_matching hR hp hm)]
    exact ha.budget

/-- The check accepts exactly the grammar, and never tells reordered schemas apart. -/
theorem validateGenerationShape_grammar (checkSchema : Json → Bool) (roles : List Str)
    (hv : Parsed (.dict fs)) (hc : checkSchema (.dict fs) = true) :
    (validateGenerationShape checkSchema roles fs = .ok () ↔
      roles = [str "system", str "user"] ∧ Admitted fs) ∧
    ∀ gs, Reordered (.dict fs) (.dict gs) → Parsed (.dict gs) → checkSchema (.dict gs) = true →
      (validateGenerationShape checkSchema roles gs = .ok () ↔
        validateGenerationShape checkSchema roles fs = .ok ()) := by
  refine ⟨validateGenerationShape_eq_ok hv hc, fun gs h hw hcg => ?_⟩
  rw [validateGenerationShape_eq_ok hv hc, validateGenerationShape_eq_ok hw hcg]
  exact and_congr_right fun _ =>
    ⟨admitted_alike kept_respells (reordered_kept (reordered_symm h)) hw hv,
      admitted_alike kept_respells (reordered_kept h) hv hw⟩

/-- An object schema with a title is admitted under either order of its two keys. -/
theorem validateGenerationShape_grammar_object :
    Admitted [(str "type", .string (str "object")), (str "title", .string (str "Summary"))] ∧
    validateGenerationShape (fun _ => true) [str "system", str "user"]
      [(str "title", .string (str "Summary")), (str "type", .string (str "object"))] = .ok () := by
  have hp : Parsed (.dict [(str "type", .string (str "object")),
      (str "title", .string (str "Summary"))]) := by
    refine ⟨by decide, ?_⟩
    simp only [Json.ParsedFields, Parsed]
    decide
  have hp' : Parsed (.dict [(str "title", .string (str "Summary")),
      (str "type", .string (str "object"))]) := by
    refine ⟨by decide, ?_⟩
    simp only [Json.ParsedFields, Parsed]
    decide
  have h := validateGenerationShape_grammar (fun _ => true) [str "system", str "user"] hp rfl
  have hreordered : Reordered (.dict [(str "type", .string (str "object")),
      (str "title", .string (str "Summary"))]) (.dict [(str "title", .string (str "Summary")),
        (str "type", .string (str "object"))]) :=
    .of_fields (List.Perm.swap _ _ _) (List.forall₂_same.mpr fun f _ => ⟨rfl, reordered_refl f.2⟩)
  have hok : validateGenerationShape (fun _ => true) [str "system", str "user"]
      [(str "type", .string (str "object")), (str "title", .string (str "Summary"))] = .ok () := rfl
  exact ⟨(h.1.mp hok).2, (h.2 _ hreordered hp' rfl).mpr hok⟩

end Gateway
