import Gateway.Contracts.Canonical

/-! Equal bytes are equal values: the encoder identifies exactly what `Same` identifies. -/
namespace Gateway

namespace Json

variable {v w : Json} {vs ws : List Json} {fs gs gs' : List (Str × Json)}

/-- Fields that agree key by key, their values related. -/
def FieldsRel (R : Json → Json → Prop) : List (Str × Json) → List (Str × Json) → Prop :=
  List.Forall₂ (fun f g => f.1 = g.1 ∧ R f.2 g.2)

theorem fieldsRel_iff {R : Json → Json → Prop} :
    FieldsRel R fs gs ↔
      keys fs = keys gs ∧ List.Forall₂ R (fs.map Prod.snd) (gs.map Prod.snd) := by
  induction fs generalizing gs with
  | nil => cases gs <;> simp [FieldsRel, keys]
  | cons f fs ih =>
    cases gs with
    | nil => simp [FieldsRel, keys]
    | cons g gs =>
      have h := @ih gs
      simp only [FieldsRel, keys] at h
      simp only [FieldsRel, keys, List.forall₂_cons, List.map_cons, List.cons.injEq, h]
      tauto

theorem Alike.of_fields {R : Json → Json → Prop} (hperm : gs'.Perm gs)
    (h : FieldsRel (Alike R) fs gs') : Alike R (.dict fs) (.dict gs) :=
  .dict hperm (fieldsRel_iff.mp h).1 (fieldsRel_iff.mp h).2

/-- Induction along `Alike`, with the hypothesis for each pair of items and of field values. -/
theorem Alike.induction {R P : Json → Json → Prop} (leaf : ∀ v w, R v w → P v w)
    (list : ∀ vs ws, List.Forall₂ P vs ws → P (.list vs) (.list ws))
    (dict : ∀ fs gs gs', gs'.Perm gs → FieldsRel P fs gs' → P (.dict fs) (.dict gs))
    (h : Alike R v w) : P v w :=
  Alike.rec (motive_1 := fun v w _ => P v w) (motive_2 := fun vs ws _ => List.Forall₂ P vs ws)
    (fun {v w} h => leaf v w h) (fun _ ih => list _ _ ih)
    (fun {_ _ gs'} hperm hkeys _ ih => dict _ _ gs' hperm (fieldsRel_iff.mpr ⟨hkeys, ih⟩))
    .nil (fun _ _ hp hps => .cons hp hps) h

theorem parsed_item (h : Parsed (.list vs)) {v : Json} (hv : v ∈ vs) : Parsed v :=
  parsedItems_iff.mp h v hv

theorem parsed_field (h : Parsed (.dict fs)) {f : Str × Json} (hf : f ∈ fs) : Parsed f.2 :=
  (parsedFields_iff.mp h.2 f hf).2

/-! Lists related through a map. -/

section Mapped

variable {α β : Type*} {g : α → β} {R : α → α → Prop} {xs ys : List α}

theorem map_eq_of_forall₂ (h : List.Forall₂ R xs ys)
    (hR : ∀ x ∈ xs, ∀ y ∈ ys, R x y → g x = g y) : xs.map g = ys.map g := by
  induction h with
  | nil => rfl
  | cons hxy _ ih =>
    rw [List.map_cons, List.map_cons, hR _ (by simp) _ (by simp) hxy,
      ih (fun x hx y hy => hR x (List.mem_cons_of_mem _ hx) y (List.mem_cons_of_mem _ hy))]

theorem forall₂_of_map_eq (h : xs.map g = ys.map g) (hR : ∀ x ∈ xs, ∀ y, g x = g y → R x y) :
    List.Forall₂ R xs ys := by
  induction xs generalizing ys with
  | nil => simpa using h
  | cons x xs ih =>
    cases ys with
    | nil => simp at h
    | cons y ys =>
      simp only [List.map_cons, List.cons.injEq] at h
      exact .cons (hR x (by simp) y h.1) (ih h.2 (fun z hz => hR z (List.mem_cons_of_mem _ hz)))

/-- A permutation of images comes from a permutation of the originals. -/
theorem exists_perm_map {zs : List β} (h : zs.Perm (ys.map g)) :
    ∃ ys' : List α, ys'.Perm ys ∧ zs = ys'.map g := by
  have hrel : List.Forall₂ (fun b a => b = g a) (ys.map g) ys := by
    rw [List.forall₂_map_left_iff]
    exact List.forall₂_same.mpr (fun a _ => rfl)
  obtain ⟨ys', hys, hperm⟩ := List.perm_comp_forall₂ h hrel
  refine ⟨ys', hperm, ?_⟩
  clear h hrel hperm
  induction hys with
  | nil => rfl
  | cons hb _ ih => rw [List.map_cons, hb, ih]

end Mapped

/-! The same value has the same canonical document. -/

theorem SameScalar.canonText_eq (h : SameScalar v w) : canonText v = canonText w := by
  cases h with
  | null => rfl
  | bool b => rfl
  | number hv hw =>
    obtain ⟨a, ha, hva⟩ := canonText_number hv
    obtain ⟨b, hb, hwb⟩ := canonText_number hw
    rw [hva, hwb, numberToken_congr (ha.trans hb.symm)]
  | string s => rfl

theorem Same.canonText_eq (h : Same v w) : Parsed v → Parsed w → canonText v = canonText w := by
  refine h.induction (P := fun v w => Parsed v → Parsed w → canonText v = canonText w)
    ?leaf ?list ?dict
  case leaf => exact fun v w h _ _ => h.canonText_eq
  case list =>
    intro vs ws ih hv hw
    rw [canonText_list, canonText_list]
    exact congrArg _ (map_eq_of_forall₂ ih
      (fun x hx y hy hxy => hxy (parsed_item hv hx) (parsed_item hw hy)))
  case dict =>
    intro fs gs gs' hperm ih hv hw
    have hfields : canonFields fs = canonFields gs' := by
      rw [canonFields_eq, canonFields_eq]
      refine map_eq_of_forall₂ ih (fun f hf g hg hfg => ?_)
      rw [hfg.1, hfg.2 (parsed_field hv hf) (parsed_field hw (hperm.mem_iff.mp hg))]
    have hp : (canonFields fs).Perm (canonFields gs) := by
      rw [hfields, canonFields_eq, canonFields_eq]
      exact hperm.map _
    have hn : ((canonFields fs).map Prod.fst).Nodup := by
      rw [canonFields_eq, List.map_map]
      exact hv.1
    rw [canonText, canonText, sortFields_congr hn hp]

/-! Values with one canonical document are the same. -/

theorem number_of_canonText {t : NumberToken} (h : canonText v = .number t) :
    v.number? = some t.toDecimal.toRat := by
  cases v <;> simp only [canonText, JsonText.number.injEq, reduceCtorEq] at h
  case int n =>
    obtain ⟨d, hd, htext⟩ := canonText_number (v := .int n) (q := n) rfl
    simp only [canonText, JsonText.number.injEq] at htext
    rw [← h, numberToken_toRat, numberToken_eq_iff.mp htext, hd]
    rfl
  case decimal d => rw [← h, numberToken_toRat]; rfl

theorem same_of_canonText (h : canonText v = canonText w) : Same v w := by
  induction v using Json.induction generalizing w with
  | null =>
    cases w <;> simp only [canonText, reduceCtorEq] at h
    exact .leaf .null
  | bool b =>
    cases w <;> simp only [canonText, JsonText.bool.injEq, reduceCtorEq] at h
    exact h ▸ .leaf (.bool b)
  | int n => exact .leaf (.number (number_of_canonText rfl) (number_of_canonText h.symm))
  | decimal d => exact .leaf (.number (number_of_canonText rfl) (number_of_canonText h.symm))
  | string s =>
    cases w <;> simp only [canonText, JsonText.string.injEq, reduceCtorEq] at h
    exact h ▸ .leaf (.string s)
  | list vs ih =>
    cases w <;> simp only [canonText, JsonText.array.injEq, reduceCtorEq] at h
    case list ws =>
    rw [canonItems_eq, canonItems_eq] at h
    exact .list (forall₂_of_map_eq h (fun v hv w hvw => ih v hv hvw))
  | dict fs ih =>
    cases w <;> simp only [canonText, JsonText.object.injEq, reduceCtorEq] at h
    case dict gs =>
    have hp : (canonFields fs).Perm (canonFields gs) :=
      (sortFields_perm _).symm.trans (h ▸ sortFields_perm (canonFields gs))
    rw [canonFields_eq, canonFields_eq] at hp
    obtain ⟨gs', hperm, hmap⟩ := exists_perm_map hp
    refine .of_fields hperm (forall₂_of_map_eq hmap (fun f hf g hfg => ?_))
    simp only [Prod.mk.injEq] at hfg
    exact ⟨hfg.1, ih f hf hfg.2⟩

theorem canonText_eq_iff (hv : Parsed v) (hw : Parsed w) :
    canonText v = canonText w ↔ Same v w :=
  ⟨same_of_canonText, fun h => Same.canonText_eq h hv hw⟩

/-! The text is plain: scalars above the controls. -/

/-- Fit to be encoded, and no control character. -/
def Plain (c : ℕ) : Prop := IsScalar c ∧ 32 ≤ c

theorem plain_ascii {c : ℕ} (h : 32 ≤ c ∧ c < 128) : Plain c :=
  ⟨⟨by omega, by unfold IsSurrogate; omega⟩, h.1⟩

theorem plain_escapeChar {c : ℕ} (hc : IsScalar c) : ∀ d ∈ JsonText.escapeChar c, Plain d := by
  have hhex : ∀ n < 16, Plain (JsonText.hexChar n) := by
    intro n hn
    unfold JsonText.hexChar
    split_ifs <;> exact plain_ascii (by omega)
  have hpair : ∀ x, 32 ≤ x ∧ x < 128 → ∀ d ∈ [92, x], Plain d := by
    intro x hx d hd
    simp only [List.mem_cons, List.not_mem_nil, or_false] at hd
    rcases hd with rfl | rfl
    · exact plain_ascii (by norm_num)
    · exact plain_ascii hx
  unfold JsonText.escapeChar
  split_ifs with h1 h2 h3 h4 h5 h6 h7 h8
  iterate 7 exact hpair _ (by norm_num)
  · simp only [List.forall_mem_cons, List.not_mem_nil, false_implies, implies_true, and_true]
    exact ⟨plain_ascii (by norm_num), plain_ascii (by norm_num), plain_ascii (by norm_num),
      plain_ascii (by norm_num), hhex _ (by omega), hhex _ (by omega)⟩
  · intro d hd
    obtain rfl := List.mem_singleton.mp hd
    exact ⟨hc, by omega⟩

theorem plain_quote {s : Str} (hs : Scalars s) : ∀ d ∈ JsonText.quote s, Plain d := by
  intro d hd
  simp only [JsonText.quote, List.mem_cons, List.mem_append, List.mem_flatMap, List.not_mem_nil,
    or_false] at hd
  rcases hd with rfl | ⟨c, hc, hd⟩ | rfl
  · exact plain_ascii (by norm_num)
  · exact plain_escapeChar (hs c hc) d hd
  · exact plain_ascii (by norm_num)

theorem plain_digitChars {ds : List ℕ} (h : ∀ d ∈ ds, d < 10) :
    ∀ c ∈ JsonText.digitChars ds, Plain c := by
  intro c hc
  obtain ⟨d, hd, rfl⟩ := List.mem_map.mp hc
  have := h d hd
  exact plain_ascii (by omega)

theorem plain_renderToken {t : NumberToken} (ht : t.Valid) :
    ∀ c ∈ JsonText.renderToken t, Plain c := by
  have h45 : Plain 45 := plain_ascii (by norm_num)
  obtain ⟨negative, integer, fraction, exponent⟩ := t
  intro c hc
  simp only [JsonText.renderToken, List.mem_append] at hc
  rcases hc with ((hc | hc) | hc) | hc
  · split_ifs at hc <;> simp at hc
    exact hc ▸ h45
  · exact plain_digitChars ht.integer_lt c hc
  · unfold JsonText.renderFraction at hc
    split_ifs at hc
    · simp at hc
    · rcases List.mem_cons.mp hc with rfl | hc
      · exact plain_ascii (by norm_num)
      · exact plain_digitChars ht.fraction_lt c hc
  · cases exponent with
    | none => simp [JsonText.renderExponent] at hc
    | some p =>
      simp only [JsonText.renderExponent, List.mem_cons, List.mem_append] at hc
      rcases hc with rfl | hc | hc
      · exact plain_ascii (by norm_num)
      · split_ifs at hc <;> simp at hc
        exact hc ▸ h45
      · exact plain_digitChars (ht.exponent_lt p rfl) c hc

theorem mem_joinComma {parts : List Str} {c : ℕ} (h : c ∈ JsonText.joinComma parts) :
    c = 44 ∨ ∃ p ∈ parts, c ∈ p := by
  induction parts with
  | nil => simp at h
  | cons p parts ih =>
    cases parts with
    | nil => exact .inr ⟨p, by simp, by simpa using h⟩
    | cons q parts =>
      rw [JsonText.joinComma_cons_cons, List.mem_append, List.mem_cons] at h
      rcases h with h | h | h
      · exact .inr ⟨p, by simp, h⟩
      · exact .inl h
      · obtain h | ⟨r, hr, hc⟩ := ih h
        · exact .inl h
        · exact .inr ⟨r, List.mem_cons_of_mem _ hr, hc⟩

theorem plain_render (hv : Parsed v) : ∀ c ∈ (canonText v).render, Plain c := by
  have word : ∀ {s : Str}, (∀ c ∈ s, 32 ≤ c ∧ c < 128) → ∀ c ∈ s, Plain c :=
    fun h c hc => plain_ascii (h c hc)
  induction v using Json.induction with
  | null => exact word (by decide)
  | bool b => cases b <;> exact word (by decide)
  | int n => exact plain_renderToken (numberToken_valid _)
  | decimal d => exact plain_renderToken (numberToken_valid _)
  | string s => exact plain_quote hv
  | list vs ih =>
    intro c hc
    rw [canonText_list, JsonText.render, renderItems_eq, List.map_map] at hc
    simp only [List.mem_cons, List.mem_append, List.not_mem_nil, or_false] at hc
    rcases hc with rfl | hc | rfl
    · exact plain_ascii (by norm_num)
    · rcases mem_joinComma hc with rfl | ⟨p, hp, hc⟩
      · exact plain_ascii (by norm_num)
      · obtain ⟨x, hx, rfl⟩ := List.mem_map.mp hp
        exact ih x hx (parsed_item hv hx) c hc
    · exact plain_ascii (by norm_num)
  | dict fs ih =>
    intro c hc
    rw [canonText_dict, JsonText.render, renderMembers_eq, List.map_map] at hc
    simp only [List.mem_cons, List.mem_append, List.not_mem_nil, or_false] at hc
    rcases hc with rfl | hc | rfl
    · exact plain_ascii (by norm_num)
    · rcases mem_joinComma hc with rfl | ⟨p, hp, hc⟩
      · exact plain_ascii (by norm_num)
      · obtain ⟨f, hf, rfl⟩ := List.mem_map.mp hp
        have hf' := (sortFields_perm fs).mem_iff.mp hf
        simp only [Function.comp, str, List.mem_append] at hc
        rcases hc with (hc | hc) | hc
        · exact plain_quote (parsedFields_iff.mp hv.2 f hf').1 c hc
        · exact word (by decide) c hc
        · exact ih f hf' (parsed_field hv hf') c hc
    · exact plain_ascii (by norm_num)

/-- The bytes of a parsed value are the octets of its canonical document. -/
theorem encodeJsonBytes_eq (hv : Parsed v) :
    encodeJsonBytes v true = .ok (utf8 (canonText v).render) := by
  have hs : Scalars (canonText v).render := fun c hc => (plain_render hv c hc).1
  rw [encodeJsonBytes, encodeJson_canonText hv]
  exact if_pos hs

/-- Equal bytes are the same value. -/
theorem encodeJsonBytes_eq_iff (hv : Parsed v) (hw : Parsed w) :
    encodeJsonBytes v true = encodeJsonBytes w true ↔ Same v w := by
  rw [encodeJsonBytes_eq hv, encodeJsonBytes_eq hw, ← canonText_eq_iff hv hw, Except.ok.injEq]
  constructor
  · intro h
    exact JsonText.render_injective (canonText_wellFormed v) (canonText_wellFormed w)
      (utf8_injective h)
  · intro h
    rw [h]

end Json

/-! What is encoded can be found in its text. -/

theorem scalars_quote {s : Str} (h : Scalars (JsonText.quote s)) : Scalars s := by
  intro c hc
  by_cases hesc : c ∈ JsonText.escapeChar c
  · refine h c ?_
    simp only [JsonText.quote, List.mem_cons, List.mem_append, List.mem_flatMap]
    exact .inr (.inl ⟨c, hc, hesc⟩)
  · have hsmall : c < 128 := by
      unfold JsonText.escapeChar at hesc
      by_contra hlarge
      simp [show c ≠ 34 by omega, show c ≠ 92 by omega, show c ≠ 10 by omega,
        show c ≠ 13 by omega, show c ≠ 9 by omega, show c ≠ 12 by omega, show c ≠ 8 by omega,
        show ¬ c < 32 by omega] at hesc
    exact ⟨by omega, fun hs => by have := hs.1; omega⟩

theorem mem_joinComma_of_mem {parts : List Str} {p : Str} (hp : p ∈ parts) {c : ℕ} (hc : c ∈ p) :
    c ∈ JsonText.joinComma parts := by
  induction parts with
  | nil => cases hp
  | cons q parts ih =>
    cases parts with
    | nil =>
      obtain rfl := List.mem_singleton.mp hp
      simpa using hc
    | cons r parts =>
      rw [JsonText.joinComma_cons_cons, List.mem_append, List.mem_cons]
      rcases List.mem_cons.mp hp with rfl | hp
      · exact .inl hc
      · exact .inr (.inr (ih hp))

theorem encodeMembers_ok {ms : List (Str × Except JsonError Str)} {parts : List Str}
    (h : encodeMembers ms = .ok parts) {m : Str × Except JsonError Str} (hm : m ∈ ms) :
    ∃ t, m.2 = .ok t ∧ JsonText.quote m.1 ++ str ":" ++ t ∈ parts := by
  induction ms generalizing parts with
  | nil => cases hm
  | cons n ms ih =>
    rw [encodeMembers, List.mapM_cons] at h
    obtain ⟨part, hpart, h⟩ := bind_eq_ok.mp h
    obtain ⟨rest, hrest, h⟩ := bind_eq_ok.mp h
    obtain rfl := Except.ok.inj h
    rcases List.mem_cons.mp hm with rfl | hm
    · obtain ⟨t, ht, rfl⟩ := map_eq_ok.mp hpart
      exact ⟨t, ht, by simp⟩
    · obtain ⟨t, ht, hmem⟩ := ih hrest hm
      exact ⟨t, ht, List.mem_cons_of_mem _ hmem⟩

/-- A field of a dict that is encoded is written in its text, in either order of keys. -/
theorem encodeJson_field {sortKeys : Bool} {fs : List (Str × Json)} {f : Str × Json} {s : Str}
    (h : encodeJson sortKeys (.dict fs) = .ok s) (hf : f ∈ fs) :
    ∃ t, encodeJson sortKeys f.2 = .ok t ∧ ∀ c ∈ JsonText.quote f.1 ++ str ":" ++ t, c ∈ s := by
  rw [encodeJson] at h
  obtain ⟨parts, hparts, h⟩ := bind_eq_ok.mp h
  obtain rfl := Except.ok.inj h
  have hmem : (f.1, encodeJson sortKeys f.2) ∈ encodeFields sortKeys fs := by
    rw [Json.encodeFields_eq]
    exact List.mem_map_of_mem (f := fun f => (f.1, encodeJson sortKeys f.2)) hf
  have hmember : (f.1, encodeJson sortKeys f.2) ∈ (if sortKeys then
      Json.sortFields (encodeFields sortKeys fs) else encodeFields sortKeys fs) := by
    split_ifs
    · exact (Json.sortFields_perm _).mem_iff.mpr hmem
    · exact hmem
  obtain ⟨t, ht, hpart⟩ := encodeMembers_ok hparts hmember
  exact ⟨t, ht, fun c hc => by simp [mem_joinComma_of_mem hpart hc]⟩

end Gateway
