import Gateway.Contracts.Projection

/-! Decoder order is a pure reordering: which keys come first, where, and nowhere else. -/
namespace Gateway

open Json (get keys Parsed Same Reordered)

variable {v w u : Json} {fs gs : List (Str × Json)} {r r' : Reading}

/-- The entries of `required` that are names, then the remaining names in code-point order. -/
def requiredFirst (required names : List Str) : List Str :=
  (required.filter (· ∈ names)).eraseDups ++ (names.insertionSort (· ≤ ·)).filter (· ∉ required)

/-- The order of the names of a dict under its reading. -/
def Reading.InOrder (r : Reading) (names : List Str) : Prop :=
  match r with
  | .members required => names = requiredFirst required names
  | _ => names.Pairwise (· ≤ ·)

/-- A value inside another, each with its reading. -/
inductive At : Reading → Json → Reading → Json → Prop
  | here (r : Reading) (v : Json) : At r v r v
  | field {r r' : Reading} {fs : List (Str × Json)} {f : Str × Json} {w : Json} (hf : f ∈ fs)
      (h : At (r.field fs f.1) f.2 r' w) : At r (.dict fs) r' w
  | item {r r' : Reading} {vs : List Json} {v w : Json} (hv : v ∈ vs) (h : At r.item v r' w) :
      At r (.list vs) r' w

theorem At.trans {r'' : Reading} (h : At r v r' w) (h' : At r' w r'' u) : At r v r'' u := by
  induction h with
  | here => exact h'
  | field hf _ ih => exact .field hf (ih h')
  | item hv _ ih => exact .item hv (ih h')

/-! Names. -/

theorem eraseDups_of_nodup {names : List Str} (h : names.Nodup) : names.eraseDups = names := by
  induction names with
  | nil => rfl
  | cons name names ih =>
    obtain ⟨hname, hn⟩ := List.nodup_cons.mp h
    have hfilter : names.filter (fun n => !n == name) = names := by
      refine List.filter_eq_self.mpr fun n hn => ?_
      have hne : n ≠ name := fun he => hname (he ▸ hn)
      simpa using hne
    rw [List.eraseDups_cons, hfilter, ih hn]

theorem filter_eraseDups (p : Str → Bool) (names : List Str) :
    names.eraseDups.filter p = (names.filter p).eraseDups := by
  induction h : names.length using Nat.strong_induction_on generalizing names with
  | _ n ih =>
    cases names with
    | nil => rfl
    | cons name names =>
      have hlength := List.length_filter_le (fun n => !n == name) names
      have hrest := ih _ (by simp only [List.length_cons] at h; omega) (names.filter fun n => !n == name) rfl
      rw [List.eraseDups_cons, List.filter_cons, hrest, List.filter_filter, List.filter_cons]
      cases hp : p name with
      | true =>
        simp only [if_true]
        rw [List.eraseDups_cons, List.filter_filter]
        congr 3
        funext n
        exact Bool.and_comm _ _
      | false =>
        simp only [Bool.false_eq_true, if_false]
        congr 1
        refine List.filter_congr fun n _ => ?_
        by_cases hn : n = name
        · simp [hn, hp]
        · simp [hn]

theorem names_members {required names : List Str} (h : names.Nodup) :
    ((Reading.members required).names names).filter (· ∈ names) = requiredFirst required names := by
  have hsorted : (names.insertionSort (· ≤ ·)).Nodup :=
    (List.perm_insertionSort _ names).nodup_iff.mpr h
  rw [Reading.names, List.eraseDups_append, List.filter_append, filter_eraseDups, requiredFirst]
  congr 1
  have hremove : (names.insertionSort (· ≤ ·)).removeAll required =
      (names.insertionSort (· ≤ ·)).filter (· ∉ required) := by
    unfold List.removeAll
    refine List.filter_congr fun n _ => ?_
    simp
  rw [hremove, eraseDups_of_nodup (hsorted.filter _)]
  refine List.filter_eq_self.mpr fun n hn => ?_
  simpa using (List.mem_insertionSort _).mp (List.mem_filter.mp hn).1

theorem requiredFirst_perm {required names names' : List Str} (h : names.Perm names') :
    requiredFirst required names = requiredFirst required names' := by
  have hsorted : names.insertionSort (· ≤ ·) = names'.insertionSort (· ≤ ·) :=
    List.Perm.eq_of_pairwise (fun _ _ _ _ h h' => le_antisymm h h')
      (List.pairwise_insertionSort _ _) (List.pairwise_insertionSort _ _)
      ((List.perm_insertionSort _ _).trans (h.trans (List.perm_insertionSort _ _).symm))
  have hmem : required.filter (· ∈ names) = required.filter (· ∈ names') :=
    List.filter_congr fun n _ => by simp [h.mem_iff]
  rw [requiredFirst, requiredFirst, hsorted, hmem]

/-- What `ordered` keeps of its names are the names of the dict, in order. -/
theorem names_inOrder {names : List Str} (h : names.Nodup) :
    ((r.names names).filter (· ∈ names)).Perm names ∧
      r.InOrder ((r.names names).filter (· ∈ names)) := by
  have hnodup : ((r.names names).filter (· ∈ names)).Nodup := (names_nodup r h).filter _
  have hperm : ((r.names names).filter (· ∈ names)).Perm names := by
    refine (List.perm_ext_iff_of_nodup hnodup h).mpr fun n => ?_
    have hmem : n ∈ names → n ∈ r.names names := by
      intro hn
      cases r with
      | members required =>
        exact List.mem_eraseDups.mpr (List.mem_append_right _ ((List.mem_insertionSort _).mpr hn))
      | _ => exact (List.mem_insertionSort _).mpr hn
    simp only [List.mem_filter, decide_eq_true_eq]
    exact ⟨fun hn => hn.2, fun hn => ⟨hmem hn, hn⟩⟩
  refine ⟨hperm, ?_⟩
  cases r with
  | members required =>
    show _ = requiredFirst required _
    rw [requiredFirst_perm hperm]
    exact names_members h
  | _ => exact (List.pairwise_insertionSort _ _).filter _

/-! The projection of a parsed value: the same value, every dict in order, and a fixed point. -/

theorem get_isSome (fs : List (Str × Json)) (k : Str) : (get fs k).isSome = true ↔ k ∈ keys fs := by
  induction fs with
  | nil => simp [Json.get, keys]
  | cons f fs ih =>
    rw [get_cons]
    by_cases hk : f.1 = k
    · simp [hk, keys]
    · simp only [hk, if_false, ih]
      simp [keys, Ne.symm hk]

theorem keys_pick_ordered (hn : (keys fs).Nodup) :
    (keys (pick (r.names (keys fs)) (orderedFields (r.field fs) fs))).Perm (keys fs) ∧
      r.InOrder (keys (pick (r.names (keys fs)) (orderedFields (r.field fs) fs))) := by
  have hkeys : keys (pick (r.names (keys fs)) (orderedFields (r.field fs) fs)) =
      (r.names (keys fs)).filter (· ∈ keys fs) := by
    rw [keys_pick]
    refine List.filter_congr fun n _ => ?_
    have hsome := get_isSome (orderedFields (r.field fs) fs) n
    rw [keys_orderedFields] at hsome
    rw [Bool.eq_iff_iff, hsome, decide_eq_true_eq]
  rw [hkeys]
  exact names_inOrder hn

/-- Picking every name of a dict permutes it. -/
theorem pick_perm {names : List Str} (hn : (keys fs).Nodup) (hnames : (keys (pick names fs)).Perm (keys fs)) :
    (pick names fs).Perm fs := by
  have hfs : fs.Nodup := hn.of_map _
  have hpick : (pick names fs).Nodup := (hnames.nodup_iff.mpr hn).of_map _
  refine (List.perm_ext_iff_of_nodup hpick hfs).mpr fun f => ⟨mem_pick, fun hf => ?_⟩
  obtain ⟨g, hg, hkey⟩ := List.mem_map.mp (hnames.mem_iff.mpr (List.mem_map_of_mem hf))
  have hget := get_of_mem hn hf
  rw [← hkey, get_of_mem hn (mem_pick hg)] at hget
  have hvalue : g.2 = f.2 := Option.some.inj hget
  rwa [← Prod.ext hkey hvalue]

theorem ordered_reordered (hv : Parsed v) (r : Reading) : Reordered v (ordered r v) := by
  induction v using Json.induction generalizing r with
  | list vs ih =>
    rw [ordered, orderedItems_eq]
    refine .list (List.forall₂_map_right_iff.mpr (List.forall₂_same.mpr fun w hw => ?_))
    exact ih w hw (Json.parsed_item hv hw) _
  | dict fs ih =>
    rw [ordered]
    have hkeys := (keys_pick_ordered (r := r) hv.1).1
    rw [← keys_orderedFields (r.field fs)] at hkeys
    have hn : (keys (orderedFields (r.field fs) fs)).Nodup := by
      rw [keys_orderedFields]
      exact hv.1
    rw [keys_orderedFields] at hkeys
    have hperm := pick_perm hn (by rw [keys_orderedFields]; exact hkeys)
    refine .of_fields hperm.symm ?_
    rw [orderedFields_eq]
    refine List.forall₂_map_right_iff.mpr (List.forall₂_same.mpr fun f hf => ⟨rfl, ?_⟩)
    exact ih f hf (Json.parsed_field hv hf) _
  | _ => exact .leaf rfl

/-- Every dict of the projection has its names in the order of its reading. -/
theorem ordered_inOrder (hv : Parsed v) (h : At r (ordered r v) r' (.dict gs)) :
    r'.InOrder (keys gs) := by
  induction v using Json.induction generalizing r with
  | list vs ih =>
    rw [ordered, orderedItems_eq] at h
    cases h with
    | item hw h =>
      obtain ⟨u, hu, rfl⟩ := List.mem_map.mp hw
      exact ih u hu (Json.parsed_item hv hu) h
  | dict fs ih =>
    have hsame := same_of_reordered (ordered_reordered hv r)
    have hparsed := ordered_parsed hv r
    rw [ordered] at h hsame hparsed
    cases h with
    | here => exact (keys_pick_ordered hv.1).2
    | field hf h =>
      rename_i f
      have hf' := mem_pick hf
      rw [orderedFields_eq] at hf'
      obtain ⟨g, hg, rfl⟩ := List.mem_map.mp hf'
      rw [← field_eq (same_matching hsame hparsed)] at h
      exact ih g hg (Json.parsed_field hv hg) h
  | _ => cases h

theorem pick_self {names : List Str} (hn : (keys fs).Nodup)
    (h : names.filter (· ∈ keys fs) = keys fs) : pick names fs = fs := by
  have hfilter : pick names fs = pick (names.filter (· ∈ keys fs)) fs := by
    unfold pick
    rw [List.filterMap_filter]
    refine List.filterMap_congr fun n _ => ?_
    by_cases hmem : n ∈ keys fs
    · simp [hmem]
    · have hnone : get fs n = none := by
        simpa using mt (get_isSome fs n).mp hmem
      simp [hmem, hnone]
  have hself : ∀ f ∈ fs, (get fs f.1).map (fun v => (f.1, v)) = some f := fun f hf => by
    rw [get_of_mem hn hf]
    rfl
  rw [hfilter, h]
  unfold pick keys
  rw [List.filterMap_map]
  exact (List.filterMap_congr hself).trans List.filterMap_some

theorem names_of_inOrder {names : List Str} (hn : names.Nodup) (h : r.InOrder names) :
    (r.names names).filter (· ∈ names) = names := by
  have hsorted : names.Pairwise (· ≤ ·) →
      (names.insertionSort (· ≤ ·)).filter (· ∈ names) = names := by
    intro hs
    rw [hs.insertionSort_eq]
    exact List.filter_eq_self.mpr fun n hmem => by simpa using hmem
  cases r with
  | members required => exact (names_members hn).trans h.symm
  | _ => exact hsorted h

/-- A value in order is its own projection. -/
theorem ordered_of_inOrder (hv : Parsed v)
    (h : ∀ r' gs, At r v r' (.dict gs) → r'.InOrder (keys gs)) : ordered r v = v := by
  induction v using Json.induction generalizing r with
  | list vs ih =>
    rw [ordered, orderedItems_eq]
    refine congrArg Json.list ((List.map_congr_left fun w hw => ?_).trans (List.map_id vs))
    exact ih w hw (Json.parsed_item hv hw) fun r' gs hat => h r' gs (.item hw hat)
  | dict fs ih =>
    have hfields : orderedFields (r.field fs) fs = fs := by
      rw [orderedFields_eq]
      refine (List.map_congr_left fun f hf => ?_).trans (List.map_id fs)
      exact Prod.ext rfl (ih f hf (Json.parsed_field hv hf) fun r' gs hat => h r' gs (.field hf hat))
    rw [ordered, hfields, pick_self hv.1 (names_of_inOrder hv.1 (h r fs (.here _ _)))]
  | _ => rfl

/-! Which positions are schemas. -/

/-- What the decision visits below a node, the projection reads as a schema. -/
theorem at_below (h : Below v w) : At .schema v .schema w := by
  cases h with
  | mk hc =>
    rename_i node
    simp only [nodeChildren, List.mem_append] at hc
    rcases hc with (hc | hc) | hc
    · obtain ⟨f, hf, rfl⟩ := List.mem_map.mp hc
      unfold nodeProperties at hf
      cases hg : get node (str "properties") with
      | none => simp [hg] at hf
      | some properties =>
        cases properties with
        | dict ps =>
          simp only [hg, Option.bind_some, Json.asDict?, Option.getD_some] at hf
          exact .field (mem_of_get hg) (.field hf (.here _ _))
        | _ => simp [hg, Json.asDict?] at hf
    · exact .field (mem_of_get (Option.mem_toList.mp hc)) (.here _ _)
    · unfold nodeBranches at hc
      cases hg : get node (str "anyOf") with
      | none => simp [hg] at hc
      | some branches =>
        cases branches with
        | list vs =>
          simp only [hg, Option.bind_some, Json.asList?, Option.getD_some] at hc
          exact .field (mem_of_get hg) (.item hc (.here _ _))
        | _ => simp [hg, Json.asList?] at hc

theorem at_reachable (h : Relation.ReflTransGen Below v w) : At .schema v .schema w := by
  induction h with
  | refl => exact .here _ _
  | tail _ hstep ih => exact ih.trans (at_below hstep)

/-- The properties of a node are a dict read with the names of its `required`. -/
theorem at_properties {node ps : List (Str × Json)} (h : get node (str "properties") = some (.dict ps)) :
    At .schema (.dict node) (.members (requiredNames node)) (.dict ps) :=
  .field (mem_of_get h) (.here _ _)

theorem keys_nodeProperties {node : List (Str × Json)}
    (h : ∀ r' gs, At .schema (.dict node) r' (.dict gs) → r'.InOrder (keys gs)) :
    keys (nodeProperties node) = requiredFirst (requiredNames node) (keys (nodeProperties node)) := by
  unfold nodeProperties
  cases hg : get node (str "properties") with
  | none => simp [keys, requiredFirst]
  | some properties =>
    cases properties with
    | dict ps => exact h _ _ (at_properties hg)
    | _ => simp [Json.asDict?, keys, requiredFirst]

/-! The decision and the projection together. -/

variable {schema fields : List (Str × Json)} {task : Task}

theorem usesDecoderFieldOrder_iff (hs : Parsed (.dict schema)) :
    usesDecoderFieldOrder schema task = true ↔
      (get schema (str "$defs")).isSome ∨ task = emailAnalyzeTask ∧ AllCovered (.dict schema) := by
  have hloop : fieldOrderLoop (Json.nodes (.dict schema)) [.dict schema] = true ↔
      AllCovered (.dict schema) := by
    rw [fieldOrderLoop_eq_true (by simp) (by simpa using hs)]
    simp
  unfold usesDecoderFieldOrder usesPassageDefinitions
  split_ifs with hdefs htask
  · simp [hdefs]
  · simp [hdefs, htask]
  · rw [not_not] at htask
    simp [hdefs, htask, hloop]

/-- A schema in decoder order: the same value, its properties as their nodes require them, every
other dict sorted, and nothing left to reorder. -/
structure DecoderOrdered (schema : List (Str × Json)) (task : Task) (fields : List (Str × Json)) :
    Prop where
  same : Reordered (.dict schema) (.dict fields)
  properties : ∀ node, Relation.ReflTransGen Below (.dict fields) (.dict node) →
    keys (nodeProperties node) = requiredFirst (requiredNames node) (keys (nodeProperties node))
  dicts : ∀ r gs, At .schema (.dict fields) r (.dict gs) → r.InOrder (keys gs)
  again : decoderSchema fields task = .dict fields

theorem decoderSchema_ordered (hs : Parsed (.dict schema))
    (huses : usesDecoderFieldOrder schema task = true) :
    ∃ fields, decoderSchema schema task = .dict fields ∧ DecoderOrdered schema task fields := by
  have hdecoder : decoderSchema schema task = ordered .schema (.dict schema) := by
    rw [decoderSchema, huses]
    rfl
  obtain ⟨fields, hfields⟩ : ∃ fields, ordered .schema (.dict schema) = .dict fields := by
    rw [ordered]
    exact ⟨_, rfl⟩
  have hsame := ordered_reordered hs .schema
  have hparsed := ordered_parsed hs .schema
  have horder : ∀ r gs, At .schema (ordered .schema (.dict schema)) r (.dict gs) →
      r.InOrder (keys gs) := fun r gs h => ordered_inOrder hs h
  rw [hfields] at hsame hparsed horder
  have huses' : usesDecoderFieldOrder fields task = true := by
    rwa [← usesDecoderFieldOrder_same (same_of_reordered hsame) hs hparsed]
  refine ⟨fields, hdecoder.trans hfields, hsame, fun node hnode => ?_, horder, ?_⟩
  · exact keys_nodeProperties fun r gs h => horder r gs ((at_reachable hnode).trans h)
  · rw [decoderSchema, huses']
    exact ordered_of_inOrder hparsed horder

end Gateway
