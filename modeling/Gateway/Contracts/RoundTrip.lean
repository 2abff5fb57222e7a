import Gateway.Contracts.Identity

/-! Encoding then parsing: the value comes back the same, within the node and depth limits. -/
namespace Gateway

namespace Json

variable {v w : Json} {vs ws : List Json} {fs gs gs' : List (Str × Json)}

/-! The limits, as numbers of the tree. -/

mutual

/-- Values in the tree, itself included. -/
def nodes : Json → ℕ
  | .list items => nodesItems items + 1
  | .dict fields => nodesFields fields + 1
  | _ => 1

def nodesItems : List Json → ℕ
  | [] => 0
  | v :: vs => nodes v + nodesItems vs

def nodesFields : List (Str × Json) → ℕ
  | [] => 0
  | (_, v) :: fields => nodes v + nodesFields fields

end

mutual

/-- Levels of the tree; a scalar has one. -/
def height : Json → ℕ
  | .list items => heightItems items + 1
  | .dict fields => heightFields fields + 1
  | _ => 1

def heightItems : List Json → ℕ
  | [] => 0
  | v :: vs => max (height v) (heightItems vs)

def heightFields : List (Str × Json) → ℕ
  | [] => 0
  | (_, v) :: fields => max (height v) (heightFields fields)

end

theorem nodesItems_eq (vs : List Json) : nodesItems vs = (vs.map nodes).sum := by
  induction vs with
  | nil => rfl
  | cons v vs ih => rw [nodesItems, ih, List.map_cons, List.sum_cons]

theorem nodesFields_eq (fs : List (Str × Json)) :
    nodesFields fs = (fs.map (fun f => nodes f.2)).sum := by
  induction fs with
  | nil => rfl
  | cons f fs ih => rw [nodesFields, ih, List.map_cons, List.sum_cons]

theorem heightItems_le {n : ℕ} : heightItems vs ≤ n ↔ ∀ v ∈ vs, height v ≤ n := by
  induction vs with
  | nil => simp [heightItems]
  | cons v vs ih => simp [heightItems, ih]

theorem heightFields_le {n : ℕ} : heightFields fs ≤ n ↔ ∀ f ∈ fs, height f.2 ≤ n := by
  induction fs with
  | nil => simp [heightFields]
  | cons f fs ih => simp [heightFields, ih]

theorem nodes_pos (v : Json) : 1 ≤ nodes v := by cases v <;> simp [nodes]

theorem height_pos (v : Json) : 1 ≤ height v := by cases v <;> simp [height]

/-- What is left on the stack fits what is left of the limits. -/
def Fits (n : ℕ) (stack : List (Json × ℕ)) : Prop :=
  (stack.map (fun p => nodes p.1)).sum ≤ n ∧ ∀ p ∈ stack, p.2 + height p.1 ≤ maxJsonDepth + 1

/-- Popping a value and pushing its children one level deeper. -/
theorem fits_expand {n depth : ℕ} {current : Json} {stack children : List (Json × ℕ)} {m h : ℕ}
    (hm : nodes current = m + 1) (hh : height current = h + 1)
    (hcm : (children.map (fun p => nodes p.1)).sum = m)
    (hch : ∀ k, h ≤ k ↔ ∀ p ∈ children, height p.1 ≤ k)
    (hcd : ∀ p ∈ children, p.2 = depth + 1) :
    Fits (n + 1) ((current, depth) :: stack) ↔
      depth ≤ maxJsonDepth ∧ Fits n (children.reverse ++ stack) := by
  have hkids : (∀ p ∈ children, p.2 + height p.1 ≤ maxJsonDepth + 1) ∧ depth ≤ maxJsonDepth ↔
      depth + (h + 1) ≤ maxJsonDepth + 1 := by
    constructor
    · rintro ⟨hall, hd⟩
      have := (hch (maxJsonDepth - depth)).mpr (fun p hp => by
        have h1 := hall p hp
        have h2 := hcd p hp
        omega)
      omega
    · intro hle
      refine ⟨fun p hp => ?_, by omega⟩
      have h1 := (hch h).mp le_rfl p hp
      have h2 := hcd p hp
      omega
  simp only [Fits, List.map_cons, List.sum_cons, List.forall_mem_cons, hm, hh, List.map_append,
    List.sum_append, List.map_reverse, List.sum_reverse, hcm, List.forall_mem_append,
    List.mem_reverse]
  rw [← hkids]
  constructor
  · rintro ⟨hsum, ⟨hall, hd⟩, hrest⟩
    exact ⟨hd, by omega, hall, hrest⟩
  · rintro ⟨hd, hsum, hall, hrest⟩
    exact ⟨by omega, ⟨hall, hd⟩, hrest⟩

theorem validateShape_eq_ok {n : ℕ} {stack : List (Json × ℕ)} :
    validateShape n stack = .ok () ↔ Fits n stack := by
  induction n generalizing stack with
  | zero =>
    cases stack with
    | nil => simp [validateShape, Fits]
    | cons p stack =>
      have := nodes_pos p.1
      simp only [validateShape, reduceCtorEq, Fits, List.map_cons, List.sum_cons, false_iff]
      omega
  | succ n ih =>
    cases stack with
    | nil => simp [validateShape, Fits]
    | cons p stack =>
      obtain ⟨current, depth⟩ := p
      have step : ∀ children : List (Json × ℕ),
          (Fits (n + 1) ((current, depth) :: stack) ↔
            depth ≤ maxJsonDepth ∧ Fits n (children.reverse ++ stack)) →
          ((if maxJsonDepth < depth then
              Except.error (JsonError.valueError "response_schema exceeds its depth limit")
            else validateShape n (children.reverse ++ stack)) = .ok () ↔
          Fits (n + 1) ((current, depth) :: stack)) := by
        intro children h
        rw [h]
        split_ifs with hd
        · simp [not_le.mpr hd]
        · rw [ih]
          simp [not_lt.mp hd]
      have hleaf : nodes current = 1 → height current = 1 → _ :=
        fun h1 h2 => step [] (fits_expand (m := 0) (h := 0) h1 h2 rfl (by simp) (by simp))
      cases current with
      | list items =>
        refine step (items.map (fun v => (v, depth + 1)))
          (fits_expand (m := nodesItems items) (h := heightItems items) rfl rfl ?_ ?_ ?_)
        · rw [nodesItems_eq, List.map_map]
          rfl
        · intro k
          rw [heightItems_le, List.forall_mem_map]
        · exact List.forall_mem_map.mpr (fun _ _ => rfl)
      | dict fields =>
        refine step (fields.map (fun f => (f.2, depth + 1)))
          (fits_expand (m := nodesFields fields) (h := heightFields fields) rfl rfl ?_ ?_ ?_)
        · rw [nodesFields_eq, List.map_map]
          rfl
        · intro k
          rw [heightFields_le, List.forall_mem_map]
        · exact List.forall_mem_map.mpr (fun _ _ => rfl)
      | null => exact hleaf rfl rfl
      | bool b => exact hleaf rfl rfl
      | int i => exact hleaf rfl rfl
      | decimal d => exact hleaf rfl rfl
      | string s => exact hleaf rfl rfl

/-- The shape check is exactly the two limits. -/
theorem validateJsonShape_eq_ok :
    validateJsonShape v = .ok () ↔ nodes v ≤ maxJsonNodes ∧ height v ≤ maxJsonDepth := by
  rw [validateJsonShape, validateShape_eq_ok, Fits]
  simp only [List.map_cons, List.map_nil, List.sum_cons, List.sum_nil, Nat.add_zero,
    List.forall_mem_cons, List.not_mem_nil, false_implies, implies_true, and_true]
  omega

/-- Order and spelling do not change the tree's size. -/
theorem Alike.size {R : Json → Json → Prop}
    (hR : ∀ v w, R v w → nodes v = nodes w ∧ ∀ k, height v ≤ k ↔ height w ≤ k) (h : Alike R v w) :
    nodes v = nodes w ∧ ∀ k, height v ≤ k ↔ height w ≤ k := by
  refine h.induction (P := fun v w => nodes v = nodes w ∧ ∀ k, height v ≤ k ↔ height w ≤ k)
    hR ?list ?dict
  case list =>
    intro vs ws ih
    refine ⟨?_, fun k => ?_⟩
    · rw [nodes, nodes, nodesItems_eq, nodesItems_eq,
        map_eq_of_forall₂ ih (fun _ _ _ _ h => h.1)]
    · cases k with
      | zero => simp [height]
      | succ k =>
        simp only [height, Nat.add_le_add_iff_right, heightItems_le]
        induction ih with
        | nil => rfl
        | cons h _ ih => simp only [List.forall_mem_cons, h.2, ih]
  case dict =>
    intro fs gs gs' hperm ih
    refine ⟨?_, fun k => ?_⟩
    · rw [nodes, nodes, nodesFields_eq, nodesFields_eq,
        map_eq_of_forall₂ (g := fun f : Str × Json => nodes f.2) ih (fun _ _ _ _ h => h.2.1),
        (hperm.map _).sum_eq]
    · cases k with
      | zero => simp [height]
      | succ k =>
        simp only [height, Nat.add_le_add_iff_right, heightFields_le]
        have hmem : (∀ f ∈ gs, height f.2 ≤ k) ↔ ∀ f ∈ gs', height f.2 ≤ k := by
          simp only [hperm.mem_iff]
        rw [hmem]
        clear hmem hperm
        induction ih with
        | nil => rfl
        | cons h _ ih => simp only [List.forall_mem_cons, h.2.2, ih]

theorem Same.size (h : Same v w) : nodes v = nodes w ∧ ∀ k, height v ≤ k ↔ height w ≤ k := by
  refine Alike.size (fun v w h => ?_) h
  cases h with
  | null => exact ⟨rfl, fun _ => Iff.rfl⟩
  | bool b => exact ⟨rfl, fun _ => Iff.rfl⟩
  | number hv hw => cases v <;> cases w <;> simp_all [number?, nodes, height]
  | string s => exact ⟨rfl, fun _ => Iff.rfl⟩

/-! What the parser makes of the canonical document. -/

/-- How a leaf comes back: of the same value, and an integer wherever that value is one. -/
def Rewritten (v w : Json) : Prop :=
  SameScalar v w ∧ ∀ n : ℤ, v.number? = some (n : ℚ) → w = .int n

/-- The parser accepts the text and gives back the same value. -/
def Reread (t : JsonText) (v : Json) : Prop :=
  ∃ v', t.eval jsonHooks = .ok v' ∧ Alike Rewritten v v' ∧ Parsed v'

theorem Alike.same (h : Alike Rewritten v w) : Same v w :=
  h.induction (P := Same) (fun _ _ h => .leaf h.1) (fun _ _ ih => .list ih)
    (fun _ _ _ hp ih => .of_fields hp ih)

theorem numberToken_integral {d : Decimal} {n : ℤ} (h : d.toRat = n) :
    (numberToken d).isFloat = false := by
  rw [numberToken_congr (h.trans (ofInt_toRat n).symm)]
  by_cases h0 : (Decimal.ofInt n).coefficient = 0
  · rw [numberToken_zero h0]
    rfl
  · obtain ⟨m, k, -, -, -, htoken⟩ := numberToken_reduced h0
    rw [htoken, layout_isFloat]
    simp [Decimal.ofInt]

theorem magnitude_le_of_toRat {d e : Decimal} (h : d.toRat = e.toRat)
    (hd : d.magnitude ≤ acceptBound) : e.magnitude ≤ acceptBound := by
  rwa [Decimal.magnitude_eq_abs, ← h, ← Decimal.magnitude_eq_abs]

theorem reread_number {d : Decimal} (hv : v.number? = some d.toRat) (hc : d.Constructible)
    (hm : d.magnitude ≤ acceptBound) : Reread (.number (numberToken d)) v := by
  have hreads := numberToken_reads hc hm
  rw [NumberToken.Reads] at hreads
  rw [Reread, JsonText.eval]
  split_ifs at hreads ⊢ with hf
  · obtain ⟨hparse, hrat⟩ := hreads
    obtain ⟨-, hc', hm'⟩ := parseExactJsonDecimal_eq_ok.mp hparse
    refine ⟨.decimal (numberToken d).toDecimal, ?_,
      .leaf ⟨.number hv (congrArg some hrat), fun n hn => ?_⟩, hc', hm'⟩
    · simp only [jsonHooks, hparse, Except.map]
    · have hfloat := numberToken_integral (Option.some.inj (hv.symm.trans hn))
      rw [hf] at hfloat
      cases hfloat
  · obtain ⟨n, hparse, hrat⟩ := hreads
    refine ⟨.int n, ?_, .leaf ⟨.number hv (congrArg some hrat), fun m hm => ?_⟩, ?_⟩
    · simp only [jsonHooks, hparse, Except.map]
    · have hrat' := hrat.trans (Option.some.inj (hv.symm.trans hm))
      rw [Int.cast_inj.mp hrat']
    · exact magnitude_le_of_toRat ((ofInt_toRat n).trans hrat).symm hm

theorem reread_list (h : ∀ v ∈ vs, Reread (canonText v) v) :
    ∃ vs', JsonText.evalItems jsonHooks (vs.map canonText) = .ok vs' ∧
      List.Forall₂ (Alike Rewritten) vs vs' ∧ ∀ v ∈ vs', Parsed v := by
  induction vs with
  | nil => exact ⟨[], rfl, .nil, by simp⟩
  | cons v vs ih =>
    obtain ⟨v', heval, hsame, hparsed⟩ := h v (by simp)
    obtain ⟨vs', hevals, hsames, hparseds⟩ := ih (fun w hw => h w (List.mem_cons_of_mem _ hw))
    refine ⟨v' :: vs', ?_, .cons hsame hsames, List.forall_mem_cons.mpr ⟨hparsed, hparseds⟩⟩
    rw [List.map_cons, JsonText.evalItems, heval, hevals]
    rfl

theorem reread_fields (h : ∀ f ∈ fs, Reread (canonText f.2) f.2) :
    ∃ gs, JsonText.evalMembers jsonHooks (fs.map (fun f => (f.1, canonText f.2))) = .ok gs ∧
      FieldsRel (Alike Rewritten) fs gs ∧ ∀ g ∈ gs, Parsed g.2 := by
  induction fs with
  | nil => exact ⟨[], rfl, .nil, by simp⟩
  | cons f fs ih =>
    obtain ⟨v', heval, hsame, hparsed⟩ := h f (by simp)
    obtain ⟨gs, hevals, hsames, hparseds⟩ := ih (fun w hw => h w (List.mem_cons_of_mem _ hw))
    refine ⟨(f.1, v') :: gs, ?_, .cons ⟨rfl, hsame⟩ hsames,
      List.forall_mem_cons.mpr ⟨hparsed, hparseds⟩⟩
    rw [List.map_cons, JsonText.evalMembers, heval, hevals]
    rfl

/-- Relating after reordering is reordering after relating. -/
theorem alike_dict_of_perm {R : Json → Json → Prop} (hperm : fs.Perm gs')
    (h : FieldsRel (Alike R) gs' gs) : Alike R (.dict fs) (.dict gs) := by
  obtain ⟨gs'', hrel, hperm'⟩ := List.perm_comp_forall₂ hperm h
  exact .of_fields hperm' hrel

theorem canonText_reread (hv : Parsed v) : Reread (canonText v) v := by
  induction v using Json.induction with
  | null => exact ⟨.null, rfl, .leaf ⟨.null, nofun⟩, trivial⟩
  | bool b => exact ⟨.bool b, rfl, .leaf ⟨.bool b, nofun⟩, trivial⟩
  | int n => exact reread_number (congrArg some (ofInt_toRat n).symm) (ofInt_constructible hv) hv
  | decimal d => exact reread_number rfl hv.1 hv.2
  | string s => exact ⟨.string s, rfl, .leaf ⟨.string s, nofun⟩, hv⟩
  | list vs ih =>
    obtain ⟨vs', heval, hsame, hparsed⟩ := reread_list (fun v hm => ih v hm (parsed_item hv hm))
    refine ⟨.list vs', ?_, .list hsame, parsedItems_iff.mpr hparsed⟩
    rw [canonText_list, JsonText.eval, heval]
    rfl
  | dict fs ih =>
    have hsorted : ∀ f ∈ sortFields fs, f ∈ fs := fun f hf => (sortFields_perm fs).mem_iff.mp hf
    obtain ⟨gs, heval, hsame, hparsed⟩ := @reread_fields (sortFields fs)
      (fun f hf => ih f (hsorted f hf) (parsed_field hv (hsorted f hf)))
    have hkeys : keys (sortFields fs) = keys gs := (fieldsRel_iff.mp hsame).1
    have hnodup : (keys gs).Nodup := by
      rw [← hkeys]
      exact ((sortFields_perm fs).map _).nodup_iff.mpr hv.1
    have hscalar : ∀ g ∈ gs, Scalars g.1 := by
      intro g hg
      have hk : g.1 ∈ keys (sortFields fs) := hkeys ▸ List.mem_map_of_mem hg
      obtain ⟨f, hf, hfg⟩ := List.mem_map.mp hk
      exact hfg ▸ (parsedFields_iff.mp hv.2 f (hsorted f hf)).1
    refine ⟨.dict gs, ?_, alike_dict_of_perm (sortFields_perm fs).symm hsame, hnodup,
      parsedFields_iff.mpr (fun g hg => ⟨hscalar g hg, hparsed g hg⟩)⟩
    rw [canonText_dict, JsonText.eval, heval]
    simp only [bind, Except.bind, jsonHooks, parseJsonObjectPairs, hnodup, if_true]

/-! Depth of the text. -/

theorem depthItems_le {ts : List JsonText} {n : ℕ} :
    JsonText.depthItems ts ≤ n ↔ ∀ t ∈ ts, t.depth ≤ n := by
  induction ts with
  | nil => simp [JsonText.depthItems]
  | cons t ts ih => simp [JsonText.depthItems, ih]

theorem depthMembers_le {ms : List (Str × JsonText)} {n : ℕ} :
    JsonText.depthMembers ms ≤ n ↔ ∀ m ∈ ms, m.2.depth ≤ n := by
  induction ms with
  | nil => simp [JsonText.depthMembers]
  | cons m ms ih => simp [JsonText.depthMembers, ih]

theorem canonText_depth (v : Json) : (canonText v).depth ≤ height v := by
  induction v using Json.induction with
  | null => simp [canonText, JsonText.depth]
  | bool b => simp [canonText, JsonText.depth]
  | int n => simp [canonText, JsonText.depth]
  | decimal d => simp [canonText, JsonText.depth]
  | string s => simp [canonText, JsonText.depth]
  | list vs ih =>
    rw [canonText_list, JsonText.depth, height, Nat.add_le_add_iff_right, depthItems_le]
    intro t ht
    obtain ⟨v, hv, rfl⟩ := List.mem_map.mp ht
    exact (ih v hv).trans (heightItems_le.mp le_rfl v hv)
  | dict fs ih =>
    rw [canonText_dict, JsonText.depth, height, Nat.add_le_add_iff_right, depthMembers_le]
    intro m hm
    obtain ⟨f, hf, rfl⟩ := List.mem_map.mp hm
    have hf' := (sortFields_perm fs).mem_iff.mp hf
    exact (ih f hf').trans (heightFields_le.mp le_rfl f hf')

/-- What the parser makes of an object's own bytes, when the interpreter goes deep enough. -/
theorem loads_encode {recursionLimit : ℕ} (hv : Parsed (.dict fs))
    (hh : height (.dict fs) ≤ recursionLimit) :
    ∃ gs, loads recursionLimit (utf8 (canonText (.dict fs)).render) = .ok (.dict gs) ∧
      Alike Rewritten (.dict fs) (.dict gs) ∧ Parsed (.dict gs) := by
  obtain ⟨v', heval, halike, hparsed⟩ := canonText_reread hv
  obtain ⟨s, hs⟩ : ∃ s, (canonText (.dict fs)).render = 123 :: s := ⟨_, rfl⟩
  have hplain : ∀ d ∈ s, d ≠ 0 ∧ d < 0x110000 := by
    intro d hd
    have hp := plain_render hv d (hs ▸ List.mem_cons_of_mem _ hd)
    exact ⟨by have := hp.2; omega, hp.1.1⟩
  have hdepth := (canonText_depth (.dict fs)).trans hh
  have hload : loads recursionLimit (utf8 (canonText (.dict fs)).render) = .ok v' :=
    (jsonLoads_render (canonText_wellFormed _) hdepth hs (by norm_num) hplain).trans heval
  cases halike with
  | leaf h =>
    cases h.1 with
    | number hq _ => simp [number?] at hq
  | dict hperm hkeys h => exact ⟨_, hload, .dict hperm hkeys h, hparsed⟩

/-- The parser accepts an object's own bytes exactly within the limits, and gives the object back. -/
theorem parseJsonObject_encode_iff {recursionLimit : ℕ} (hv : Parsed (.dict fs))
    (hh : height (.dict fs) ≤ recursionLimit) :
    ∃ gs, (∀ w, parseJsonObject recursionLimit (utf8 (canonText (.dict fs)).render) = .ok w ↔
        w = .dict gs ∧ nodes (.dict fs) ≤ maxJsonNodes ∧ height (.dict fs) ≤ maxJsonDepth) ∧
      Alike Rewritten (.dict fs) (.dict gs) ∧ Parsed (.dict gs) := by
  obtain ⟨gs, hload, halike, hparsed⟩ := loads_encode hv hh
  refine ⟨gs, fun w => ?_, halike, hparsed⟩
  have hsize := Same.size halike.same
  have hshape := @validateJsonShape_eq_ok (.dict gs)
  rw [← hsize.1, ← hsize.2] at hshape
  rw [parseJsonObject, hload, ← hshape]
  cases hcheck : validateJsonShape (.dict gs) with
  | error e => simp [hcheck, bind, Except.bind]
  | ok u => simp [hcheck, bind, Except.bind, pure, Except.pure, eq_comm]

/-- Within the limits an object is read back from its own bytes. -/
theorem parseJsonObject_encode {recursionLimit : ℕ} (hv : Parsed (.dict fs))
    (hn : nodes (.dict fs) ≤ maxJsonNodes) (hh : height (.dict fs) ≤ maxJsonDepth)
    (hr : maxJsonDepth ≤ recursionLimit) :
    ∃ v', parseJsonObject recursionLimit (utf8 (canonText (.dict fs)).render) = .ok v' ∧
      Same (.dict fs) v' ∧ Parsed v' := by
  obtain ⟨gs, hparse, halike, hparsed⟩ := parseJsonObject_encode_iff hv (hh.trans hr)
  exact ⟨.dict gs, (hparse _).mpr ⟨rfl, hn, hh⟩, halike.same, hparsed⟩

end Json

end Gateway
