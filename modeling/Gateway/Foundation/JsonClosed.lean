import Gateway.Foundation.JsonText

/-! A property the hooks give to each value is a property of every value a decoder returns. -/
namespace Gateway

variable {α ε : Type*} {h : JsonHooks α ε} {P : α → Prop}

/-- Each hook returns good values, given good parts. -/
structure JsonHooks.Closed (h : JsonHooks α ε) (P : α → Prop) : Prop where
  null : P h.null
  bool : ∀ b, P (h.bool b)
  string : ∀ s, P (h.string s)
  array : ∀ vs, (∀ v ∈ vs, P v) → P (h.array vs)
  integer : ∀ t v, t.isFloat = false → h.integer t = .ok v → P v
  float : ∀ t v, h.float t = .ok v → P v
  constant : ∀ s v, h.constant s = .ok v → P v
  objectPairs : ∀ kvs v, (∀ f ∈ kvs, P f.2) → h.objectPairs kvs = .ok v → P v

namespace JsonText

theorem scanScalar_closed (hc : h.Closed P) {s r : Str} {v : α}
    (hs : scanScalar h s = .ok (v, r)) : P v := by
  unfold scanScalar at hs
  split at hs
  · split at hs
    · obtain ⟨rfl, -⟩ := Prod.mk.inj (Except.ok.inj hs)
      exact hc.string _
    · cases hs
  · split_ifs at hs
    · obtain ⟨rfl, -⟩ := Prod.mk.inj (Except.ok.inj hs)
      exact hc.null
    · obtain ⟨rfl, -⟩ := Prod.mk.inj (Except.ok.inj hs)
      exact hc.bool _
    · obtain ⟨rfl, -⟩ := Prod.mk.inj (Except.ok.inj hs)
      exact hc.bool _
    · obtain ⟨w, hw, he⟩ := map_eq_ok.mp hs
      exact hc.constant _ _ ((Prod.mk.inj he).1 ▸ hw)
    · obtain ⟨w, hw, he⟩ := map_eq_ok.mp hs
      exact hc.constant _ _ ((Prod.mk.inj he).1 ▸ hw)
    · obtain ⟨w, hw, he⟩ := map_eq_ok.mp hs
      exact hc.constant _ _ ((Prod.mk.inj he).1 ▸ hw)
    · split at hs
      · obtain ⟨w, hw, he⟩ := map_eq_ok.mp hs
        obtain ⟨rfl, -⟩ := Prod.mk.inj he
        split at hw
        · exact hc.float _ _ hw
        · rename_i hf
          exact hc.integer _ _ (by simpa using hf) hw
      · cases hs

section Containers

variable {scan : Str → Except ε (α × Str)} (hscan : ∀ s v r, scan s = .ok (v, r) → P v)
include hscan

theorem scanItems_closed {n : ℕ} {s r : Str} {vs : List α}
    (hs : scanItems h scan n s = .ok (vs, r)) : ∀ v ∈ vs, P v := by
  induction n generalizing s r vs with
  | zero => cases hs
  | succ n ih =>
    obtain ⟨⟨v, s'⟩, hv, hrest⟩ := bind_eq_ok.mp hs
    have hhead := hscan _ _ _ hv
    simp only at hrest
    split at hrest
    · obtain ⟨rfl, -⟩ := Prod.mk.inj (Except.ok.inj hrest)
      simpa using hhead
    · obtain ⟨⟨vs', r'⟩, hvs, he⟩ := bind_eq_ok.mp hrest
      obtain ⟨rfl, -⟩ := Prod.mk.inj (Except.ok.inj he)
      exact List.forall_mem_cons.mpr ⟨hhead, ih hvs⟩
    · cases hrest

theorem scanArray_closed (hc : h.Closed P) {s r : Str} {v : α}
    (hs : scanArray h scan s = .ok (v, r)) : P v := by
  unfold scanArray at hs
  split at hs
  · obtain ⟨rfl, -⟩ := Prod.mk.inj (Except.ok.inj hs)
    exact hc.array _ (by simp)
  · obtain ⟨⟨vs, r'⟩, hvs, he⟩ := bind_eq_ok.mp hs
    obtain ⟨rfl, -⟩ := Prod.mk.inj (Except.ok.inj he)
    exact hc.array _ (scanItems_closed hscan hvs)

theorem scanMembers_closed {n : ℕ} {s r : Str} {kvs : List (Str × α)}
    (hs : scanMembers h scan n s = .ok (kvs, r)) : ∀ f ∈ kvs, P f.2 := by
  induction n generalizing s r kvs with
  | zero => cases hs
  | succ n ih =>
    unfold scanMembers at hs
    split at hs
    · cases hs
    · rename_i hn
      obtain rfl := Nat.succ.inj hn
      split at hs
      · cases hs
      · split at hs
        · obtain ⟨⟨v, s'⟩, hv, hrest⟩ := bind_eq_ok.mp hs
          have hhead := hscan _ _ _ hv
          simp only at hrest
          split at hrest
          · obtain ⟨rfl, -⟩ := Prod.mk.inj (Except.ok.inj hrest)
            simpa using hhead
          · obtain ⟨⟨kvs', r'⟩, hkvs, he⟩ := bind_eq_ok.mp hrest
            obtain ⟨rfl, -⟩ := Prod.mk.inj (Except.ok.inj he)
            exact List.forall_mem_cons.mpr ⟨hhead, ih hkvs⟩
          · cases hrest
        · cases hs
    · cases hs

theorem scanObject_closed (hc : h.Closed P) {s r : Str} {v : α}
    (hs : scanObject h scan s = .ok (v, r)) : P v := by
  have hfinish : ∀ {kvs : List (Str × α)} {r' : Str}, (∀ f ∈ kvs, P f.2) →
      ((h.objectPairs kvs).bind fun v => .ok (v, r')) = .ok (v, r) → P v := by
    intro kvs r' hkvs hrest
    obtain ⟨w, hw, he⟩ := bind_eq_ok.mp hrest
    obtain ⟨rfl, -⟩ := Prod.mk.inj (Except.ok.inj he)
    exact hc.objectPairs kvs _ hkvs hw
  unfold scanObject at hs
  simp only at hs
  split at hs
  · exact hfinish (by simp) hs
  · obtain ⟨⟨kvs, r'⟩, hkvs, hrest⟩ := bind_eq_ok.mp hs
    exact hfinish (scanMembers_closed hscan hkvs) hrest

end Containers

theorem scanOnce_closed (hc : h.Closed P) {n : ℕ} {s r : Str} {v : α}
    (hs : scanOnce h n s = .ok (v, r)) : P v := by
  induction n generalizing s v r with
  | zero =>
    unfold scanOnce at hs
    split at hs
    · cases hs
    · cases hs
    · exact scanScalar_closed hc hs
  | succ n ih =>
    unfold scanOnce at hs
    split at hs
    · exact scanArray_closed (fun _ _ _ h => ih h) hc hs
    · exact scanObject_closed (fun _ _ _ h => ih h) hc hs
    · exact scanScalar_closed hc hs

theorem decode_closed (hc : h.Closed P) {n : ℕ} {s : Str} {v : α} (hs : decode h n s = .ok v) :
    P v := by
  obtain ⟨⟨w, r⟩, hw, hrest⟩ := bind_eq_ok.mp hs
  simp only at hrest
  split at hrest
  · obtain rfl := Except.ok.inj hrest
    exact scanOnce_closed hc hw
  · cases hrest

end JsonText

end Gateway
