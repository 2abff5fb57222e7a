import Mathlib

/-! Tables with a primary key: select, update, delete, insert and count, as SQL has them. -/
namespace Gateway

/-- Rows with distinct keys, so that a duplicate primary key cannot be stored. -/
@[ext]
structure KeyedTable {ρ κ : Type*} (key : ρ → κ) where
  rows : List ρ
  nodup : (rows.map key).Nodup

namespace KeyedTable

variable {ρ κ : Type*} [DecidableEq κ] {key : ρ → κ} {t : KeyedTable key}
variable {p q : ρ → Bool} {f : ρ → ρ} {k : κ} {r : ρ}

def empty : KeyedTable key := ⟨[], List.nodup_nil⟩

/-- `SELECT * WHERE key = ?`. -/
def select (t : KeyedTable key) (k : κ) : Option ρ := t.rows.find? (fun r => key r = k)

/-- `UPDATE SET f WHERE p`, for an assignment that leaves the key alone. -/
def update (t : KeyedTable key) (p : ρ → Bool) (f : ρ → ρ) (hf : ∀ r, key (f r) = key r) :
    KeyedTable key where
  rows := t.rows.map (fun r => if p r then f r else r)
  nodup := by
    have hkey : (key ∘ fun r => if p r then f r else r) = key := by
      funext r
      by_cases hp : p r = true <;> simp [hp, hf]
    rw [List.map_map, hkey]
    exact t.nodup

/-- The row count an `UPDATE ... WHERE p` reports. -/
def matched (t : KeyedTable key) (p : ρ → Bool) : ℕ := t.rows.countP p

/-- `DELETE WHERE p`. -/
def delete (t : KeyedTable key) (p : ρ → Bool) : KeyedTable key where
  rows := t.rows.filter (fun r => !p r)
  nodup := t.nodup.sublist (List.filter_sublist.map key)

/-- `INSERT` of a row whose key no row has. -/
def insert (t : KeyedTable key) (r : ρ) (h : t.select (key r) = none) : KeyedTable key where
  rows := r :: t.rows
  nodup := by
    refine List.nodup_cons.mpr ⟨?_, t.nodup⟩
    intro hmem
    obtain ⟨r', hr', he⟩ := List.mem_map.mp hmem
    have := List.find?_eq_none.mp h r' hr'
    simp [he] at this

/-- `SELECT COUNT(*) WHERE p`. -/
def count (t : KeyedTable key) (p : ρ → Bool) : ℕ := t.rows.countP p

theorem key_of_select (h : t.select k = some r) : key r = k := by
  simpa using List.find?_some h

theorem mem_of_select (h : t.select k = some r) : r ∈ t.rows := List.mem_of_find?_eq_some h

theorem find?_of_nodup {rows : List ρ} (hn : (rows.map key).Nodup) (h : r ∈ rows) :
    rows.find? (fun r' => key r' = key r) = some r := by
  induction rows with
  | nil => simp at h
  | cons r' rows ih =>
    simp only [List.map_cons, List.nodup_cons] at hn
    rcases List.mem_cons.mp h with rfl | h
    · simp
    · have hne : key r' ≠ key r := by
        intro he
        exact hn.1 (he ▸ List.mem_map_of_mem h)
      simp [hne, ih hn.2 h]

theorem mem_iff_select : r ∈ t.rows ↔ t.select (key r) = some r :=
  ⟨find?_of_nodup t.nodup, mem_of_select⟩

@[simp] theorem select_empty : (empty : KeyedTable key).select k = none := rfl

@[simp] theorem select_update (hf : ∀ r, key (f r) = key r) :
    (t.update p f hf).select k = (t.select k).map (fun r => if p r then f r else r) := by
  have hkey : ((fun r => decide (key r = k)) ∘ fun r => if p r then f r else r) =
      fun r => decide (key r = k) := by
    funext r
    by_cases hp : p r = true <;> simp [hp, hf]
  simp only [select, update, List.find?_map, hkey]

@[simp] theorem select_delete :
    (t.delete p).select k = (t.select k).filter (fun r => !p r) := by
  cases hs : t.select k with
  | none =>
    have h := List.find?_eq_none.mp hs
    refine List.find?_eq_none.mpr ?_
    intro r hr
    exact h r (List.mem_filter.mp hr).1
  | some r =>
    have hk := key_of_select hs
    subst hk
    by_cases hp : p r = true
    · simp only [Option.filter, hp, Bool.not_true]
      refine List.find?_eq_none.mpr ?_
      intro r' hr' he
      obtain ⟨hm, hn⟩ := List.mem_filter.mp hr'
      have hsel := mem_iff_select.mp hm
      simp only [decide_eq_true_eq] at he
      rw [he, hs] at hsel
      obtain rfl := Option.some.inj hsel
      simp [hp] at hn
    · simp only [Option.filter, hp, Bool.not_false]
      exact find?_of_nodup (t.delete p).nodup
        (List.mem_filter.mpr ⟨mem_of_select hs, by simpa using hp⟩)

theorem select_insert (h : t.select (key r) = none) :
    (t.insert r h).select k = if key r = k then some r else t.select k := by
  simp only [select, insert, List.find?_cons]
  by_cases hk : key r = k <;> simp [hk]

omit [DecidableEq κ] in
/-- An update counts no more rows of a class when it moves no row into the class. -/
theorem count_update_le (hf : ∀ r, key (f r) = key r)
    (hq : ∀ r ∈ t.rows, p r → q (f r) → q r) : (t.update p f hf).count q ≤ t.count q := by
  simp only [count, update, List.countP_map]
  refine List.countP_mono_left ?_
  intro r hr h
  by_cases hp : p r = true
  · exact hq r hr hp (by simpa [hp] using h)
  · simpa [hp] using h

omit [DecidableEq κ] in
theorem count_delete_le : (t.delete p).count q ≤ t.count q :=
  List.filter_sublist.countP_le

theorem count_insert (h : t.select (key r) = none) :
    (t.insert r h).count q = t.count q + if q r then 1 else 0 := by
  simp [count, insert, List.countP_cons]

/-- One key selects at most one row, so its update reports zero or one. -/
theorem matched_key (k : κ) (p : ρ → Bool) :
    t.matched (fun r => key r = k && p r) = if (t.select k).any p then 1 else 0 := by
  have hcount : ∀ rows : List ρ, (rows.map key).Nodup →
      rows.countP (fun r => decide (key r = k) && p r) =
        if (rows.find? (fun r => key r = k)).any p then 1 else 0 := by
    intro rows hn
    induction rows with
    | nil => simp
    | cons r rows ih =>
      simp only [List.map_cons, List.nodup_cons] at hn
      rw [List.countP_cons, List.find?_cons, ih hn.2]
      by_cases hk : key r = k
      · have hnone : rows.find? (fun r => key r = k) = none := by
          refine List.find?_eq_none.mpr ?_
          intro r' hr' he
          simp only [decide_eq_true_eq] at he
          exact hn.1 (by rw [hk, ← he]; exact List.mem_map_of_mem hr')
        simp [hk, hnone]
      · simp [hk]
  exact hcount t.rows t.nodup

/-! Two tables row by row. -/

section Related

variable {R R' : ρ → ρ → Prop} {t' : KeyedTable key}

def Related (R : ρ → ρ → Prop) (t t' : KeyedTable key) : Prop := List.Forall₂ R t.rows t'.rows

theorem Related.select (hkey : ∀ a b, R a b → key a = key b) (h : Related R t t') (k : κ) :
    Option.Rel R (t.select k) (t'.select k) := by
  have hrows : ∀ rows rows' : List ρ, List.Forall₂ R rows rows' →
      Option.Rel R (rows.find? (fun r => key r = k)) (rows'.find? (fun r => key r = k)) := by
    intro rows rows' h
    induction h with
    | nil => exact .none
    | cons hab _ ih =>
      rw [List.find?_cons, List.find?_cons, hkey _ _ hab]
      split
      · exact .some hab
      · exact ih
  exact hrows _ _ h

omit [DecidableEq κ] in
theorem Related.count (hq : ∀ a b, R a b → q a = q b) (h : Related R t t') :
    t.count q = t'.count q := by
  have hrows : ∀ rows rows' : List ρ, List.Forall₂ R rows rows' → rows.countP q = rows'.countP q := by
    intro rows rows' h
    induction h with
    | nil => rfl
    | cons hab _ ih => rw [List.countP_cons, List.countP_cons, ih, hq _ _ hab]
  exact hrows _ _ h

omit [DecidableEq κ] in
theorem Related.update (hf : ∀ r, key (f r) = key r)
    (hR : ∀ a b, R a b → R' (if p a then f a else a) (if p b then f b else b))
    (h : Related R t t') : Related R' (t.update p f hf) (t'.update p f hf) :=
  List.forall₂_map_left_iff.mpr (List.forall₂_map_right_iff.mpr (h.imp hR))

theorem Related.insert (hr : R r r) (h : Related R t t') (hs : t.select (key r) = none)
    (hs' : t'.select (key r) = none) : Related R (t.insert r hs) (t'.insert r hs') :=
  .cons hr h

omit [DecidableEq κ] in
theorem Related.mono (hR : ∀ a b, R a b → R' a b) (h : Related R t t') : Related R' t t' := h.imp hR

omit [DecidableEq κ] in
theorem delete_none (h : ∀ r ∈ t.rows, p r = false) : t.delete p = t := by
  refine KeyedTable.ext (List.filter_eq_self.mpr fun r hr => ?_)
  simp [h r hr]

end Related

end KeyedTable

end Gateway
