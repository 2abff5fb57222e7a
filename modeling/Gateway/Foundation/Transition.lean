import Mathlib

/-! Finite runs of a labelled step relation, and invariants carried along them. -/
namespace Gateway.Transition

variable {σ α : Type*} {step step' : σ → α → σ → Prop} {P : σ → Prop} {init : σ → Prop}
variable {s t u : σ} {a : α} {xs ys : List α}

/-- The state after each label of a finite run, the labels kept in order. -/
inductive Run (step : σ → α → σ → Prop) : σ → List α → σ → Prop where
  | refl {s : σ} : Run step s [] s
  | stepL {s u t : σ} {a : α} {xs : List α} :
      step s a u → Run step u xs t → Run step s (a :: xs) t

/-- A state at the end of some run from an initial state. -/
def Reachable (init : σ → Prop) (step : σ → α → σ → Prop) (s : σ) : Prop :=
  ∃ s₀ xs, init s₀ ∧ Run step s₀ xs s

theorem Run.single (h : step s a t) : Run step s [a] t := .stepL h .refl

theorem Run.append (h : Run step s xs u) (h' : Run step u ys t) :
    Run step s (xs ++ ys) t := by
  induction h with
  | refl => exact h'
  | stepL hs _ ih => exact .stepL hs (ih h')

theorem Run.snoc (h : Run step s xs u) (hs : step u a t) : Run step s (xs ++ [a]) t :=
  h.append (.single hs)

theorem Run.split (h : Run step s (xs ++ ys) t) :
    ∃ u, Run step s xs u ∧ Run step u ys t := by
  induction xs generalizing s with
  | nil => exact ⟨s, .refl, h⟩
  | cons a xs ih =>
    cases h with
    | stepL hs ht =>
      obtain ⟨u, hu, hv⟩ := ih ht
      exact ⟨u, .stepL hs hu, hv⟩

/-- Where a state and a label leave one next state, a state and its labels leave one last state. -/
theorem Run.functional (hstep : ∀ s a t t', step s a t → step s a t' → t = t')
    (h : Run step s xs t) {t' : σ} (h' : Run step s xs t') : t = t' := by
  induction h with
  | refl =>
    cases h' with
    | refl => rfl
  | stepL hs _ ih =>
    cases h' with
    | stepL hs' ht' =>
      obtain rfl := hstep _ _ _ _ hs hs'
      exact ih ht'

/-- What one step preserves, a whole run preserves. -/
theorem Run.invariant (hstep : ∀ s a t, step s a t → P s → P t)
    (h : Run step s xs t) (hs : P s) : P t := by
  induction h with
  | refl => exact hs
  | stepL h _ ih => exact ih (hstep _ _ _ h hs)

/-- Labels that each use up some of what is left are no more than there was. -/
theorem Run.counted {p : α → Bool} {left : σ → ℕ}
    (hstep : ∀ s a t, a ∈ xs → step s a t → (if p a then 1 else 0) + left t ≤ left s)
    (h : Run step s xs t) : xs.countP p + left t ≤ left s := by
  induction h with
  | refl => simp
  | stepL h _ ih =>
    have hfirst := hstep _ _ _ (List.mem_cons_self ..) h
    have hrest := ih fun s a t ha => hstep s a t (List.mem_cons_of_mem _ ha)
    rw [List.countP_cons]
    omega

theorem Run.mono (hstep : ∀ s a t, step s a t → step' s a t)
    (h : Run step s xs t) : Run step' s xs t := by
  induction h with
  | refl => exact .refl
  | stepL h _ ih => exact .stepL (hstep _ _ _ h) ih

/-- Labels whose next states can be computed are a run. -/
theorem run_of_foldlM {next : σ → α → Option σ}
    (hstep : ∀ s a t, a ∈ xs → next s a = some t → step s a t) (h : xs.foldlM next s = some t) :
    Run step s xs t := by
  induction xs generalizing s with
  | nil =>
    obtain rfl : s = t := Option.some.inj h
    exact .refl
  | cons a xs ih =>
    rw [List.foldlM_cons] at h
    obtain ⟨u, hu, hrest⟩ := Option.bind_eq_some_iff.mp h
    exact .stepL (hstep s a u (List.mem_cons_self ..) hu)
      (ih (fun s b t hb => hstep s b t (List.mem_cons_of_mem _ hb)) hrest)

/-! What is recorded beside a run. -/

section Recording

variable {γ : Type*} {record : γ → σ → α → σ → γ} {g : γ}

/-- A step beside which a record is kept of the state before, the label and the state after. -/
def Recording (step : σ → α → σ → Prop) (record : γ → σ → α → σ → γ) (p : σ × γ) (a : α)
    (q : σ × γ) : Prop :=
  step p.1 a q.1 ∧ q.2 = record p.2 p.1 a q.1

/-- Recording restricts no run. -/
theorem Run.recorded (h : Run step s xs t) (record : γ → σ → α → σ → γ) (g : γ) :
    ∃ g', Run (Recording step record) (s, g) xs (t, g') := by
  induction h generalizing g with
  | refl => exact ⟨g, .refl⟩
  | @stepL s u t a xs h _ ih =>
    obtain ⟨g', hrest⟩ := ih (record g s a u)
    exact ⟨g', .stepL ⟨h, rfl⟩ hrest⟩

theorem Run.forget {p q : σ × γ} (h : Run (Recording step record) p xs q) :
    Run step p.1 xs q.1 := by
  induction h with
  | refl => exact .refl
  | stepL h _ ih => exact .stepL h.1 ih

end Recording

/-- The invariant rule: true initially and kept by each step, so true when reached. -/
theorem reachable_invariant (hinit : ∀ s, init s → P s)
    (hstep : ∀ s a t, step s a t → P s → P t) (h : Reachable init step s) : P s := by
  obtain ⟨s₀, xs, hi, hr⟩ := h
  exact hr.invariant hstep (hinit s₀ hi)

end Gateway.Transition
