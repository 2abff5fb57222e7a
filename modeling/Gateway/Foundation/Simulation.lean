import Gateway.Foundation.Transition

/-! One system seen as another: each step is seen as a step of the other, or changes nothing there. -/
namespace Gateway.Transition

variable {σ τ α β : Type*} {step : σ → α → σ → Prop} {step' : τ → β → τ → Prop} {P : σ → Prop}
variable {view : σ → τ} {label : σ → α → Option β} {s t : σ} {xs : List α}

/-- Steps from a good state lead to a good state, and are seen as the step of their label, if any. -/
structure Simulation (step : σ → α → σ → Prop) (step' : τ → β → τ → Prop) (P : σ → Prop)
    (view : σ → τ) (label : σ → α → Option β) : Prop where
  keeps : ∀ s a t, step s a t → P s → P t
  quiet : ∀ s a t, step s a t → label s a = none → view t = view s
  sees : ∀ s a t b, step s a t → P s → label s a = some b → step' (view s) b (view t)

/-- The labels that the steps of a run are seen with, in their order. -/
def labelled (label : σ → α → Option β) (ys : List β) (s : σ) (a : α) (_ : σ) : List β :=
  ys ++ (label s a).toList

/-- A run is seen as the run of its labels. -/
theorem Simulation.run (h : Simulation step step' P view label) (hrun : Run step s xs t)
    (hs : P s) : ∃ ys, Run (Recording step (labelled label)) (s, []) xs (t, ys) ∧
      Run step' (view s) ys (view t) := by
  obtain ⟨ys, hrecorded⟩ := hrun.recorded (labelled label) []
  refine ⟨ys, hrecorded, ?_⟩
  have hseen : P t ∧ Run step' (view s) ys (view t) := by
    refine hrecorded.invariant (P := fun p : σ × List β => P p.1 ∧ Run step' (view s) p.2 (view p.1))
      ?_ ⟨hs, .refl⟩
    rintro ⟨u, ys⟩ a ⟨v, ys'⟩ ⟨hstep, hrecord⟩ ⟨hu, hys⟩
    obtain rfl : ys' = ys ++ (label u a).toList := hrecord
    refine ⟨h.keeps u a v hstep hu, ?_⟩
    cases hlabel : label u a with
    | none =>
      rw [h.quiet u a v hstep hlabel, Option.toList_none, List.append_nil]
      exact hys
    | some b => exact hys.snoc (h.sees u a v b hstep hu hlabel)
  exact hseen.2

end Gateway.Transition
