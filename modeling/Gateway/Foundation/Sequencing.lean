import Gateway.Foundation.Interaction

/-! Laws of sequencing, and what a run of the first part says of the runs of the whole. -/
namespace Gateway.Program

variable {Q : Type} {A : Q → Type} {ε α β : Type} {p : Program Q A ε α} {f : α → Program Q A ε β}
variable {first first' rest rest' trace : Trace A} {r r' : Except ε α} {r₂ : Except ε β} {a : α} {e : ε}

theorem andThen_pure (p : Program Q A ε α) : p.andThen (fun a => .done (.ok a)) = p := by
  induction p with
  | done r => cases r <;> rfl
  | ask query next ih => exact congrArg (Program.ask query) (funext ih)

theorem andThen_assoc {γ : Type} (p : Program Q A ε α) (f : α → Program Q A ε β)
    (g : β → Program Q A ε γ) :
    (p.andThen f).andThen g = p.andThen (fun a => (f a).andThen g) := by
  induction p with
  | done r => cases r <;> rfl
  | ask query next ih => exact congrArg (Program.ask query) (funext ih)

instance : LawfulMonad (Program Q A ε) :=
  LawfulMonad.mk' _ andThen_pure (fun _ _ => rfl) andThen_assoc

/-- Of two runs that begin alike, both are as long and end alike. -/
theorem ends_prefix (h : Ends p first r) (h' : Ends p first' r')
    (he : first ++ rest = first' ++ rest') : first = first' ∧ r = r' ∧ rest = rest' := by
  induction h generalizing first' with
  | done r =>
    obtain ⟨rfl, rfl⟩ := ends_done.mp h'
    exact ⟨rfl, rfl, he⟩
  | ask answer h ih =>
    obtain ⟨answer', trace', rfl, hnext⟩ := ends_ask.mp h'
    obtain ⟨hx, hrest⟩ := List.cons.inj he
    obtain rfl := eq_of_heq (Sigma.mk.inj hx).2
    obtain ⟨rfl, rfl, rfl⟩ := ih hnext hrest
    exact ⟨rfl, rfl, rfl⟩

/-- After a run of its first part, a sequence runs as its second. -/
theorem ends_bind_append (h : Ends p first (.ok a)) :
    Ends (p >>= f) (first ++ rest) r₂ ↔ Ends (f a) rest r₂ := by
  rw [ends_bind]
  constructor
  · rintro (⟨e, herror, -⟩ | ⟨a', first', second, hfirst, hsecond, he⟩)
    · obtain ⟨-, hr, -⟩ := ends_prefix h herror (List.append_nil (first ++ rest)).symm
      cases hr
    · obtain ⟨rfl, hr, rfl⟩ := ends_prefix h hfirst he
      obtain rfl := Except.ok.inj hr
      exact hsecond
  · exact fun hrest => .inr ⟨a, first, rest, h, hrest, rfl⟩

/-- After a first part that raises, a sequence asks nothing more. -/
theorem ends_bind_append_error (h : Ends p first (.error e)) :
    Ends (p >>= f) (first ++ rest) r₂ ↔ rest = [] ∧ r₂ = .error e := by
  rw [ends_bind]
  constructor
  · rintro (⟨e', herror, rfl⟩ | ⟨a, first', second, hfirst, -, he⟩)
    · obtain ⟨-, hr, hrest⟩ := ends_prefix h herror (List.append_nil (first ++ rest)).symm
      obtain rfl := Except.error.inj hr
      exact ⟨hrest, rfl⟩
    · obtain ⟨-, hr, -⟩ := ends_prefix h hfirst he
      cases hr
  · rintro ⟨rfl, rfl⟩
    exact .inl ⟨e, by simpa using h, rfl⟩

/-- A run of a sequence begins with a run of its first part. -/
theorem ends_bind_prefix (h : Ends (p >>= f) trace r₂) :
    ∃ first rest r, trace = first ++ rest ∧ Ends p first r := by
  rcases ends_bind.mp h with ⟨e, herror, -⟩ | ⟨a, first, second, hfirst, -, rfl⟩
  · exact ⟨trace, [], _, by simp, herror⟩
  · exact ⟨first, second, _, rfl, hfirst⟩

/-! One program for each element of a list. -/

section MapM

variable {γ : Type} {g : γ → Program Q A ε α} {xs : List γ} {ys : List α}

/-- Values for the elements of a list come from runs that follow each other in its order. -/
theorem ends_mapM_ok : Ends (xs.mapM g) trace (.ok ys) ↔
    ∃ runs : List (Trace A × α), trace = (runs.map Prod.fst).flatten ∧ ys = runs.map Prod.snd ∧
      List.Forall₂ (fun x run => Ends (g x) run.1 (.ok run.2)) xs runs := by
  induction xs generalizing trace ys with
  | nil =>
    rw [List.mapM_nil, ends_pure]
    constructor
    · rintro ⟨rfl, hys⟩
      exact ⟨[], rfl, Except.ok.inj hys, .nil⟩
    · rintro ⟨runs, rfl, rfl, hruns⟩
      cases hruns
      exact ⟨rfl, rfl⟩
  | cons x xs ih =>
    rw [List.mapM_cons, ends_bind_ok]
    constructor
    · rintro ⟨y, first, second, hfirst, hsecond, rfl⟩
      obtain ⟨ys', rest, last, hrest, hlast, rfl⟩ := ends_bind_ok.mp hsecond
      obtain ⟨rfl, hys⟩ := ends_pure.mp hlast
      obtain ⟨runs, rfl, rfl, hruns⟩ := ih.mp hrest
      exact ⟨(first, y) :: runs, by simp, Except.ok.inj hys, .cons hfirst hruns⟩
    · rintro ⟨runs, rfl, rfl, hruns⟩
      cases hruns with
      | @cons _ run _ runs hrun hruns =>
        refine ⟨run.2, run.1, (runs.map Prod.fst).flatten, hrun, ?_, by simp⟩
        exact ends_bind_ok.mpr ⟨runs.map Prod.snd, _, [], ih.mpr ⟨runs, rfl, rfl, hruns⟩,
          ends_pure.mpr ⟨rfl, rfl⟩, by simp⟩

theorem Only.mapM {P : Q → Prop} (h : ∀ x ∈ xs, Only P (g x)) : Only P (xs.mapM g) := by
  induction xs with
  | nil => trivial
  | cons x xs ih =>
    rw [List.mapM_cons]
    refine (h x List.mem_cons_self).bind fun y => ?_
    exact (ih fun x hx => h x (List.mem_cons_of_mem _ hx)).bind fun _ => trivial

end MapM

end Gateway.Program
