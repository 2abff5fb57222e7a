import Gateway.Foundation.JsonText

/-! Loops that stop at the first error: what they have read when they end. -/
namespace Gateway

variable {α β σ ε : Type*}

/-- A reader mapped over a list reads every element, in order. -/
theorem mapM_eq_ok {f : α → Except ε β} {xs : List α} {ys : List β} :
    xs.mapM f = .ok ys ↔ List.Forall₂ (fun x y => f x = .ok y) xs ys := by
  induction xs generalizing ys with
  | nil =>
    rw [List.mapM_nil, List.forall₂_nil_left_iff]
    constructor
    · intro h
      exact (Except.ok.inj h).symm
    · rintro rfl
      rfl
  | cons x xs ih =>
    rw [List.mapM_cons, List.forall₂_cons_left_iff]
    constructor
    · intro h
      obtain ⟨y, hy, h⟩ := bind_eq_ok.mp h
      obtain ⟨zs, hzs, h⟩ := bind_eq_ok.mp h
      exact ⟨y, zs, hy, ih.mp hzs, (Except.ok.inj h).symm⟩
    · rintro ⟨y, zs, hy, hzs, rfl⟩
      exact bind_eq_ok.mpr ⟨y, hy, bind_eq_ok.mpr ⟨zs, ih.mpr hzs, rfl⟩⟩

/-- What a loop reads of each element, put into its state one after the other. -/
theorem foldlM_eq_ok {read : α → Except ε β} {add : σ → β → Except ε σ} {xs : List α} {s t : σ} :
    xs.foldlM (fun s x => (read x).bind (add s)) s = .ok t ↔
      ∃ ys, List.Forall₂ (fun x y => read x = .ok y) xs ys ∧ ys.foldlM add s = .ok t := by
  induction xs generalizing s with
  | nil => simp [List.forall₂_nil_left_iff]
  | cons x xs ih =>
    rw [List.foldlM_cons]
    constructor
    · intro h
      obtain ⟨u, hu, h⟩ := bind_eq_ok.mp h
      obtain ⟨y, hy, hadd⟩ := bind_eq_ok.mp hu
      obtain ⟨ys, hread, hys⟩ := ih.mp h
      exact ⟨y :: ys, .cons hy hread, bind_eq_ok.mpr ⟨u, hadd, hys⟩⟩
    · rintro ⟨ys, hread, hys⟩
      cases hread with
      | cons hy hread =>
        rename_i y ys
        obtain ⟨u, hadd, hys⟩ := bind_eq_ok.mp hys
        exact bind_eq_ok.mpr ⟨u, bind_eq_ok.mpr ⟨y, hy, hadd⟩, ih.mpr ⟨ys, hread, hys⟩⟩

theorem forall₂_and_right {R : α → β → Prop} {P : β → Prop} {xs : List α} {ys : List β} :
    List.Forall₂ (fun x y => R x y ∧ P y) xs ys ↔ List.Forall₂ R xs ys ∧ ∀ y ∈ ys, P y := by
  induction xs generalizing ys with
  | nil =>
    rw [List.forall₂_nil_left_iff, List.forall₂_nil_left_iff]
    constructor
    · rintro rfl
      simp
    · exact fun h => h.1
  | cons x xs ih =>
    cases ys with
    | nil => simp
    | cons y ys =>
      simp only [List.forall₂_cons, ih, List.forall_mem_cons]
      tauto

/-- What each element is read as, when that is the image of something else. -/
theorem forall₂_map_exists {R : α → σ → Prop} {f : σ → β} {xs : List α} {ys : List β} :
    List.Forall₂ (fun x y => ∃ z, R x z ∧ y = f z) xs ys ↔
      ∃ zs, List.Forall₂ R xs zs ∧ ys = zs.map f := by
  induction xs generalizing ys with
  | nil => simp [List.forall₂_nil_left_iff]
  | cons x xs ih =>
    simp only [List.forall₂_cons_left_iff, ih]
    constructor
    · rintro ⟨_, _, ⟨z, hz, rfl⟩, ⟨zs, hzs, rfl⟩, rfl⟩
      exact ⟨z :: zs, ⟨z, zs, hz, hzs, rfl⟩, rfl⟩
    · rintro ⟨_, ⟨z, zs, hz, hzs, rfl⟩, rfl⟩
      exact ⟨f z, zs.map f, ⟨z, hz, rfl⟩, ⟨zs, hzs, rfl⟩, rfl⟩

end Gateway
