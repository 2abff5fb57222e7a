import Mathlib

/-! Logs of what is opened and closed under a key: nothing is opened again while it is open. -/
namespace Gateway.Openings

/-- One line of the log; `a` tells the openings of one key apart. -/
inductive Entry (κ α : Type*) where
  | opened (k : κ) (a : α)
  | closed (k : κ) (a : α)
deriving DecidableEq

variable {κ α : Type*} {l : List (Entry κ α)} {x : Entry κ α} {k : κ} {a b : α}

/-- Opened and not closed since. -/
def Pending (l : List (Entry κ α)) (k : κ) (a : α) : Prop :=
  ∃ before after, l = before ++ .opened k a :: after ∧ .closed k a ∉ after

/-- Whenever a key is opened, no earlier opening of it is pending. -/
def Exclusive (l : List (Entry κ α)) : Prop :=
  ∀ before k a after, l = before ++ .opened k a :: after → ∀ b, ¬ Pending before k b

theorem not_pending_nil : ¬ Pending ([] : List (Entry κ α)) k a := by
  rintro ⟨before, after, h, -⟩
  simp at h

/-- What is pending after a line was opened by it, or was pending and is not closed by it. -/
theorem pending_snoc (h : Pending (l ++ [x]) k a) :
    x = .opened k a ∨ Pending l k a ∧ x ≠ .closed k a := by
  obtain ⟨before, after, hl, hnot⟩ := h
  rcases List.eq_nil_or_concat after with rfl | ⟨rest, y, rfl⟩
  · obtain ⟨-, hx⟩ := List.append_inj' hl rfl
    exact .inl (List.singleton_inj.mp hx)
  · have hsplit : l ++ [x] = (before ++ .opened k a :: rest) ++ [y] := by simpa using hl
    obtain ⟨rfl, hx⟩ := List.append_inj' hsplit rfl
    obtain rfl := List.singleton_inj.mp hx
    simp only [List.concat_eq_append, List.mem_append, List.mem_singleton, not_or] at hnot
    exact .inr ⟨⟨before, rest, rfl, hnot.1⟩, fun he => hnot.2 he.symm⟩

theorem exclusive_nil : Exclusive ([] : List (Entry κ α)) := by
  intro before k a after h
  simp at h

/-- A log stays exclusive when its next line opens no key that is pending. -/
theorem exclusive_snoc (h : Exclusive l) (hx : ∀ k a, x = .opened k a → ∀ b, ¬ Pending l k b) :
    Exclusive (l ++ [x]) := by
  intro before k a after hl
  rcases List.eq_nil_or_concat after with rfl | ⟨rest, y, rfl⟩
  · obtain ⟨rfl, he⟩ := List.append_inj' hl rfl
    exact hx k a (List.singleton_inj.mp he)
  · have hsplit : l ++ [x] = (before ++ .opened k a :: rest) ++ [y] := by simpa using hl
    obtain ⟨hl', -⟩ := List.append_inj' hsplit rfl
    exact h before k a rest hl'

/-- Between two openings of a key the first is closed. -/
theorem Exclusive.closed_between (h : Exclusive l) {before between after : List (Entry κ α)}
    (hl : l = before ++ .opened k b :: (between ++ .opened k a :: after)) :
    .closed k b ∈ between := by
  by_contra hnot
  refine h (before ++ .opened k b :: between) k a after ?_ b ⟨before, between, rfl, hnot⟩
  simpa using hl

end Gateway.Openings
