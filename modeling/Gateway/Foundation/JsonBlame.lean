import Gateway.Foundation.JsonBytes
import Gateway.Foundation.JsonGrammar

/-! Which number token a scan stops at when only `parse_float` can have raised the error. -/
namespace Gateway

variable {α ε β γ : Type*} {h : JsonHooks α ε} {e : ε}

/-- The same hooks, except that one token raises what it is told to. -/
def JsonHooks.failing (h : JsonHooks α ε) (t : NumberToken) (e : ε) : JsonHooks α ε :=
  { h with float := fun u => if u = t then .error e else h.float u }

/-- An error that no other hook and no rule of the grammar raises. -/
structure JsonHooks.OnlyFloat (h : JsonHooks α ε) (e : ε) : Prop where
  integer : ∀ t, t.Valid → t.isFloat = false → h.integer t ≠ .error e
  constant : ∀ s, h.constant s ≠ .error e
  objectPairs : ∀ kvs, h.objectPairs kvs ≠ .error e
  decodeError : h.decodeError ≠ e
  recursionError : h.recursionError ≠ e

/-- A scan and the same scan with failing tokens: it passes where it passed, and where it raised
the error there is one token that decides what is raised. -/
structure Blames (h : JsonHooks α ε) (e : ε) (x : Except ε β) (y : NumberToken → ε → Except ε β) :
    Prop where
  passes : ∀ b, x = .ok b → ∀ t e', h.float t = .error e → y t e' = .ok b
  stops : x = .error e → ∃ t, h.float t = .error e ∧ ∀ e', y t e' = .error e'

theorem Blames.pure (b : β) : Blames h e (.ok b) (fun _ _ => .ok b) :=
  ⟨fun _ hb _ _ _ => hb, nofun⟩

theorem Blames.refuse {x : Except ε β} (hx : x ≠ .error e) : Blames h e x (fun _ _ => x) :=
  ⟨fun _ hb _ _ _ => hb, fun he => (hx he).elim⟩

theorem Blames.bind {x : Except ε β} {y : NumberToken → ε → Except ε β}
    {f : β → Except ε γ} {g : NumberToken → ε → β → Except ε γ} (hx : Blames h e x y)
    (hf : ∀ b, Blames h e (f b) (fun t e' => g t e' b)) :
    Blames h e (x.bind f) (fun t e' => (y t e').bind (g t e')) := by
  cases x with
  | error e₀ =>
    refine ⟨nofun, fun he => ?_⟩
    obtain ⟨t, ht, hy⟩ := hx.stops (congrArg _ (Except.error.inj he))
    exact ⟨t, ht, fun e' => by rw [hy e']; rfl⟩
  | ok b =>
    have hy : ∀ t e', h.float t = .error e → y t e' = .ok b := hx.passes b rfl
    refine ⟨fun c hc t e' ht => ?_, fun he => ?_⟩
    · rw [hy t e' ht]
      exact (hf b).passes c hc t e' ht
    · obtain ⟨t, ht, hg⟩ := (hf b).stops he
      exact ⟨t, ht, fun e' => by rw [hy t e' ht]; exact hg e'⟩

theorem Blames.float (t : NumberToken) :
    Blames h e (h.float t) (fun u e' => (h.failing u e').float t) := by
  refine ⟨fun b hb u e' hu => ?_, fun he => ⟨t, he, fun e' => if_pos rfl⟩⟩
  have hne : t ≠ u := by
    rintro rfl
    simp [hb] at hu
  exact (if_neg hne).trans hb

theorem Blames.map {x : Except ε β} {y : NumberToken → ε → Except ε β} (f : β → γ)
    (hx : Blames h e x y) : Blames h e (x.map f) (fun t e' => (y t e').map f) := by
  refine ⟨fun c hc t e' ht => ?_, fun he => ?_⟩
  · obtain ⟨b, hb, rfl⟩ := map_eq_ok.mp hc
    rw [hx.passes b hb t e' ht]
    rfl
  · cases x with
    | ok b => cases he
    | error e₀ =>
      obtain ⟨t, ht, hy⟩ := hx.stops (congrArg _ (Except.error.inj he))
      exact ⟨t, ht, fun e' => by rw [hy e']; rfl⟩

namespace JsonText

variable (ho : h.OnlyFloat e)
include ho

theorem blames_scanScalar (s : Str) :
    Blames h e (scanScalar h s) (fun t e' => scanScalar (h.failing t e') s) := by
  have hconstant : ∀ (c : Str) (r : Str), Blames h e ((h.constant c).map (·, r))
      (fun t e' => ((h.failing t e').constant c).map (·, r)) :=
    fun c r => (Blames.refuse (ho.constant c)).map _
  unfold scanScalar
  split
  · split
    · exact .pure _
    · exact .refuse fun he => ho.decodeError (Except.error.inj he)
  · split_ifs
    · exact .pure _
    · exact .pure _
    · exact .pure _
    · exact hconstant _ _
    · exact hconstant _ _
    · exact hconstant _ _
    · split
      · rename_i t r hnumber
        split_ifs with hfloat
        · exact (Blames.float _).map _
        · have hvalid := (matchNumber_sound hnumber).valid
          exact (Blames.refuse (ho.integer t hvalid (by simpa using hfloat))).map _
      · exact .refuse fun he => ho.decodeError (Except.error.inj he)

section Containers

variable {scan : Str → Except ε (α × Str)} {scan' : NumberToken → ε → Str → Except ε (α × Str)}
variable (hscan : ∀ s, Blames h e (scan s) (fun t e' => scan' t e' s))
include hscan

theorem blames_scanItems (n : ℕ) (s : Str) :
    Blames h e (scanItems h scan n s) (fun t e' => scanItems (h.failing t e') (scan' t e') n s) := by
  induction n generalizing s with
  | zero => exact .refuse fun he => ho.decodeError (Except.error.inj he)
  | succ n ih =>
    refine (hscan s).bind fun p => ?_
    obtain ⟨v, s'⟩ := p
    simp only
    split
    · exact .pure _
    · exact (ih _).bind fun p => .pure _
    · exact .refuse fun he => ho.decodeError (Except.error.inj he)

theorem blames_scanArray (s : Str) :
    Blames h e (scanArray h scan s) (fun t e' => scanArray (h.failing t e') (scan' t e') s) := by
  unfold scanArray
  split
  · exact .pure _
  · exact (blames_scanItems ho hscan _ _).bind fun p => .pure _

theorem blames_scanMembers (n : ℕ) (s : Str) :
    Blames h e (scanMembers h scan n s)
      (fun t e' => scanMembers (h.failing t e') (scan' t e') n s) := by
  induction n generalizing s with
  | zero => exact .refuse fun he => ho.decodeError (Except.error.inj he)
  | succ n ih =>
    have hrefuse : Blames h e (.error h.decodeError : Except ε (List (Str × α) × Str))
        (fun _ _ => .error h.decodeError) :=
      .refuse fun he => ho.decodeError (Except.error.inj he)
    unfold scanMembers
    split
    · exact hrefuse
    · rename_i hn
      obtain rfl := Nat.succ.inj hn
      split
      · exact hrefuse
      · split
        · refine (hscan _).bind fun p => ?_
          obtain ⟨v, s'⟩ := p
          simp only
          split
          · exact .pure _
          · exact (ih _).bind fun p => .pure _
          · exact hrefuse
        · exact hrefuse
    · exact hrefuse

theorem blames_scanObject (s : Str) :
    Blames h e (scanObject h scan s) (fun t e' => scanObject (h.failing t e') (scan' t e') s) := by
  have hfinish : ∀ (kvs : List (Str × α)) (r : Str),
      Blames h e ((h.objectPairs kvs).bind fun v => .ok (v, r))
        (fun t e' => ((h.failing t e').objectPairs kvs).bind fun v => .ok (v, r)) :=
    fun kvs r => (Blames.refuse (ho.objectPairs kvs)).bind fun v => .pure _
  unfold scanObject
  simp only
  split
  · exact hfinish _ _
  · exact (blames_scanMembers ho hscan _ _).bind fun p => hfinish _ _

end Containers

theorem blames_scanOnce (n : ℕ) (s : Str) :
    Blames h e (scanOnce h n s) (fun t e' => scanOnce (h.failing t e') n s) := by
  induction n generalizing s with
  | zero =>
    unfold scanOnce
    split
    · exact .refuse fun he => ho.recursionError (Except.error.inj he)
    · exact .refuse fun he => ho.recursionError (Except.error.inj he)
    · exact blames_scanScalar ho _
  | succ n ih =>
    unfold scanOnce
    split
    · exact blames_scanArray ho ih _
    · exact blames_scanObject ho ih _
    · exact blames_scanScalar ho _

theorem blames_decode (n : ℕ) (s : Str) :
    Blames h e (decode h n s) (fun t e' => decode (h.failing t e') n s) := by
  refine (blames_scanOnce ho n _).bind fun p => ?_
  obtain ⟨v, r⟩ := p
  simp only
  split_ifs
  · exact .pure _
  · exact .refuse fun he => ho.decodeError (Except.error.inj he)

end JsonText

theorem blames_jsonLoads (ho : h.OnlyFloat e) {unicodeError : ε} (hu : unicodeError ≠ e) (n : ℕ)
    (b : Bytes) : Blames h e (jsonLoads h unicodeError n b)
      (fun t e' => jsonLoads (h.failing t e') unicodeError n b) := by
  unfold jsonLoads
  split
  · exact .refuse fun he => hu (Except.error.inj he)
  · exact JsonText.blames_decode ho n _

end Gateway
