import Mathlib

/-! Programs that ask their environment: their runs, and what sequencing and handlers run. -/
namespace Gateway

/-- A program that asks queries and ends with a value or an exception. -/
inductive Program (Q : Type) (A : Q → Type) (ε α : Type) where
  | done (result : Except ε α)
  | ask (query : Q) (next : A query → Program Q A ε α)

namespace Program

variable {Q : Type} {A : Q → Type} {ε α β : Type}

/-- A query with the answer it got. -/
abbrev Trace (A : Q → Type) := List (Σ query, A query)

/-- What follows a program that has a value; an exception passes it by. -/
def andThen : Program Q A ε α → (α → Program Q A ε β) → Program Q A ε β
  | .done (.ok a), f => f a
  | .done (.error e), _ => .done (.error e)
  | .ask query next, f => .ask query (fun answer => (next answer).andThen f)

instance : Monad (Program Q A ε) where
  pure a := .done (.ok a)
  bind := andThen

def throw (e : ε) : Program Q A ε α := .done (.error e)

/-- `except`: the handler takes over where the program raises. -/
def handle : Program Q A ε α → (ε → Program Q A ε α) → Program Q A ε α
  | .done (.ok a), _ => .done (.ok a)
  | .done (.error e), h => h e
  | .ask query next, h => .ask query (fun answer => (next answer).handle h)

/-- The outcome as a value: `attempt` itself never raises. -/
def attempt : Program Q A ε α → Program Q A ε (Except ε α)
  | .done r => .done (.ok r)
  | .ask query next => .ask query (fun answer => (next answer).attempt)

/-- The runs of a program: every answer is possible at every query. -/
inductive Ends : Program Q A ε α → Trace A → Except ε α → Prop
  | done (r : Except ε α) : Ends (.done r) [] r
  | ask {query : Q} {next : A query → Program Q A ε α} (answer : A query) {trace : Trace A}
      {r : Except ε α} (h : Ends (next answer) trace r) :
      Ends (.ask query next) (⟨query, answer⟩ :: trace) r

/-- Every query the program may come to ask is one of these. -/
def Only (P : Q → Prop) : Program Q A ε α → Prop
  | .done _ => True
  | .ask query next => P query ∧ ∀ answer, Only P (next answer)

/-- The run against an environment that answers each query in its own way. -/
def run (answer : ∀ query, A query) : Program Q A ε α → Trace A × Except ε α
  | .done r => ([], r)
  | .ask query next =>
    let (trace, r) := (next (answer query)).run answer
    (⟨query, answer query⟩ :: trace, r)

variable {p : Program Q A ε α} {f : α → Program Q A ε β} {trace : Trace A} {r : Except ε α}

@[simp] theorem ends_done {r' : Except ε α} :
    Ends (Program.done r' : Program Q A ε α) trace r ↔ trace = [] ∧ r = r' := by
  constructor
  · rintro ⟨⟩
    exact ⟨rfl, rfl⟩
  · rintro ⟨rfl, rfl⟩
    exact .done _

@[simp] theorem ends_pure {a : α} :
    Ends (pure a : Program Q A ε α) trace r ↔ trace = [] ∧ r = .ok a := ends_done

@[simp] theorem ends_throw {e : ε} :
    Ends (throw e : Program Q A ε α) trace r ↔ trace = [] ∧ r = .error e := ends_done

@[simp] theorem ends_ask {query : Q} {next : A query → Program Q A ε α} :
    Ends (.ask query next) trace r ↔
      ∃ answer rest, trace = ⟨query, answer⟩ :: rest ∧ Ends (next answer) rest r := by
  constructor
  · rintro ⟨⟩
    exact ⟨_, _, rfl, by assumption⟩
  · rintro ⟨answer, rest, rfl, h⟩
    exact .ask answer h

/-- A run of a sequence is a run of its first part, and unless that raises one of the second. -/
theorem ends_bind {r : Except ε β} :
    Ends (p >>= f) trace r ↔
      (∃ e, Ends p trace (.error e) ∧ r = .error e) ∨
      ∃ a first second, Ends p first (.ok a) ∧ Ends (f a) second r ∧ trace = first ++ second := by
  change Ends (p.andThen f) trace r ↔ _
  induction p generalizing trace with
  | done r' => cases r' <;> simp [andThen]
  | ask query next ih =>
    simp only [andThen, ends_ask, ih]
    constructor
    · rintro ⟨answer, rest, rfl, ⟨e, h, rfl⟩ | ⟨a, first, second, h, hf, rfl⟩⟩
      · exact .inl ⟨e, ⟨answer, rest, rfl, h⟩, rfl⟩
      · exact .inr ⟨a, _, second, ⟨answer, first, rfl, h⟩, hf, rfl⟩
    · rintro (⟨e, ⟨answer, rest, rfl, h⟩, rfl⟩ | ⟨a, -, second, ⟨answer, rest, rfl, h⟩, hf, rfl⟩)
      · exact ⟨answer, rest, rfl, .inl ⟨e, h, rfl⟩⟩
      · exact ⟨answer, rest ++ second, rfl, .inr ⟨a, rest, second, h, hf, rfl⟩⟩

/-- A sequence that ends with a value: so did its first part. -/
theorem ends_bind_ok {b : β} :
    Ends (p >>= f) trace (.ok b) ↔ ∃ a first second, Ends p first (.ok a) ∧
      Ends (f a) second (.ok b) ∧ trace = first ++ second := by
  rw [ends_bind]
  constructor
  · rintro (⟨e, -, he⟩ | h)
    · cases he
    · exact h
  · exact .inr

@[simp] theorem ends_attempt {r : Except ε (Except ε α)} :
    Ends p.attempt trace r ↔ ∃ r', Ends p trace r' ∧ r = .ok r' := by
  induction p generalizing trace with
  | done r' => simp [attempt]
  | ask query next ih =>
    simp only [attempt, ends_ask, ih]
    constructor
    · rintro ⟨answer, rest, rfl, r', h, rfl⟩
      exact ⟨r', ⟨answer, rest, rfl, h⟩, rfl⟩
    · rintro ⟨r', ⟨answer, rest, rfl, h⟩, rfl⟩
      exact ⟨answer, rest, rfl, r', h, rfl⟩

/-- What follows an attempt is given its outcome, a value or an exception. -/
theorem ends_attempt_bind {g : Except ε α → Program Q A ε β} {r : Except ε β} :
    Ends (p.attempt >>= g) trace r ↔
      ∃ r' first second, Ends p first r' ∧ Ends (g r') second r ∧ trace = first ++ second := by
  rw [ends_bind]
  constructor
  · rintro (⟨e, h, -⟩ | ⟨a, first, second, h, hg, rfl⟩)
    · obtain ⟨r', -, he⟩ := ends_attempt.mp h
      cases he
    · obtain ⟨r', hp, ha⟩ := ends_attempt.mp h
      obtain rfl := Except.ok.inj ha
      exact ⟨_, first, second, hp, hg, rfl⟩
  · rintro ⟨r', first, second, hp, hg, rfl⟩
    exact .inr ⟨r', first, second, ends_attempt.mpr ⟨r', hp, rfl⟩, hg, rfl⟩

/-- One trace, one outcome. -/
theorem Ends.functional {r' : Except ε α} (h : Ends p trace r) (h' : Ends p trace r') : r = r' := by
  induction h with
  | done r => exact (ends_done.mp h').2.symm
  | ask answer _ ih =>
    obtain ⟨answer', rest, he, hrest⟩ := ends_ask.mp h'
    obtain ⟨hanswer, rfl⟩ := List.cons.inj he
    obtain rfl := eq_of_heq (Sigma.mk.inj hanswer).2
    exact ih hrest

/-- A run with a handler is a run without, and where that raises one of the handler. -/
theorem ends_handle {h : ε → Program Q A ε α} :
    Ends (p.handle h) trace r ↔
      (∃ a, Ends p trace (.ok a) ∧ r = .ok a) ∨
      ∃ e first second, Ends p first (.error e) ∧ Ends (h e) second r ∧
        trace = first ++ second := by
  induction p generalizing trace with
  | done r' => cases r' <;> simp [handle]
  | ask query next ih =>
    simp only [handle, ends_ask, ih]
    constructor
    · rintro ⟨answer, rest, rfl, ⟨a, hr, rfl⟩ | ⟨e, first, second, hr, hh, rfl⟩⟩
      · exact .inl ⟨a, ⟨answer, rest, rfl, hr⟩, rfl⟩
      · exact .inr ⟨e, _, second, ⟨answer, first, rfl, hr⟩, hh, rfl⟩
    · rintro (⟨a, ⟨answer, rest, rfl, hr⟩, rfl⟩ | ⟨e, -, second, ⟨answer, rest, rfl, hr⟩, hh, rfl⟩)
      · exact ⟨answer, rest, rfl, .inl ⟨a, hr, rfl⟩⟩
      · exact ⟨answer, rest ++ second, rfl, .inr ⟨e, rest, second, hr, hh, rfl⟩⟩

section Only

variable {P : Q → Prop}

theorem Only.bind (hp : Only P p) (hf : ∀ a, Only P (f a)) : Only P (p >>= f) := by
  change Only P (p.andThen f)
  induction p with
  | done r =>
    cases r with
    | ok a => exact hf a
    | error e => trivial
  | ask query next ih => exact ⟨hp.1, fun answer => ih answer (hp.2 answer)⟩

theorem Only.handle {h : ε → Program Q A ε α} (hp : Only P p) (hh : ∀ e, Only P (h e)) :
    Only P (p.handle h) := by
  induction p with
  | done r =>
    cases r with
    | ok a => trivial
    | error e => exact hh e
  | ask query next ih => exact ⟨hp.1, fun answer => ih answer (hp.2 answer)⟩

theorem Only.attempt (hp : Only P p) : Only P p.attempt := by
  induction p with
  | done r => trivial
  | ask query next ih => exact ⟨hp.1, fun answer => ih answer (hp.2 answer)⟩

theorem Only.mem (hp : Only P p) (h : Ends p trace r) : ∀ x ∈ trace, P x.1 := by
  induction h with
  | done r => simp
  | ask answer _ ih => exact List.forall_mem_cons.mpr ⟨hp.1, ih (hp.2 answer)⟩

end Only

/-- How the run ends. -/
def result (answer : ∀ query, A query) (p : Program Q A ε α) : Except ε α := (p.run answer).2

section Result

variable {answer : ∀ query, A query}

@[simp] theorem result_done : (Program.done r : Program Q A ε α).result answer = r := rfl

@[simp] theorem result_pure {a : α} : (pure a : Program Q A ε α).result answer = .ok a := rfl

@[simp] theorem result_throw {e : ε} : (throw e : Program Q A ε α).result answer = .error e := rfl

@[simp] theorem result_ask {query : Q} {next : A query → Program Q A ε α} :
    (Program.ask query next).result answer = (next (answer query)).result answer := rfl

@[simp] theorem result_bind :
    (p >>= f).result answer = p.result answer >>= fun a => (f a).result answer := by
  change (p.andThen f).result answer = _
  induction p with
  | done r => cases r <;> rfl
  | ask query next ih => exact ih (answer query)

theorem result_bind_ok {a : α} (h : p.result answer = .ok a) :
    (p >>= f).result answer = (f a).result answer := by
  rw [result_bind, h]
  rfl

theorem result_bind_error {e : ε} (h : p.result answer = .error e) :
    (p >>= f).result answer = .error e := by
  rw [result_bind, h]
  rfl

end Result

/-- Whatever the environment answers, the program ends. -/
theorem ends_run (answer : ∀ query, A query) (p : Program Q A ε α) :
    Ends p (p.run answer).1 (p.run answer).2 := by
  induction p with
  | done r => exact .done r
  | ask query next ih => exact .ask _ (ih (answer query))

end Program

end Gateway
