import Gateway.Store.Statements

/-! The row invariant, and the one way a row's state can move. -/
namespace Gateway

open Relation (ReflTransGen)
open Transition (Run Reachable)

/-- Which columns each state fills. -/
structure RowInvariant (row : Row) : Prop where
  nonce : row.outputNonce.isSome ↔ row.state = .completed
  ciphertext : row.outputCiphertext.isSome ↔ row.state = .completed
  mediaType : row.outputMediaType.isSome ↔ row.state = .completed
  provenance : row.state = .completed ∨ row.state = .acknowledged →
    row.producingDeploymentId.isSome ∧ row.producingTaskPolicyVersion.isSome
  disposition : row.acknowledgementDisposition.isSome ↔ row.state = .acknowledged
  acknowledgedAt : row.acknowledgedAt.isSome ↔ row.state = .acknowledged
  attempted : row.state ∈ [.inProgress, .completed, .failed, .ambiguous] → row.attemptId.isSome
  unattempted : row.state = .reserved → row.attemptId = none
  failure : row.state = .failed → row.errorCode.isSome ∧ row.errorRetryable.isSome

/-- The moves of the lifecycle. -/
inductive StateEdge : RequestState → RequestState → Prop
  | dispatch : StateEdge .reserved .inProgress
  | release : StateEdge .inProgress .reserved
  | complete : StateEdge .inProgress .completed
  | fail : StateEdge .inProgress .failed
  | interrupt : StateEdge .inProgress .ambiguous
  | acknowledge : StateEdge .completed .acknowledged
  | expire {state : RequestState} (ha : state ≠ .acknowledged) (he : state ≠ .expired) :
      StateEdge state .expired

/-- What the request was admitted as; nothing rewrites these columns. -/
structure SameIdentity (row row' : Row) : Prop where
  requestId : row.requestId = row'.requestId
  credentialHash : row.credentialHash = row'.credentialHash
  requestDigest : row.requestDigest = row'.requestDigest
  taskId : row.taskId = row'.taskId
  taskVersion : row.taskVersion = row'.taskVersion
  expiresAt : row.expiresAt = row'.expiresAt

theorem SameIdentity.refl (row : Row) : SameIdentity row row := ⟨rfl, rfl, rfl, rfl, rfl, rfl⟩

theorem SameIdentity.symm {row row' : Row} (h : SameIdentity row row') : SameIdentity row' row :=
  ⟨h.1.symm, h.2.symm, h.3.symm, h.4.symm, h.5.symm, h.6.symm⟩

theorem SameIdentity.trans {row row' row'' : Row} (h : SameIdentity row row')
    (h' : SameIdentity row' row'') : SameIdentity row row'' :=
  ⟨h.1.trans h'.1, h.2.trans h'.2, h.3.trans h'.3, h.4.trans h'.4, h.5.trans h'.5, h.6.trans h'.6⟩

/-- What one statement can do to the row under one key. -/
inductive KeyStep : Option Row → Option Row → Prop
  | created {row : Row} (h : row.state = .reserved) : KeyStep none (some row)
  | moved {row row' : Row} (hid : SameIdentity row row') (he : StateEdge row.state row'.state) :
      KeyStep (some row) (some row')
  | deleted {row : Row} (h : row.state = .acknowledged ∨ row.state = .expired) :
      KeyStep (some row) none

variable {settings : StoreSettings} {cipher : Cipher} {now : Datetime} {t t' : Table}
variable {row row' : Row} {k : Str} {admits : InferenceRequest → Prop}

theorem isClosed_iff : row.isClosed = true ↔ row.state = .acknowledged ∨ row.state = .expired := by
  simp [Row.isClosed]

theorem rowEdge_identity (h : RowEdge now row row') : SameIdentity row row' := by
  cases h <;> exact ⟨rfl, rfl, rfl, rfl, rfl, rfl⟩

theorem rowEdge_state (h : RowEdge now row row') : StateEdge row.state row'.state := by
  cases h with
  | expire h =>
    have hopen := (Bool.eq_false_iff.mp h) ∘ isClosed_iff.mpr
    exact .expire (fun he => hopen (.inl he)) (fun he => hopen (.inr he))
  | interrupt h => exact h ▸ .interrupt
  | mark attemptId h => exact h ▸ .dispatch
  | reset h => exact h ▸ .release
  | fail code retryable retryAfter h => exact h ▸ .fail
  | complete mediaType deploymentId nonce ciphertext taskPolicyVersion h => exact h ▸ .complete
  | acknowledge disposition h => exact h ▸ .acknowledge

/-- Each update restores the relation between the state and its columns. -/
theorem rowEdge_invariant (h : RowEdge now row row') (hi : RowInvariant row) : RowInvariant row' := by
  obtain ⟨hnonce, hciphertext, hmedia, hprov, hdisp, hack, hatt, hun, hfail⟩ := hi
  cases h with
  | expire h =>
    have hopen : row.state ≠ .acknowledged := fun he => by simp [Row.isClosed, he] at h
    constructor <;> simp_all [Row.expire]
  | _ => constructor <;> simp_all [Row.acknowledge]

theorem reservedRow_invariant (request : InferenceRequest) (credentialHash requestDigest : Str)
    (now : Datetime) : RowInvariant (reservedRow request credentialHash requestDigest now) := by
  constructor <;> simp [reservedRow]

theorem mem_update {p : Row → Bool} {f : Row → Row} {hf : ∀ row, (f row).requestId = row.requestId}
    (h : row ∈ (t.update p f hf).rows) : (∃ r ∈ t.rows, p r = true ∧ row = f r) ∨ row ∈ t.rows := by
  obtain ⟨r, hr, rfl⟩ := List.mem_map.mp h
  by_cases hp : p r = true
  · exact .inl ⟨r, hr, hp, if_pos hp⟩
  · exact .inr (by rwa [if_neg hp])

theorem statement_invariant (h : Statement settings now admits t t')
    (hi : ∀ row ∈ t.rows, RowInvariant row) : ∀ row ∈ t'.rows, RowInvariant row := by
  intro row hrow
  cases h with
  | update hedge =>
    rcases mem_update hrow with ⟨r, hr, hp, rfl⟩ | hr
    · exact rowEdge_invariant (hedge r hp) (hi r hr)
    · exact hi row hr
  | delete _ _ => exact hi row (List.mem_filter.mp hrow).1
  | insert _ _ _ _ _ =>
    rcases List.mem_cons.mp hrow with rfl | hr
    · exact reservedRow_invariant _ _ _ _
    · exact hi row hr

theorem statements_invariant (h : Statements settings now admits t t')
    (hi : ∀ row ∈ t.rows, RowInvariant row) : ∀ row ∈ t'.rows, RowInvariant row := by
  induction h with
  | refl => exact hi
  | tail _ hstep ih => exact statement_invariant hstep ih

theorem select_reserved {request : InferenceRequest} {credentialHash requestDigest : Str}
    (h : t.select request.requestId = none) :
    (t.insert (reservedRow request credentialHash requestDigest now) h).select k =
      if request.requestId = k then some (reservedRow request credentialHash requestDigest now)
      else t.select k :=
  KeyedTable.select_insert (r := reservedRow request credentialHash requestDigest now) h

theorem statement_key (h : Statement settings now admits t t') (k : Str) :
    t.select k = t'.select k ∨ KeyStep (t.select k) (t'.select k) := by
  cases h with
  | update hedge =>
    rw [KeyedTable.select_update]
    cases hs : t.select k with
    | none => exact .inl rfl
    | some row =>
      rw [Option.map_some]
      split_ifs with hp
      · exact .inr (.moved (rowEdge_identity (hedge row hp)) (rowEdge_state (hedge row hp)))
      · exact .inl rfl
  | delete _ hclosed =>
    rename_i p _ _
    rw [KeyedTable.select_delete]
    cases hs : t.select k with
    | none => exact .inl rfl
    | some row =>
      cases hp : p row with
      | false => exact .inl (by simp [Option.filter, hp])
      | true =>
        simp only [Option.filter, hp, Bool.not_true]
        exact .inr (.deleted (isClosed_iff.mp (hclosed row hp).1))
  | insert hnone _ _ _ _ =>
    rw [select_reserved hnone]
    split_ifs with hk
    · rw [← hk, hnone]
      exact .inr (.created rfl)
    · exact .inl rfl

/-! Over whole runs, each call under any settings and any key. -/

/-- A step of some store on the file. -/
def AnyStoreStep (db : Database) (call : StoreSettings × Cipher × StoreCall) (db' : Database) :
    Prop :=
  StoreStep call.1 call.2.1 db call.2.2 db'

/-- A closed row stays as it is until it is deleted. -/
theorem keyStep_closed (hc : row.isClosed = true) {o : Option Row} (h : KeyStep (some row) o) :
    o = none := by
  rw [isClosed_iff] at hc
  cases h with
  | moved hid he =>
    rename_i row'
    generalize hs' : row'.state = s' at he
    generalize hs : row.state = s at he hc
    cases he <;> simp_all
  | deleted h => rfl

theorem reachable_rowInvariant {db : Database} (h : Reachable (· = Database.empty) AnyStoreStep db) :
    ∀ row ∈ db.requests.rows, RowInvariant row := by
  refine Transition.reachable_invariant (P := fun db => ∀ row ∈ db.requests.rows, RowInvariant row)
    ?_ ?_ h
  · rintro db rfl row hrow
    simp [Database.empty, KeyedTable.empty] at hrow
  · intro db call db' hstep hi
    exact statements_invariant (statements_step hstep) hi

end Gateway
