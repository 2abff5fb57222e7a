import Gateway.Service.Policy
import Gateway.Store.Answers

/-! Acknowledgements: one disposition, repeats that agree with it, and no output ever after. -/
namespace Gateway

open Transition (Run Reachable)

variable {settings : StoreSettings} {cipher : Cipher} {now : Datetime} {t t₁ t' : Table} {row : Row}
variable {credentialHash requestDigest disposition k : Str} {db db' : Database}

/-- The body of an acknowledged response. -/
structure AcknowledgementResponse where
  requestId : Str
  disposition : Option Str
deriving DecidableEq

/-- What the service raises when the store does. -/
def acknowledgeFailure : Raised → Escape
  | .requestForbidden => .failure ⟨str "forbidden", false, 403, none⟩
  | .requestUnknown => .failure ⟨str "unknown_request", false, 404, none⟩
  | .requestExpired => .failure ⟨str "request_expired", false, 409, none⟩
  | .requestNotTerminal _ => .failure ⟨str "result_not_terminal", false, 409, none⟩
  | .acknowledgementConflict => .failure ⟨str "acknowledgement_conflict", false, 409, none⟩
  | e => .raised e

/-- `GatewayService.acknowledge`. -/
def acknowledgeRequest (settings : StoreSettings) (credential : Credential)
    (requestId disposition : Str) (now : Datetime) (db : Database) :
    Except Escape AcknowledgementResponse × Database :=
  match transaction (acknowledge settings now requestId credential.identityHash disposition) db with
  | (.error e, db) => (.error (acknowledgeFailure e), db)
  | (.ok record, db) => (.ok ⟨record.requestId, record.acknowledgementDisposition⟩, db)

/-! A row that exists throughout. -/

/-- The cleanup of the call, if it commits one, leaves the row. -/
def Spares (k : Str) (db : Database) (call : StoreSettings × Cipher × StoreCall) : Prop :=
  call.2.2.cleans = true → (call.2.2.run call.1 call.2.1 db).1 = .ok () →
    ∀ t', cleanup call.1 call.2.2.now db.requests = .ok t' → (t'.select k).isSome

/-- A step of some store that does not delete the row of a request. -/
structure KeepingStep (k : Str) (db : Database) (call : StoreSettings × Cipher × StoreCall)
    (db' : Database) : Prop where
  step : AnyStoreStep db call db'
  spares : db' = db ∨ Spares k db call

/-- No column of the output is filled. -/
def Erased (row : Row) : Prop :=
  row.outputNonce = none ∧ row.outputCiphertext = none ∧ row.outputMediaType = none

/-- A cleanup leaves a closed row as it is, or deletes it. -/
theorem cleanup_closed (h : cleanup settings now t = .ok t₁) (hrow : t.select k = some row)
    (hclosed : row.isClosed = true) : t₁.select k = none ∨ t₁.select k = some row := by
  rcases cleanup_select h k with hnone | ⟨r, hr, hr'⟩
  · exact .inl hnone
  · obtain rfl := Option.some.inj (hrow.symm.trans hr)
    simp only [hclosed, Bool.not_true, Bool.false_and, Bool.false_eq_true, if_false] at hr'
    exact .inr hr'

theorem cleanup_young (h : cleanup settings now t = .ok t₁) (hrow : t.select k = some row)
    (hclosed : row.isClosed = true) (hkept : (t₁.select k).isSome) : Young settings now row := by
  obtain ⟨cutoff, hcutoff, rfl⟩ := cleanup_eq_ok.mp h
  intro cutoff' hcutoff' hold
  obtain rfl := Option.some.inj (hcutoff.symm.trans hcutoff')
  rw [select_purge, select_expireDue, hrow] at hkept
  simp [hclosed, hold, Option.filter] at hkept

theorem young_of_spares {call : StoreSettings × Cipher × StoreCall} (h : Spares k db call)
    (hc : call.2.2.cleans = true) (hok : (call.2.2.run call.1 call.2.1 db).1 = .ok ())
    (hrow : db.requests.select k = some row) (hclosed : row.isClosed = true) :
    Young call.1 call.2.2.now row := by
  intro cutoff hcutoff
  have hclean : cleanup call.1 call.2.2.now db.requests =
      .ok (purge cutoff (expireDue call.2.2.now db.requests)) :=
    cleanup_eq_ok.mpr ⟨cutoff, hcutoff, rfl⟩
  exact cleanup_young hclean hrow hclosed (h hc hok _ hclean) cutoff hcutoff

/-- The calls without a cleanup change a row in progress only. -/
theorem run_unclean {call : StoreCall} (hc : call.cleans = false)
    (hrow : db.requests.select k = some row) (hclosed : row.isClosed = true) :
    (call.run settings cipher db).2.requests.select k = some row := by
  have hkept : ∀ {requestId attemptId : Str} (f : Row → Row) (hf : ∀ r, (f r).requestId = r.requestId),
      (updateAttempt requestId attemptId f hf db.requests).select k = some row := by
    intro requestId attemptId f hf
    have hstate : row.state ≠ .inProgress := fun hs => by simp [Row.isClosed, hs] at hclosed
    rw [select_updateAttempt]
    split_ifs with hk
    · rw [← hk, hrow]
      simp [hstate]
    · exact hrow
  have hbody : ∀ {requestId attemptId : Str} (f : Row → Row)
      (hf : ∀ r, (f r).requestId = r.requestId) (body : Table → Except Raised (Unit × Table)),
      body db.requests = .ok ((), updateAttempt requestId attemptId f hf db.requests) →
      (outcome body db).2.requests.select k = some row := by
    intro requestId attemptId f hf body hbody
    rcases outcome_requests body db with hsame | ⟨a, hok⟩
    · rw [hsame]
      exact hrow
    · obtain ⟨-, he⟩ := Prod.mk.inj (Except.ok.inj (hbody.symm.trans hok))
      rw [← he]
      exact hkept f hf
  cases call with
  | resetReserved requestId attemptId now => exact hbody _ _ _ rfl
  | markAmbiguous requestId attemptId now => exact hbody _ _ _ rfl
  | markFailed requestId attemptId code retryable retryAfterSeconds now => exact hbody _ _ _ rfl
  | _ => simp [StoreCall.cleans] at hc

/-- While it exists, a closed row stays as it is. -/
theorem keepingStep_closed {call : StoreSettings × Cipher × StoreCall} (h : KeepingStep k db call db')
    (hclosed : row.isClosed = true) (hrow : db.requests.select k = some row) :
    db'.requests.select k = some row := by
  have hsame : db' = db → db'.requests.select k = some row := fun he => he ▸ hrow
  rcases h.spares with he | hspares
  · exact hsame he
  · rcases h.step with hrun | he
    · rw [hrun]
      cases hc : call.2.2.cleans with
      | false => exact run_unclean hc hrow hclosed
      | true =>
        cases hok : (call.2.2.run call.1 call.2.1 db).1 with
        | error e =>
          rw [run_error hok]
          exact hrow
        | ok u =>
          exact statements_young (statements_run call.2.2 db) hclosed
            (young_of_spares hspares hc hok hrow hclosed) hrow
    · exact hsame he

theorem keepingRun_closed {calls : List (StoreSettings × Cipher × StoreCall)}
    (h : Run (KeepingStep k) db calls db') (hclosed : row.isClosed = true)
    (hrow : db.requests.select k = some row) : db'.requests.select k = some row :=
  h.invariant (P := fun db => db.requests.select k = some row)
    (fun _ _ _ hstep hrow => keepingStep_closed hstep hclosed hrow) hrow

/-! What each transaction makes of it. -/

/-- An acknowledgement succeeds for the owner of a completed row, or with the recorded disposition. -/
theorem acknowledge_iff (hclean : cleanup settings now t = .ok t₁) :
    (∃ record t', acknowledge settings now k credentialHash disposition t = .ok (record, t')) ↔
      ∃ row, t₁.select k = some row ∧ row.credentialHash = credentialHash ∧
        (row.state = .completed ∨
          row.state = .acknowledged ∧ row.acknowledgementDisposition = some disposition) := by
  constructor
  · rintro ⟨record, t', h⟩
    obtain ⟨row, hrow, howner, ⟨hstate, -⟩ | ⟨hstate, hdisposition, -⟩⟩ := acknowledge_ok hclean h
    · exact ⟨row, hrow, howner, .inl hstate⟩
    · exact ⟨row, hrow, howner, .inr ⟨hstate, hdisposition⟩⟩
  · rintro ⟨row, hrow, howner, hstate | ⟨hstate, hdisposition⟩⟩
    · obtain ⟨t', h, -⟩ := @acknowledge_completed _ _ _ _ _ _ _ hclean disposition hrow howner hstate
      exact ⟨_, t', h⟩
    · exact ⟨_, t₁, acknowledge_repeated hclean hrow howner hstate hdisposition⟩

/-- A returned record is the acknowledged row as it is stored, with the disposition asked for. -/
theorem acknowledge_returns {record : RequestRecord} (hi : ∀ row ∈ t.rows, RowInvariant row)
    (h : acknowledge settings now k credentialHash disposition t = .ok (record, t')) :
    record.state = .acknowledged ∧ record.acknowledgementDisposition = some disposition ∧
      ∃ row, t'.select k = some row ∧ record = row.record ∧ Erased row := by
  obtain ⟨t₁, hclean, -⟩ := bind_eq_ok.mp h
  obtain ⟨row, hrow, -, ⟨hstate, rfl, hselect⟩ | ⟨hstate, hdisposition, rfl, rfl⟩⟩ :=
    acknowledge_ok hclean h
  · exact ⟨rfl, rfl, _, by rw [hselect, if_pos rfl], rfl, rfl, rfl, rfl⟩
  · have hstatements : Statements settings now (fun _ => False) _ _ := statements_cleanup hclean
    have hinv := statements_invariant hstatements hi row
      (KeyedTable.mem_of_select hrow)
    exact ⟨hstate, hdisposition, row, hrow, rfl,
      closed_outputs hinv (isClosed_iff.mpr (.inl hstate))⟩

section Closed

variable (hi : RowInvariant row) (hclosed : row.isClosed = true) (hrow : t.select k = some row)
include hi hclosed hrow

theorem admit_closed {request : InferenceRequest} {record : RequestRecord}
    (hid : request.requestId = k)
    (h : admitRequest settings now request credentialHash requestDigest t = .ok (record, t')) :
    record.state ≠ .completed ∧ ∀ row', t'.select k = some row' → Erased row' := by
  subst hid
  obtain ⟨t₁, hclean, -⟩ := bind_eq_ok.mp h
  rcases cleanup_closed hclean hrow hclosed with hnone | hkept
  · rw [admit_new hclean hnone] at h
    split_ifs at h
    obtain ⟨rfl, rfl⟩ := Prod.mk.inj (Except.ok.inj h)
    refine ⟨by simp [Row.record, reservedRow], fun row' hrow' => ?_⟩
    rw [select_reserved hnone, if_pos rfl] at hrow'
    obtain rfl := Option.some.inj hrow'
    exact ⟨rfl, rfl, rfl⟩
  · rw [admit_retained hclean hkept] at h
    obtain ⟨u, -, he⟩ := map_eq_ok.mp h
    obtain ⟨rfl, rfl⟩ := Prod.mk.inj he
    refine ⟨fun hc => ?_, fun row' hrow' => ?_⟩
    · have hstate : row.state = .completed := hc
      simp [Row.isClosed, hstate] at hclosed
    · obtain rfl := Option.some.inj (hkept.symm.trans hrow')
      exact closed_outputs hi hclosed

theorem getOwned_closed {digest : Option Str} {record : RequestRecord}
    (h : getOwned settings now k credentialHash digest t = .ok (record, t')) :
    record.state ≠ .completed ∧ ∀ row', t'.select k = some row' → Erased row' := by
  obtain ⟨t₁, hclean, hrest⟩ := bind_eq_ok.mp h
  split at hrest
  · cases hrest
  · rename_i row' hrow'
    obtain ⟨u, -, he⟩ := bind_eq_ok.mp hrest
    obtain ⟨rfl, rfl⟩ := Prod.mk.inj (Except.ok.inj he)
    rcases cleanup_closed hclean hrow hclosed with hnone | hkept
    · simp [hnone] at hrow'
    · obtain rfl := Option.some.inj (hkept.symm.trans hrow')
      refine ⟨fun hc => ?_, fun row'' hrow'' => ?_⟩
      · have hstate : row.state = .completed := hc
        simp [Row.isClosed, hstate] at hclosed
      · obtain rfl := Option.some.inj (hkept.symm.trans hrow'')
        exact closed_outputs hi hclosed

theorem complete_closed {nonce : Bytes} {attemptId mediaType content deploymentId : Str}
    {taskPolicyVersion : ℤ} {done : Bool}
    (h : complete settings now cipher nonce k attemptId mediaType content deploymentId
      taskPolicyVersion t = .ok (done, t')) :
    done = false ∧ ∀ row', t'.select k = some row' → Erased row' := by
  obtain ⟨t₁, hclean, hrest⟩ := bind_eq_ok.mp h
  rcases cleanup_closed hclean hrow hclosed with hnone | hkept
  · simp only [hnone] at hrest
    obtain ⟨rfl, rfl⟩ := Prod.mk.inj (Except.ok.inj hrest)
    exact ⟨rfl, fun row' hrow' => by simp [hnone] at hrow'⟩
  · have hstate : row.state ≠ .inProgress := fun hs => by simp [Row.isClosed, hs] at hclosed
    simp only [hkept] at hrest
    by_cases hexpired : row.state = .expired
    · rw [if_pos hexpired] at hrest
      obtain ⟨rfl, rfl⟩ := Prod.mk.inj (Except.ok.inj hrest)
      refine ⟨rfl, fun row' hrow' => ?_⟩
      obtain rfl := Option.some.inj (hkept.symm.trans hrow')
      exact closed_outputs hi hclosed
    · rw [if_neg hexpired, if_pos (.inl hstate)] at hrest
      cases hrest

end Closed

/-- No transaction on the file yields a completed record for the request or stores its output. -/
structure OutputGone (k : Str) (db : Database) : Prop where
  admitted : ∀ settings now request credentialHash requestDigest record t', request.requestId = k →
    admitRequest settings now request credentialHash requestDigest db.requests = .ok (record, t') →
    record.state ≠ .completed ∧ ∀ row, t'.select k = some row → Erased row
  owned : ∀ settings now credentialHash digest record t',
    getOwned settings now k credentialHash digest db.requests = .ok (record, t') →
    record.state ≠ .completed ∧ ∀ row, t'.select k = some row → Erased row
  completed : ∀ settings now cipher nonce attemptId mediaType content deploymentId
    taskPolicyVersion done t',
    complete settings now cipher nonce k attemptId mediaType content deploymentId
      taskPolicyVersion db.requests = .ok (done, t') →
    done = false ∧ ∀ row, t'.select k = some row → Erased row

/-- Acknowledgement from one file on: single-valued, idempotent and final. -/
structure AcknowledgementFinal (db : Database) : Prop where
  single : ∀ k row calls db' row' d d', db.requests.select k = some row →
    Run (KeepingStep k) db calls db' → db'.requests.select k = some row' →
    row.acknowledgementDisposition = some d → row'.acknowledgementDisposition = some d' → d' = d
  succeeds : ∀ settings now k credentialHash disposition t₁,
    cleanup settings now db.requests = .ok t₁ →
    ((∃ record t', acknowledge settings now k credentialHash disposition db.requests =
        .ok (record, t')) ↔
      ∃ row, t₁.select k = some row ∧ row.credentialHash = credentialHash ∧
        (row.state = .completed ∨
          row.state = .acknowledged ∧ row.acknowledgementDisposition = some disposition))
  returns : ∀ settings now k credentialHash disposition record t',
    acknowledge settings now k credentialHash disposition db.requests = .ok (record, t') →
    record.state = .acknowledged ∧ record.acknowledgementDisposition = some disposition ∧
      ∃ row, t'.select k = some row ∧ record = row.record ∧ Erased row
  repeated : ∀ settings now k row d t₁, db.requests.select k = some row →
    row.acknowledgementDisposition = some d → cleanup settings now db.requests = .ok t₁ →
    (t₁.select k).isSome →
    acknowledge settings now k row.credentialHash d db.requests = .ok (row.record, t₁)
  refused : ∀ settings now k credentialHash disposition e,
    (transaction (acknowledge settings now k credentialHash disposition) db).1 = .error e →
    (transaction (acknowledge settings now k credentialHash disposition) db).2 = db
  final : ∀ k row calls db', db.requests.select k = some row → row.state = .acknowledged →
    Run (KeepingStep k) db calls db' →
    db'.requests.select k = some row ∧ Erased row ∧ OutputGone k db'
  answered : ∀ settings credential k disposition now,
    (∃ e, (acknowledgeRequest settings credential k disposition now db).1 = .error e ∧
        (acknowledgeRequest settings credential k disposition now db).2 = db) ∨
      (acknowledgeRequest settings credential k disposition now db).1 = .ok ⟨k, some disposition⟩ ∧
        ∃ row, (acknowledgeRequest settings credential k disposition now db).2.requests.select k =
          some row ∧ row.acknowledgementDisposition = some disposition ∧ Erased row

theorem acknowledged_of_disposition {d : Str} (hi : RowInvariant row)
    (h : row.acknowledgementDisposition = some d) : row.state = .acknowledged :=
  hi.disposition.mp (by simp [h])

theorem acknowledgementFinal_of_invariant (hi : ∀ row ∈ db.requests.rows, RowInvariant row) :
    AcknowledgementFinal db := by
  have hrow_inv : ∀ {k row}, db.requests.select k = some row → RowInvariant row := fun h =>
    hi _ (KeyedTable.mem_of_select h)
  constructor
  · intro k row calls db' row' d d' hrow hrun hrow' hd hd'
    have hclosed := isClosed_iff.mpr (.inl (acknowledged_of_disposition (hrow_inv hrow) hd))
    obtain rfl := Option.some.inj ((keepingRun_closed hrun hclosed hrow).symm.trans hrow')
    exact Option.some.inj (hd'.symm.trans hd)
  · exact fun settings now k credentialHash disposition t₁ hclean => acknowledge_iff hclean
  · exact fun settings now k credentialHash disposition record t' h => acknowledge_returns hi h
  · intro settings now k row d t₁ hrow hd hclean hkept
    have hstate := acknowledged_of_disposition (hrow_inv hrow) hd
    rcases cleanup_closed hclean hrow (isClosed_iff.mpr (.inl hstate)) with hnone | hsome
    · simp [hnone] at hkept
    · exact acknowledge_repeated hclean hsome rfl hstate hd
  · exact fun settings now k credentialHash disposition e h => transaction_error h
  · intro k row calls db' hrow hstate hrun
    have hclosed := isClosed_iff.mpr (.inl hstate)
    have hkept := keepingRun_closed hrun hclosed hrow
    refine ⟨hkept, closed_outputs (hrow_inv hrow) hclosed, ?_, ?_, ?_⟩
    · exact fun _ _ _ _ _ _ _ hid h => admit_closed (hrow_inv hrow) hclosed hkept hid h
    · exact fun _ _ _ _ _ _ h => getOwned_closed (hrow_inv hrow) hclosed hkept h
    · exact fun _ _ _ _ _ _ _ _ _ _ _ h => complete_closed (hrow_inv hrow) hclosed hkept h
  · intro settings credential k disposition now
    cases ht : transaction (acknowledge settings now k credential.identityHash disposition) db with
    | mk result after =>
      cases result with
      | error e =>
        have hsame := transaction_error (congrArg Prod.fst ht)
        rw [ht] at hsame
        refine .inl ⟨acknowledgeFailure e, ?_, ?_⟩ <;> simp [acknowledgeRequest, ht, hsame]
      | ok record =>
        obtain ⟨t', hbody, hafter⟩ := transaction_ok ht
        obtain ⟨-, hdisposition, row, hrow, rfl, herased⟩ := acknowledge_returns hi hbody
        have hid : row.requestId = k := KeyedTable.key_of_select hrow
        refine .inr ⟨?_, row, ?_, hdisposition, herased⟩
        · simp only [acknowledgeRequest, ht]
          rw [hdisposition, ← hid]
          rfl
        · simp only [acknowledgeRequest, ht, hafter]
          exact hrow

/-- In every reachable file acknowledgement is single-valued, idempotent and final. -/
theorem acknowledgement_final (h : Reachable (· = Database.empty) AnyStoreStep db) :
    AcknowledgementFinal db :=
  acknowledgementFinal_of_invariant (reachable_rowInvariant h)

/-- The calls that bring the sample from its admission to its acknowledgement. -/
def acknowledgedCalls : List StoreCall :=
  let id := (sampleRequest false).requestId
  [.markInProgress id (str "a1") (sampleNow 17),
    .complete [0] id (str "a1") (str "application/json") (str "x") (str "gateway-1") 2
      (sampleNow 17),
    .acknowledge id (str "c1") (str "persisted") (sampleNow 18)]

def runCalls (db : Database) (calls : List StoreCall) : Database :=
  calls.foldl (fun db call => (call.run sampleSettings plainCipher db).2) db

theorem run_runCalls (db : Database) (calls : List StoreCall) :
    Run AnyStoreStep db (calls.map fun call => (sampleSettings, plainCipher, call))
      (runCalls db calls) := by
  induction calls generalizing db with
  | nil => exact .refl
  | cons call calls ih => exact .stepL (.inl rfl) (ih _)

def sampleCalls : List StoreCall :=
  .initializeStore (sampleNow 16) ::
    .admitRequest (sampleRequest false) (str "c1") (str "d1") (sampleNow 17) :: acknowledgedCalls

/-- The acknowledged sample stays as it is, its disposition recorded. -/
theorem acknowledgement_final_sample :
    AcknowledgementFinal (runCalls Database.empty sampleCalls) ∧
      (((runCalls Database.empty sampleCalls).requests.select (sampleRequest false).requestId).bind
        Row.acknowledgementDisposition) = some (str "persisted") :=
  ⟨acknowledgement_final ⟨Database.empty, _, rfl, run_runCalls Database.empty sampleCalls⟩,
    by decide⟩

end Gateway
