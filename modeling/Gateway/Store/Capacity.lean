import Gateway.Store.Lifecycle

/-! The admission limits: never exceeded, never invoked without cause. -/
namespace Gateway

open Transition (Run Reachable)

variable {settings : StoreSettings} {cipher : Cipher} {now : Datetime} {t t' : Table} {row row' : Row}
variable {admits : InferenceRequest → Prop} {request : InferenceRequest} {credentialHash requestDigest : Str}

/-- The rows that count against the limits are within them. -/
structure WithinLimits (settings : StoreSettings) (t : Table) : Prop where
  total : openTotal t ≤ settings.maxOpenTotal
  perCredential : ∀ credentialHash,
    openPerCredential t credentialHash ≤ settings.maxOpenPerCredential

/-- No update opens a row that was not open. -/
theorem rowEdge_isOpen (h : RowEdge now row row') (ho : row'.isOpen = true) : row.isOpen = true := by
  cases h with
  | expire h => simp [Row.isOpen, Row.expire] at ho
  | fail code retryable retryAfter h => simp [Row.isOpen] at ho
  | acknowledge disposition h => simp [Row.isOpen, Row.acknowledge] at ho
  | _ => simp_all [Row.isOpen]

theorem withinLimits_update {p : Row → Bool} {f : Row → Row}
    {hf : ∀ row, (f row).requestId = row.requestId} (h : ∀ row, p row = true → RowEdge now row (f row))
    (hw : WithinLimits settings t) : WithinLimits settings (t.update p f hf) := by
  constructor
  · refine (KeyedTable.count_update_le hf fun row _ hp ho => ?_).trans hw.total
    exact rowEdge_isOpen (h row hp) ho
  · intro credentialHash
    refine (KeyedTable.count_update_le hf fun row _ hp ho => ?_).trans
      (hw.perCredential credentialHash)
    simp only [Bool.and_eq_true, decide_eq_true_eq] at ho ⊢
    exact ⟨(rowEdge_identity (h row hp)).credentialHash.trans ho.1, rowEdge_isOpen (h row hp) ho.2⟩

theorem withinLimits_insert (h : t.select request.requestId = none)
    (htotal : openTotal t < settings.maxOpenTotal)
    (howner : openPerCredential t credentialHash < settings.maxOpenPerCredential)
    (hw : WithinLimits settings t) :
    WithinLimits settings (t.insert (reservedRow request credentialHash requestDigest now) h) := by
  constructor
  · have hcount := KeyedTable.count_insert (q := Row.isOpen)
      (r := reservedRow request credentialHash requestDigest now) h
    unfold openTotal at htotal ⊢
    split_ifs at hcount <;> omega
  · intro other
    have hcount := KeyedTable.count_insert (q := fun row => row.credentialHash = other && row.isOpen)
      (r := reservedRow request credentialHash requestDigest now) h
    have hother := hw.perCredential other
    unfold openPerCredential at howner hother ⊢
    by_cases hc : credentialHash = other
    · subst hc
      split_ifs at hcount <;> omega
    · rw [if_neg (by simp [reservedRow, hc])] at hcount
      omega

theorem statement_withinLimits (h : Statement settings now admits t t') (hw : WithinLimits settings t) :
    WithinLimits settings t' := by
  cases h with
  | update hedge => exact withinLimits_update hedge hw
  | delete _ _ =>
    exact ⟨KeyedTable.count_delete_le.trans hw.total,
      fun c => KeyedTable.count_delete_le.trans (hw.perCredential c)⟩
  | insert hnone _ _ htotal howner => exact withinLimits_insert hnone htotal howner hw

theorem statements_withinLimits (h : Statements settings now admits t t') (hw : WithinLimits settings t) :
    WithinLimits settings t' := by
  induction h with
  | refl => exact hw
  | tail _ hstep ih => exact statement_withinLimits hstep ih

/-! What `admitRequest` answers. -/

theorem admit_new (hc : cleanup settings now t = .ok t')
    (hnone : t'.select request.requestId = none) :
    admitRequest settings now request credentialHash requestDigest t =
      if request.expiresAt ≤ now then .error .requestExpired
      else if settings.maxOpenTotal ≤ openTotal t' ∨
          settings.maxOpenPerCredential ≤ openPerCredential t' credentialHash then
        .error .requestCapacityLimited
      else .ok ((reservedRow request credentialHash requestDigest now).record,
        t'.insert (reservedRow request credentialHash requestDigest now) hnone) := by
  rw [admitRequest, hc]
  simp only [bind, Except.bind]
  split
  · rename_i heq
    simp [hnone] at heq
  · rfl

theorem admit_retained (hc : cleanup settings now t = .ok t')
    (hrow : t'.select request.requestId = some row) :
    admitRequest settings now request credentialHash requestDigest t =
      (authorizeExisting row.record credentialHash (some requestDigest)).map
        (fun _ => (row.record, t')) := by
  rw [admitRequest, hc]
  simp only [bind, Except.bind]
  split
  · rename_i heq
    obtain rfl := Option.some.inj (hrow.symm.trans heq)
    cases authorizeExisting row.record credentialHash (some requestDigest) <;> rfl
  · rename_i heq
    simp [hrow] at heq

theorem authorizeExisting_ok {record : RequestRecord} {digest : Option Str} {u : Unit} :
    authorizeExisting record credentialHash digest = .ok u ↔
      record.credentialHash = credentialHash ∧ ∀ d ∈ digest, record.requestDigest = d := by
  unfold authorizeExisting
  split_ifs with h h' <;> cases digest <;> simp_all

theorem authorizeExisting_capacity {record : RequestRecord} {digest : Option Str} :
    authorizeExisting record credentialHash digest ≠ .error .requestCapacityLimited := by
  unfold authorizeExisting
  split_ifs <;> simp

/-- In every run of stores with one pair of limits the limits hold, and `admitRequest` refuses for
capacity exactly when a count has reached its limit after cleanup; a retained request is never
refused for it and adds no row, and a refusal changes nothing. -/
theorem store_capacity {db : Database}
    (h : Reachable (· = Database.empty)
      (fun db (call : Cipher × StoreCall) db' => StoreStep settings call.1 db call.2 db') db) :
    WithinLimits settings db.requests ∧
    (∀ now request credentialHash requestDigest t', cleanup settings now db.requests = .ok t' →
      t'.select request.requestId = none → now < request.expiresAt →
      (admitRequest settings now request credentialHash requestDigest db.requests =
          .error .requestCapacityLimited ↔
        settings.maxOpenTotal ≤ openTotal t' ∨
          settings.maxOpenPerCredential ≤ openPerCredential t' credentialHash)) ∧
    (∀ now request credentialHash requestDigest t' row, cleanup settings now db.requests = .ok t' →
      t'.select request.requestId = some row →
      admitRequest settings now request credentialHash requestDigest db.requests ≠
          .error .requestCapacityLimited ∧
        (row.credentialHash = credentialHash → row.requestDigest = requestDigest →
          admitRequest settings now request credentialHash requestDigest db.requests =
            .ok (row.record, t')) ∧
        t'.rows.length ≤ db.requests.rows.length) ∧
    ∀ now request credentialHash requestDigest e,
      (transaction (admitRequest settings now request credentialHash requestDigest) db).1 = .error e →
      (transaction (admitRequest settings now request credentialHash requestDigest) db).2 = db := by
  refine ⟨?_, ?_, ?_, fun _ _ _ _ _ he => transaction_error he⟩
  · refine Transition.reachable_invariant (P := fun db => WithinLimits settings db.requests) ?_ ?_ h
    · rintro db rfl
      exact ⟨Nat.zero_le _, fun _ => Nat.zero_le _⟩
    · exact fun db call db' hstep hw => statements_withinLimits (statements_step hstep) hw
  · intro now request credentialHash requestDigest t' hc hnone hlt
    rw [admit_new hc hnone, if_neg (not_le.mpr hlt)]
    split_ifs with hcap <;> simp [hcap]
  · intro now request credentialHash requestDigest t' row hc hrow
    rw [admit_retained hc hrow]
    refine ⟨?_, fun hcred hdigest => ?_, ?_⟩
    · cases hauth : authorizeExisting row.record credentialHash (some requestDigest) with
      | error e =>
        intro he
        exact authorizeExisting_capacity (hauth.trans (congrArg _ (Except.error.inj he)))
      | ok u => simp [Except.map]
    · have hauth : authorizeExisting row.record credentialHash (some requestDigest) = .ok () := by
        refine authorizeExisting_ok.mpr ⟨hcred, fun d hd => ?_⟩
        cases hd
        exact hdigest
      rw [hauth]
      rfl
    · obtain ⟨cutoff, -, rfl⟩ := cleanup_eq_ok.mp hc
      exact (List.length_filter_le _ _).trans (List.length_map _).le

/-- The admitted sample counts within the limits. -/
theorem store_capacity_sample :
    WithinLimits sampleSettings sampleDatabase.requests ∧ openTotal sampleDatabase.requests = 1 := by
  have hfirst : StoreStep sampleSettings plainCipher Database.empty
      (.initializeStore (sampleNow 16))
      (StoreCall.run sampleSettings plainCipher (.initializeStore (sampleNow 16))
        Database.empty).2 := .inl rfl
  have hsecond : StoreStep sampleSettings plainCipher
      (StoreCall.run sampleSettings plainCipher (.initializeStore (sampleNow 16))
        Database.empty).2
      (.admitRequest (sampleRequest false) (str "c1") (str "d1") (sampleNow 17))
      sampleDatabase := .inl rfl
  have hrun : Run (fun db (call : Cipher × StoreCall) db' =>
      StoreStep sampleSettings call.1 db call.2 db') Database.empty
      [(plainCipher, .initializeStore (sampleNow 16)),
        (plainCipher,
          .admitRequest (sampleRequest false) (str "c1") (str "d1") (sampleNow 17))]
      sampleDatabase := .stepL hfirst (.single hsecond)
  exact ⟨(store_capacity ⟨Database.empty, _, rfl, hrun⟩).1, by decide⟩

end Gateway
