import Gateway.Store.Effects
import Gateway.Store.Expired

/-! What each transaction can return or raise, and the row it returns. -/
namespace Gateway

variable {settings : StoreSettings} {cipher : Cipher} {now : Datetime} {t t₁ t' : Table} {row : Row}
variable {requestId attemptId credentialHash requestDigest k : Str} {request : InferenceRequest}
variable {record : RequestRecord} {e : Raised} {db : Database} {version : ℤ} {α : Type}

/-! A transaction on tables that are there. -/

theorem transaction_of_error {body : Table → Except Raised (α × Table)}
    (hv : db.version = some version) (h : body db.requests = .error e) :
    transaction body db = (.error e, db) := by
  unfold transaction
  split
  · simp_all
  · simp [h]

theorem transaction_of_ok {body : Table → Except Raised (α × Table)} {a : α}
    (hv : db.version = some version) (h : body db.requests = .ok (a, t)) :
    transaction body db = (.ok a, ⟨some version, t, by simp⟩) := by
  unfold transaction
  split
  · simp_all
  · rename_i v hversion
    obtain rfl := Option.some.inj (hversion.symm.trans hv)
    simp [h]

/-- It keeps the version, whatever it does. -/
theorem transaction_version (body : Table → Except Raised (α × Table)) (db : Database) :
    (transaction body db).2.version = db.version := by
  unfold transaction
  split
  · rfl
  · split <;> simp_all

theorem outcome_requests {α : Type} (body : Table → Except Raised (α × Table)) (db : Database) :
    (outcome body db).2 = db ∨ ∃ a, body db.requests = .ok (a, (outcome body db).2.requests) := by
  unfold outcome transaction
  cases db.version with
  | none => exact .inl rfl
  | some version =>
    simp only
    cases hb : body db.requests with
    | error e => exact .inl rfl
    | ok p => exact .inr ⟨p.1, rfl⟩

/-! The cutoff. -/

/-- `now` less the retention is in the calendar. -/
def HasCutoff (settings : StoreSettings) (now : Datetime) : Prop :=
  ∃ cutoff, now.addSeconds (-settings.tombstoneRetentionSeconds) = some cutoff

theorem hasCutoff_iff : HasCutoff settings now ↔ ∃ t₁, cleanup settings now t = .ok t₁ := by
  constructor
  · rintro ⟨cutoff, hcutoff⟩
    exact ⟨_, cleanup_eq_ok.mpr ⟨cutoff, hcutoff, rfl⟩⟩
  · rintro ⟨t₁, h⟩
    obtain ⟨cutoff, hcutoff, -⟩ := cleanup_eq_ok.mp h
    exact ⟨cutoff, hcutoff⟩

/-! What a cleanup leaves alone. -/

theorem cleanup_none (hclean : cleanup settings now t = .ok t₁) (h : t.select k = none) :
    t₁.select k = none := by
  rcases cleanup_select hclean k with hnone | ⟨row, hrow, -⟩
  · exact hnone
  · simp [h] at hrow

/-- A row whose time has not come is not due, whatever digits spell its time. -/
theorem isDue_of_lt (h : now < row.expiresAt.time) : row.isDue now = false := by
  rw [Row.isDue, decide_eq_false_iff_not]
  exact fun hdue => not_le.mpr h (Datetime.le_of_strptime_le row.expiresAt.parses hdue)

/-- An open row whose time has not come stays as it is. -/
theorem cleanup_live (hclean : cleanup settings now t = .ok t₁) (hrow : t.select k = some row)
    (hopen : row.isClosed = false) (hlive : now < row.expiresAt.time) : t₁.select k = some row := by
  obtain ⟨cutoff, -, rfl⟩ := cleanup_eq_ok.mp hclean
  rw [select_purge, select_expireDue, hrow]
  simp [isDue_of_lt hlive, hopen, Option.filter]

/-- Without an admission no more rows count against the limits than before. -/
theorem statements_open (h : Statements settings now (fun _ => False) t t') :
    openTotal t' ≤ openTotal t ∧
      openPerCredential t' credentialHash ≤ openPerCredential t credentialHash := by
  induction h with
  | refl => exact ⟨le_rfl, le_rfl⟩
  | tail _ hstep ih =>
    cases hstep with
    | update hedge =>
      refine ⟨le_trans ?_ ih.1, le_trans ?_ ih.2⟩
      · exact KeyedTable.count_update_le _ fun row _ hp ho => rowEdge_isOpen (hedge row hp) ho
      · refine KeyedTable.count_update_le _ fun row _ hp ho => ?_
        simp only [Bool.and_eq_true, decide_eq_true_eq] at ho ⊢
        exact ⟨(rowEdge_identity (hedge row hp)).credentialHash.trans ho.1,
          rowEdge_isOpen (hedge row hp) ho.2⟩
    | delete _ _ =>
      exact ⟨KeyedTable.count_delete_le.trans ih.1, KeyedTable.count_delete_le.trans ih.2⟩
    | insert _ hadmits _ _ _ => exact hadmits.elim

/-! What comes back. -/

/-- The table with one row replaced or new. -/
def SetsRow (k : Str) (row : Row) (t t' : Table) : Prop :=
  ∀ k', t'.select k' = if k' = k then some row else t.select k'

theorem admitRequest_ok
    (h : admitRequest settings now request credentialHash requestDigest t = .ok (record, t')) :
    ∃ t₁, cleanup settings now t = .ok t₁ ∧
      ((∃ row, t₁.select request.requestId = some row ∧ row.credentialHash = credentialHash ∧
          row.requestDigest = requestDigest ∧ record = row.record ∧ t' = t₁) ∨
        (t₁.select request.requestId = none ∧ now < request.expiresAt ∧
          record = (reservedRow request credentialHash requestDigest now).record ∧
          SetsRow request.requestId (reservedRow request credentialHash requestDigest now) t₁ t')) := by
  obtain ⟨t₁, hclean, -⟩ := bind_eq_ok.mp h
  refine ⟨t₁, hclean, ?_⟩
  cases hs : t₁.select request.requestId with
  | some row =>
    rw [admit_retained hclean hs] at h
    obtain ⟨u, hauth, he⟩ := map_eq_ok.mp h
    obtain ⟨rfl, rfl⟩ := Prod.mk.inj he
    obtain ⟨howner, hdigest⟩ := authorizeExisting_ok.mp hauth
    exact .inl ⟨row, rfl, howner, hdigest _ rfl, rfl, rfl⟩
  | none =>
    rw [admit_new hclean hs] at h
    split_ifs at h with hexpires hroom
    obtain ⟨rfl, rfl⟩ := Prod.mk.inj (Except.ok.inj h)
    refine .inr ⟨rfl, not_le.mp hexpires, rfl, fun k => ?_⟩
    rw [select_reserved hs]
    simp only [eq_comm]

theorem authorizeExisting_error {digest : Option Str}
    (h : authorizeExisting record credentialHash digest = .error e) :
    e = .requestForbidden ∨ e = .requestIdentityConflict := by
  unfold authorizeExisting at h
  split_ifs at h <;> simp_all

theorem admitRequest_error (hclean : cleanup settings now t = .ok t₁)
    (h : admitRequest settings now request credentialHash requestDigest t = .error e) :
    e = .requestForbidden ∨ e = .requestIdentityConflict ∨ e = .requestExpired ∨
      e = .requestCapacityLimited := by
  cases hs : t₁.select request.requestId with
  | some row =>
    rw [admit_retained hclean hs] at h
    cases hauth : authorizeExisting row.record credentialHash (some requestDigest) with
    | error e' =>
      rw [hauth] at h
      obtain rfl := Except.error.inj h
      rcases authorizeExisting_error hauth with rfl | rfl <;> simp
    | ok u =>
      rw [hauth] at h
      cases h
  | none =>
    rw [admit_new hclean hs] at h
    split_ifs at h <;> simp_all

theorem getOwned_ok {digest : Option Str}
    (h : getOwned settings now requestId credentialHash digest t = .ok (record, t')) :
    cleanup settings now t = .ok t' ∧ ∃ row, t'.select requestId = some row ∧
      row.credentialHash = credentialHash ∧ (∀ d ∈ digest, row.requestDigest = d) ∧
        record = row.record := by
  obtain ⟨t₁, hclean, -⟩ := bind_eq_ok.mp h
  rw [getOwned_eq hclean] at h
  split at h
  · cases h
  · rename_i row hrow
    obtain ⟨u, hauth, he⟩ := map_eq_ok.mp h
    obtain ⟨rfl, rfl⟩ := Prod.mk.inj he
    obtain ⟨howner, hdigest⟩ := authorizeExisting_ok.mp hauth
    exact ⟨hclean, row, hrow, howner, hdigest, rfl⟩

theorem getOwned_of_row {digest : Str} (hclean : cleanup settings now t = .ok t₁)
    (hrow : t₁.select requestId = some row) (howner : row.credentialHash = credentialHash)
    (hdigest : row.requestDigest = digest) :
    getOwned settings now requestId credentialHash (some digest) t = .ok (row.record, t₁) := by
  have hauth : authorizeExisting row.record credentialHash (some digest) = .ok () :=
    authorizeExisting_ok.mpr ⟨howner, fun d hd => hdigest.trans (Option.some.inj hd)⟩
  rw [getOwned_eq hclean, hrow]
  simp only [hauth]
  rfl

theorem getOwned_error {digest : Option Str} (hclean : cleanup settings now t = .ok t₁)
    (h : getOwned settings now requestId credentialHash digest t = .error e) :
    e.isStoreError = true := by
  rw [getOwned_eq hclean] at h
  split at h
  · obtain rfl := Except.error.inj h
    rfl
  · rename_i row hrow
    cases hauth : authorizeExisting row.record credentialHash digest with
    | error e' =>
      rw [hauth] at h
      obtain rfl := Except.error.inj h
      rcases authorizeExisting_error hauth with rfl | rfl <;> rfl
    | ok u =>
      rw [hauth] at h
      cases h

theorem markInProgress_ok
    (h : markInProgress settings now requestId attemptId t = .ok (record, t')) :
    ∃ t₁ row, cleanup settings now t = .ok t₁ ∧ t₁.select requestId = some row ∧
      row.state = .reserved ∧ SetsRow requestId (row.mark attemptId now) t₁ t' := by
  obtain ⟨t₁, hclean, -⟩ := bind_eq_ok.mp h
  by_cases hreserved : ∃ row, t₁.select requestId = some row ∧ row.state = .reserved
  · obtain ⟨row, hrow, hstate⟩ := hreserved
    obtain ⟨t'', hmark, hselect⟩ := @markInProgress_reserved _ _ _ _ _ requestId attemptId hclean hrow hstate
    obtain ⟨-, rfl⟩ := Prod.mk.inj (Except.ok.inj (h.symm.trans hmark))
    exact ⟨t₁, row, hclean, hrow, hstate, hselect⟩
  · rw [markInProgress_other hclean fun row hrow hstate => hreserved ⟨row, hrow, hstate⟩] at h
    cases h

theorem markInProgress_error (hclean : cleanup settings now t = .ok t₁)
    (h : markInProgress settings now requestId attemptId t = .error e) : e.isStoreError = true := by
  by_cases hreserved : ∃ row, t₁.select requestId = some row ∧ row.state = .reserved
  · obtain ⟨row, hrow, hstate⟩ := hreserved
    obtain ⟨t'', hmark, -⟩ := @markInProgress_reserved _ _ _ _ _ requestId attemptId hclean hrow hstate
    cases h.symm.trans hmark
  · rw [markInProgress_other hclean fun row hrow hstate => hreserved ⟨row, hrow, hstate⟩] at h
    obtain rfl := Except.error.inj h
    rfl

/-- Under one key, nonce and associated data, what was encrypted is what is decrypted. -/
def Cipher.Inverts (cipher : Cipher) : Prop :=
  ∀ nonce text aad, cipher.decrypt nonce (cipher.encrypt nonce text aad) aad = some text

theorem encrypt_eq_ok {nonce : Bytes} {content : Str} {sealed : Bytes × Bytes}
    (h : record.encrypt cipher nonce content = .ok sealed) :
    ∃ aad, record.aad = some aad ∧ Scalars content ∧
      sealed = (nonce, cipher.encrypt nonce (utf8 content) aad) := by
  unfold RequestRecord.encrypt encodeUtf8 at h
  split at h
  · rename_i text aad htext haad
    split_ifs at htext with hscalars
    obtain rfl := Except.ok.inj htext
    obtain rfl := Except.ok.inj h
    exact ⟨aad, haad, hscalars, rfl⟩
  · cases h

/-- The output of a completed row is the content it was completed with. -/
theorem output_complete {nonce : Bytes} {content mediaType deploymentId : Str}
    {taskPolicyVersion : ℤ} {sealed : Bytes × Bytes} (hcipher : cipher.Inverts)
    (h : row.record.encrypt cipher nonce content = .ok sealed) :
    output cipher
        (row.complete mediaType sealed.1 sealed.2 deploymentId taskPolicyVersion now).record =
      .ok content := by
  obtain ⟨aad, haad, hscalars, rfl⟩ := encrypt_eq_ok h
  have haad' : (row.complete mediaType nonce (cipher.encrypt nonce (utf8 content) aad) deploymentId
      taskPolicyVersion now).record.aad = some aad := haad
  have hstate : ¬ (row.complete mediaType nonce (cipher.encrypt nonce (utf8 content) aad)
      deploymentId taskPolicyVersion now).record.state ≠ .completed := not_not.mpr rfl
  rw [output, if_neg hstate, RequestRecord.decrypt, haad']
  simp only [Row.record, Row.complete, Option.bind_some, hcipher nonce (utf8 content) aad,
    decodeStrict_utf8 hscalars]

/-- A row in progress after a cleanup was there before, and is not due. -/
theorem inProgress_cleaned (hclean : cleanup settings now t = .ok t₁)
    (hrow : t₁.select requestId = some row) (hstate : row.state = .inProgress) :
    t.select requestId = some row ∧ row.isDue now = false := by
  rcases cleanup_select hclean requestId with hnone | ⟨row₀, hrow₀, hrow₁⟩
  · cases hnone.symm.trans hrow
  · obtain rfl := Option.some.inj (hrow₁.symm.trans hrow)
    split_ifs at hstate ⊢ with hexpires
    · cases hstate
    · have hopen : row₀.isClosed = false := by simp [Row.isClosed, hstate]
      exact ⟨hrow₀, by simpa [hopen] using hexpires⟩

theorem cleaned_inProgress (hclean : cleanup settings now t = .ok t₁)
    (hrow : t.select requestId = some row) (hstate : row.state = .inProgress)
    (hdue : row.isDue now = false) : t₁.select requestId = some row := by
  obtain ⟨cutoff, -, rfl⟩ := cleanup_eq_ok.mp hclean
  have hopen : row.isClosed = false := by simp [Row.isClosed, hstate]
  rw [select_purge, select_expireDue, hrow]
  simp [hdue, hopen, Option.filter]

section Complete

variable {nonce : Bytes} {mediaType content deploymentId : Str} {taskPolicyVersion : ℤ} {done : Bool}

/-- A completion is stored for the attempt in progress, or finds its request gone or expired. -/
theorem complete_ok
    (h : complete settings now cipher nonce requestId attemptId mediaType content deploymentId
      taskPolicyVersion t = .ok (done, t')) :
    ∃ t₁, cleanup settings now t = .ok t₁ ∧
      (done = false ∧ t' = t₁ ∧ (∀ row, t₁.select requestId = some row → row.state = .expired) ∨
        done = true ∧ ∃ row sealed, t₁.select requestId = some row ∧ row.state = .inProgress ∧
          row.attemptId = some attemptId ∧ row.record.encrypt cipher nonce content = .ok sealed ∧
          (Scalars mediaType ∧ Scalars deploymentId) ∧ 1 ≤ taskPolicyVersion ∧
          SetsRow requestId
            (row.complete mediaType sealed.1 sealed.2 deploymentId taskPolicyVersion now) t₁ t') := by
  obtain ⟨t₁, hclean, -⟩ := bind_eq_ok.mp h
  refine ⟨t₁, hclean, ?_⟩
  cases hs : t₁.select requestId with
  | none =>
    rw [complete_eq hclean, hs] at h
    obtain ⟨rfl, rfl⟩ := Prod.mk.inj (Except.ok.inj h)
    exact .inl ⟨rfl, rfl, by simp⟩
  | some row =>
    by_cases hexpired : row.state = .expired
    · rw [complete_eq hclean, hs] at h
      simp only [hexpired, if_true] at h
      obtain ⟨rfl, rfl⟩ := Prod.mk.inj (Except.ok.inj h)
      refine .inl ⟨rfl, rfl, fun row' hrow' => ?_⟩
      obtain rfl := Option.some.inj hrow'
      exact hexpired
    · have hrest := h
      rw [complete_eq hclean, hs] at h
      simp only [hexpired, if_false] at h
      split at h
      · cases h
      · rename_i howned
        obtain ⟨hstate, hattempt⟩ : row.state = .inProgress ∧ row.attemptId = some attemptId := by
          simpa using howned
        cases hseal : row.record.encrypt cipher nonce content with
        | error e =>
          rw [hseal] at h
          cases h
        | ok sealed =>
          rw [hseal] at h
          simp only at h
          split_ifs at h with hbinds hversion
          · have hnonce : sealed.1 = nonce := by
              obtain ⟨aad, -, -, rfl⟩ := encrypt_eq_ok hseal
              rfl
            obtain ⟨t'', hcomplete, hselect⟩ := @complete_attempt settings cipher now t t₁ row
              requestId attemptId hclean nonce sealed.2 mediaType content deploymentId
              taskPolicyVersion hs hstate hattempt (hnonce ▸ hseal) hbinds (not_lt.mp hversion)
            obtain ⟨rfl, rfl⟩ := Prod.mk.inj (Except.ok.inj (hrest.symm.trans hcomplete))
            refine .inr ⟨rfl, row, sealed, rfl, hstate, hattempt, hseal, hbinds, not_lt.mp hversion, ?_⟩
            rwa [hnonce]

/-- A completion that seals raises a `StoreError`, or cannot bind a text in UTF-8. -/
theorem complete_error (hclean : cleanup settings now t = .ok t₁)
    (hseal : ∀ row, t₁.select requestId = some row →
      ∃ sealed, row.record.encrypt cipher nonce content = .ok sealed)
    (hversion : 1 ≤ taskPolicyVersion)
    (h : complete settings now cipher nonce requestId attemptId mediaType content deploymentId
      taskPolicyVersion t = .error e) :
    e.isStoreError = true ∨ e = .unicodeError ∧ ¬ (Scalars mediaType ∧ Scalars deploymentId) ∧
      ∃ row, t.select requestId = some row ∧ row.isDue now = false ∧ row.state = .inProgress ∧
        row.attemptId = some attemptId := by
  rw [complete_eq hclean] at h
  split at h
  · cases h
  · rename_i row hrow
    obtain ⟨sealed, hsealed⟩ := hseal row hrow
    simp only [hsealed, if_neg (not_lt.mpr hversion)] at h
    split_ifs at h with hexpired howned hbinds
    · obtain rfl := Except.error.inj h
      exact .inl rfl
    · have howns : row.state = .inProgress ∧ row.attemptId = some attemptId := by simpa using howned
      obtain ⟨hbefore, hdue⟩ := inProgress_cleaned hclean hrow howns.1
      exact .inr ⟨(Except.error.inj h).symm, hbinds, row, hbefore, hdue, howns⟩

/-- Where the row is the attempt's and not due, a deployment id that cannot be encoded raises. -/
theorem complete_unbound (hrow : t.select requestId = some row) (hstate : row.state = .inProgress)
    (hattempt : row.attemptId = some attemptId) (hdue : row.isDue now = false)
    (hunbound : ¬ Scalars deploymentId) :
    ∃ e, complete settings now cipher nonce requestId attemptId mediaType content deploymentId
      taskPolicyVersion t = .error e ∧ e.isStoreError = false := by
  cases hclean : cleanup settings now t with
  | error e =>
    refine ⟨e, by rw [complete, hclean]; rfl, ?_⟩
    unfold cleanup at hclean
    split at hclean
    · obtain rfl := Except.error.inj hclean
      rfl
    · cases hclean
  | ok t₁ =>
    have hexpired : ¬ row.state = .expired := by simp [hstate]
    have howned : ¬ (row.state ≠ .inProgress ∨ row.attemptId ≠ some attemptId) := by
      simp [hstate, hattempt]
    rw [complete_eq hclean, cleaned_inProgress hclean hrow hstate hdue]
    simp only [if_neg hexpired, if_neg howned]
    cases hseal : row.record.encrypt cipher nonce content with
    | error e =>
      refine ⟨e, rfl, ?_⟩
      unfold RequestRecord.encrypt at hseal
      split at hseal
      · cases hseal
      · obtain rfl := Except.error.inj hseal
        rfl
    | ok sealed => exact ⟨.unicodeError, by simp [hunbound], rfl⟩

end Complete

/-- A start that returns leaves the supported version and has had a cutoff. -/
theorem initializeStore_opened {db' : Database} (h : initializeStore settings now db = (.ok (), db')) :
    db'.version = some schemaVersion ∧ HasCutoff settings now := by
  unfold initializeStore at h
  simp only at h
  split at h
  · simp at h
  · rename_i hversion
    split at h
    · simp at h
    · rename_i requests hrecover
      obtain ⟨-, rfl⟩ := Prod.mk.inj h
      exact ⟨congrArg some (not_not.mp hversion), hasCutoff_iff.mpr ⟨_, hrecover⟩⟩

end Gateway
