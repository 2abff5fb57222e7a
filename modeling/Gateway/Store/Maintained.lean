import Gateway.Store.Effects
import Gateway.Store.Expired

/-! A store with extra maintenance beside the same store without: rows, records and counts agree. -/
namespace Gateway

variable {settings : StoreSettings} {cipher : Cipher} {now now' : Datetime} {t t' t₁ t₁' : Table}
variable {row row' : Row} {requestId attemptId credentialHash requestDigest disposition : Str}

/-- What a caller sees of a record: its state, and the fields that its state gives a meaning. -/
structure Observation where
  state : RequestState
  result : Option (Except Raised Str × Option Str × Option Str × Option ℤ)
  disposition : Option Str
  failure : Option (Option Str × Option Bool × Option ℤ)

def RequestRecord.observe (cipher : Cipher) (record : RequestRecord) : Observation where
  state := record.state
  result := if record.state = .completed then
      some (output cipher record, record.outputMediaType, record.producingDeploymentId,
        record.producingTaskPolicyVersion)
    else none
  disposition := if record.state = .acknowledged then record.acknowledgementDisposition else none
  failure := if record.state = .failed then
      some (record.errorCode, record.errorRetryable, record.errorRetryAfterSeconds)
    else none

/-- Two rows of one request after a cleanup: the same, or expired from one row or another. -/
inductive RowAgreed : Row → Row → Prop
  | same (row : Row) : RowAgreed row row
  | expired {row row' : Row} (hid : SameIdentity row row') (h : row.state = .expired)
      (h' : row'.state = .expired) : RowAgreed row row'

/-- Before it, the second may have expired while the first is only due. -/
inductive RowAhead (now : Datetime) : Row → Row → Prop
  | agreed {row row' : Row} (h : RowAgreed row row') : RowAhead now row row'
  | due {row row' : Row} (hid : SameIdentity row row') (hopen : row.isClosed = false)
      (hdue : row.isDue now = true) (h' : row'.state = .expired) : RowAhead now row row'

abbrev Agreed : Table → Table → Prop := KeyedTable.Related RowAgreed

abbrev Ahead (now : Datetime) : Table → Table → Prop := KeyedTable.Related (RowAhead now)

theorem RowAgreed.identity (h : RowAgreed row row') : SameIdentity row row' := by
  cases h with
  | same => exact .refl row
  | expired hid _ _ => exact hid

theorem RowAgreed.state (h : RowAgreed row row') : row.state = row'.state := by
  cases h with
  | same => rfl
  | expired _ h h' => exact h.trans h'.symm

/-- Rows that agree and have not expired are the same row. -/
theorem RowAgreed.eq_of_state (h : RowAgreed row row') (hs : row.state ≠ .expired) : row = row' := by
  cases h with
  | same => rfl
  | expired _ h _ => exact absurd h hs

theorem RowAgreed.observe (h : RowAgreed row row') (cipher : Cipher) :
    row.record.observe cipher = row'.record.observe cipher := by
  cases h with
  | same => rfl
  | expired _ h h' => simp [RequestRecord.observe, Row.record, h, h']

theorem RowAhead.identity (h : RowAhead now row row') : SameIdentity row row' := by
  cases h with
  | agreed h => exact h.identity
  | due hid _ _ _ => exact hid

theorem timestamp_mono (h : now ≤ now') : utf8 (timestamp now) ≤ utf8 (timestamp now') := by
  rw [utf8_le_iff, timestamp, timestamp, Datetime.strftime_le_iff]
  rw [Datetime.le_iff_key, Datetime.key, Datetime.key] at h
  have := now'.time_range.2.2.2
  omega

/-- What is due stays due. -/
theorem isDue_mono (hle : now ≤ now') (h : row.isDue now = true) : row.isDue now' = true := by
  rw [Row.isDue, decide_eq_true_eq] at h ⊢
  exact h.trans (timestamp_mono hle)

theorem RowAhead.mono (hle : now ≤ now') (h : RowAhead now row row') : RowAhead now' row row' := by
  cases h with
  | agreed h => exact .agreed h
  | due hid hopen hdue h' => exact .due hid hopen (isDue_mono hle hdue) h'

theorem Agreed.ahead (h : Agreed t t') : Ahead now t t' := h.mono fun _ _ => .agreed

theorem Ahead.mono (hle : now ≤ now') (h : Ahead now t t') : Ahead now' t t' :=
  KeyedTable.Related.mono (fun _ _ => RowAhead.mono hle) h

/-! Cleanup. -/

/-- Every row was last changed at or after a moment. -/
def Fresh (first : Datetime) (t : Table) : Prop :=
  ∀ row ∈ t.rows, utf8 (timestamp first) ≤ utf8 row.updatedAt

/-- Within the retention of the first call a cleanup only expires what is due. -/
theorem cleanup_fresh {first cutoff : Datetime} (hfresh : Fresh first t) (hfirst : first ≤ now)
    (hspan : cutoff ≤ first) : purge cutoff (expireDue now t) = expireDue now t := by
  refine KeyedTable.delete_none fun row hrow => ?_
  have hold : utf8 (timestamp first) ≤ utf8 row.updatedAt := by
    obtain ⟨r, hr, rfl⟩ := List.mem_map.mp hrow
    split_ifs with hdue
    · exact timestamp_mono hfirst
    · exact hfresh r hr
  have hcut := (timestamp_mono hspan).trans hold
  simp [not_lt.mpr hcut]

/-- One row after the cleanup of both stores. -/
theorem RowAhead.cleaned (h : RowAhead now row row') :
    RowAgreed (if !row.isClosed && row.isDue now then row.expire now else row)
      (if !row'.isClosed && row'.isDue now then row'.expire now else row') := by
  have hdue : row.isDue now = row'.isDue now := by
    rw [Row.isDue, Row.isDue, h.identity.expiresAt]
  have hexpired : ∀ {r : Row}, r.state = .expired → r.isClosed = true := fun h =>
    isClosed_iff.mpr (.inr h)
  cases h with
  | agreed h =>
    cases h with
    | same => exact .same _
    | expired hid h h' =>
      simp only [hexpired h, hexpired h', Bool.not_true, Bool.false_and, Bool.false_eq_true, if_false]
      exact .expired hid h h'
  | due hid hopen hd h' =>
    simp only [hopen, hd, hexpired h', Bool.not_true, Bool.false_and, Bool.false_eq_true, if_false,
      Bool.not_false, Bool.and_self, if_true]
    exact .expired ⟨hid.1, hid.2, hid.3, hid.4, hid.5, hid.6⟩ rfl h'

theorem Ahead.cleaned (h : Ahead now t t') : Agreed (expireDue now t) (expireDue now t') :=
  h.update _ fun _ _ => RowAhead.cleaned

/-- One row after the cleanup of the second store only. -/
theorem RowAhead.maintained (h : RowAhead now row row') :
    RowAhead now row (if !row'.isClosed && row'.isDue now then row'.expire now else row') := by
  by_cases hopen : row'.isClosed = false
  · by_cases hdue : row'.isDue now = true
    · have hsame : row = row' := by
        cases h with
        | agreed h =>
          refine h.eq_of_state fun hs => ?_
          rw [isClosed_iff.mpr (.inr (h.state ▸ hs))] at hopen
          cases hopen
        | due _ _ _ h' =>
          rw [isClosed_iff.mpr (.inr h')] at hopen
          cases hopen
      subst hsame
      simp only [hopen, hdue, Bool.not_false, Bool.and_self, if_true]
      exact .due ⟨rfl, rfl, rfl, rfl, rfl, rfl⟩ hopen hdue rfl
    · simpa [hdue] using h
  · simpa [hopen] using h

theorem Ahead.maintained (h : Ahead now t t') : Ahead now t (expireDue now t') := by
  have hmap := List.forall₂_map_right_iff.mpr (h.imp fun _ _ => RowAhead.maintained)
  exact hmap

/-! The statements on tables that agree. -/

theorem Agreed.update {p : Row → Bool} {f : Row → Row} (hf : ∀ row, (f row).requestId = row.requestId)
    (h : Agreed t t') (hp : ∀ row, row.state = .expired → p row = false) :
    Agreed (t.update p f hf) (t'.update p f hf) := by
  refine KeyedTable.Related.update hf (fun row row' hrow => ?_) h
  cases hrow with
  | same => exact .same _
  | expired hid h h' =>
    simp only [hp _ h, hp _ h', Bool.false_eq_true, if_false]
    exact .expired hid h h'

theorem Agreed.select (h : Agreed t t') (k : Str) :
    (t.select k = none ∧ t'.select k = none) ∨
      ∃ row row', t.select k = some row ∧ t'.select k = some row' ∧ RowAgreed row row' := by
  have hrel := KeyedTable.Related.select (fun _ _ h => h.identity.requestId) h k
  generalize t.select k = o, t'.select k = o' at hrel
  cases hrel with
  | none => exact .inl ⟨rfl, rfl⟩
  | some hrow => exact .inr ⟨_, _, rfl, rfl, hrow⟩

theorem Agreed.count {p : Row → Bool} (hp : ∀ row row', RowAgreed row row' → p row = p row')
    (h : Agreed t t') : t.count p = t'.count p :=
  KeyedTable.Related.count hp h

theorem Agreed.matched {p : Row → Bool} (h : Agreed t t')
    (hp : ∀ row row', RowAgreed row row' → p row = p row') : t.matched p = t'.matched p :=
  h.count hp

/-- The same row is an attempt in both tables. -/
theorem RowAgreed.isAttempt (h : RowAgreed row row') :
    row.isAttempt requestId attemptId = row'.isAttempt requestId attemptId := by
  cases h with
  | same => rfl
  | expired _ h h' => simp [Row.isAttempt, h, h']

theorem RowAgreed.isOpen (h : RowAgreed row row') : row.isOpen = row'.isOpen := by
  rw [Row.isOpen, Row.isOpen, h.state]

theorem RowAgreed.authorize (h : RowAgreed row row') (digest : Option Str) :
    authorizeExisting row.record credentialHash digest =
      authorizeExisting row'.record credentialHash digest := by
  have howner : row.record.credentialHash = row'.record.credentialHash := h.identity.credentialHash
  have hdigest : row.record.requestDigest = row'.record.requestDigest := h.identity.requestDigest
  rw [authorizeExisting, authorizeExisting, howner, hdigest]

/-- Two answers that a caller cannot tell apart, and tables that agree. -/
inductive SameResult {α β : Type} (view : α → β) :
    Except Raised (α × Table) → Except Raised (α × Table) → Prop
  | error (e : Raised) : SameResult view (.error e) (.error e)
  | ok {a a' : α} {t t' : Table} (hview : view a = view a') (h : Agreed t t') :
      SameResult view (.ok (a, t)) (.ok (a', t'))

section Operations

variable (hclean : cleanup settings now t = .ok t₁) (hclean' : cleanup settings now t' = .ok t₁')
variable (h : Agreed t₁ t₁')
include hclean hclean' h

theorem admit_same {request : InferenceRequest} :
    SameResult (RequestRecord.observe cipher)
      (admitRequest settings now request credentialHash requestDigest t)
      (admitRequest settings now request credentialHash requestDigest t') := by
  rcases h.select request.requestId with ⟨hs, hs'⟩ | ⟨row, row', hs, hs', hrow⟩
  · have htotal : openTotal t₁ = openTotal t₁' := h.count fun _ _ => RowAgreed.isOpen
    have howner : openPerCredential t₁ credentialHash = openPerCredential t₁' credentialHash :=
      h.count fun _ _ hrow => by rw [hrow.identity.credentialHash, hrow.isOpen]
    rw [admit_new hclean hs, admit_new hclean' hs', htotal, howner]
    split_ifs
    · exact .error _
    · exact .error _
    · exact .ok rfl (KeyedTable.Related.insert (.same _) h hs hs')
  · rw [admit_retained hclean hs, admit_retained hclean' hs', hrow.authorize]
    cases authorizeExisting row'.record credentialHash (some requestDigest) with
    | error e => exact .error e
    | ok u => exact .ok (hrow.observe cipher) h

theorem getOwned_same {digest : Option Str} :
    SameResult (RequestRecord.observe cipher)
      (getOwned settings now requestId credentialHash digest t)
      (getOwned settings now requestId credentialHash digest t') := by
  rw [getOwned_eq hclean, getOwned_eq hclean']
  rcases h.select requestId with ⟨hs, hs'⟩ | ⟨row, row', hs, hs', hrow⟩
  · simp only [hs, hs']
    exact .error _
  · simp only [hs, hs', hrow.authorize]
    cases authorizeExisting row'.record credentialHash digest with
    | error e => exact .error e
    | ok u => exact .ok (hrow.observe cipher) h

theorem markInProgress_same :
    SameResult (RequestRecord.observe cipher) (markInProgress settings now requestId attemptId t)
      (markInProgress settings now requestId attemptId t') := by
  have hmatched := Agreed.matched h (p := fun row => row.requestId = requestId && row.state = .reserved)
    fun _ _ hrow => by rw [hrow.identity.requestId, hrow.state]
  have hmarked := Agreed.update (p := fun row => row.requestId = requestId && row.state = .reserved)
    (f := fun row => row.mark attemptId now) (fun _ => rfl) h fun row hs => by simp [hs]
  rw [markInProgress_eq hclean, markInProgress_eq hclean', hmatched]
  split_ifs
  · exact .error _
  · rcases hmarked.select requestId with ⟨hs, hs'⟩ | ⟨row, row', hs, hs', hrow⟩
    · rw [hs, hs']
      exact .error _
    · rw [hs, hs']
      exact .ok (hrow.observe cipher) hmarked

theorem complete_same {nonce : Bytes} {mediaType content deploymentId : Str} {taskPolicyVersion : ℤ} :
    SameResult id
      (complete settings now cipher nonce requestId attemptId mediaType content deploymentId
        taskPolicyVersion t)
      (complete settings now cipher nonce requestId attemptId mediaType content deploymentId
        taskPolicyVersion t') := by
  have hmatched := Agreed.matched h (p := fun row => row.isAttempt requestId attemptId)
    fun _ _ hrow => hrow.isAttempt
  rw [complete_eq hclean, complete_eq hclean', hmatched]
  rcases h.select requestId with ⟨hs, hs'⟩ | ⟨row, row', hs, hs', hrow⟩
  · rw [hs, hs']
    exact .ok rfl h
  · rw [hs, hs']
    simp only
    by_cases hexpired : row.state = .expired
    · rw [if_pos hexpired, if_pos (hrow.state ▸ hexpired)]
      exact .ok rfl h
    · obtain rfl := hrow.eq_of_state hexpired
      split_ifs with howned hbinds hversion
      · exact .error _
      · cases row.record.encrypt cipher nonce content with
        | error e => exact .error e
        | ok sealed => exact .error _
      · cases row.record.encrypt cipher nonce content with
        | error e => exact .error e
        | ok sealed => exact .ok rfl (Agreed.update _ h fun row hs => by simp [Row.isAttempt, hs])
      · cases row.record.encrypt cipher nonce content with
        | error e => exact .error e
        | ok sealed => exact .error _

theorem acknowledge_same :
    SameResult (RequestRecord.observe cipher)
      (acknowledge settings now requestId credentialHash disposition t)
      (acknowledge settings now requestId credentialHash disposition t') := by
  have hupdate := Agreed.update (p := fun row => row.requestId = requestId && row.state = .completed)
    (f := fun row => row.acknowledge disposition now) (fun _ => rfl) h fun row hs => by simp [hs]
  rw [acknowledge_eq hclean, acknowledge_eq hclean']
  rcases h.select requestId with ⟨hs, hs'⟩ | ⟨row, row', hs, hs', hrow⟩
  · rw [hs, hs']
    exact .error _
  · rw [hs, hs']
    simp only [hrow.authorize]
    cases authorizeExisting row'.record credentialHash none with
    | error e => exact .error e
    | ok u =>
      by_cases hexpired : row.state = .expired
      · have hexpired' : row'.state = .expired := hrow.state ▸ hexpired
        simp only [hexpired, hexpired']
        exact .error _
      · obtain rfl := hrow.eq_of_state hexpired
        cases hstate : row.state with
        | acknowledged =>
          simp only
          split_ifs
          · exact .error _
          · exact .ok rfl h
        | completed =>
          rcases hupdate.select requestId with ⟨hu, hu'⟩ | ⟨updated, updated', hu, hu', hagreed⟩
          · simp only [hu, hu']
            exact .error _
          · simp only [hu, hu']
            exact .ok (hagreed.observe cipher) hupdate
        | _ => exact .error _

end Operations

/-! The updates without a cleanup, on tables of which the second is ahead. -/

/-- An update that leaves rows open cannot change which of the two is ahead. -/
theorem Ahead.update {p : Row → Bool} {f : Row → Row} (hf : ∀ row, (f row).requestId = row.requestId)
    (h : Ahead now t t') (hp : ∀ row, row.state = .expired → p row = false)
    (hid : ∀ row, SameIdentity row (f row)) (hopen : ∀ row, (f row).isClosed = false) :
    Ahead now (t.update p f hf) (t'.update p f hf) := by
  refine KeyedTable.Related.update hf (fun row row' hrow => ?_) h
  cases hrow with
  | agreed hrow =>
    cases hrow with
    | same => exact .agreed (.same _)
    | expired hid h h' =>
      simp only [hp _ h, hp _ h', Bool.false_eq_true, if_false]
      exact .agreed (.expired hid h h')
  | due hsame hopen' hdue h' =>
    simp only [hp _ h', Bool.false_eq_true, if_false]
    split_ifs
    · have hdue' : (f row).isDue now = true := by
        rw [Row.isDue, ← (hid row).expiresAt]
        exact hdue
      exact .due ((hid row).symm.trans hsame) (hopen row) hdue' h'
    · exact .due hsame hopen' hdue h'

end Gateway
