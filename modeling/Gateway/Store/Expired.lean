import Gateway.Store.Expiry

/-! An expired request from its instant on, along every run on one clock. -/
namespace Gateway

open Transition (Run Reachable)

variable {settings : StoreSettings} {cipher : Cipher} {now c : Datetime} {t t' : Table} {row : Row}
variable {admits : InferenceRequest → Prop} {requestId credentialHash requestDigest : Str}

/-- Every row due by `c` is closed. -/
def ClosedBy (c : Datetime) (t : Table) : Prop :=
  ∀ row ∈ t.rows, row.expiresAt.time ≤ c → row.isClosed = true

def AllSort (t : Table) : Prop := ∀ row ∈ t.rows, SortsWithClock row.expiresAt

theorem isDue_iff (h : SortsWithClock row.expiresAt) (hnow : 1000 ≤ now.year) :
    row.isDue now = true ↔ row.expiresAt.time ≤ now := by
  rw [Row.isDue, decide_eq_true_eq]
  exact due_iff h hnow

/-- No update starts from a closed row. -/
theorem rowEdge_open {row' : Row} (h : RowEdge now row row') : row.isClosed = false := by
  cases h with
  | expire h => exact h
  | _ => simp_all [Row.isClosed]

/-- The cutoff has not reached the row's last change. -/
def Young (settings : StoreSettings) (now : Datetime) (row : Row) : Prop :=
  ∀ cutoff, now.addSeconds (-settings.tombstoneRetentionSeconds) = some cutoff →
    ¬ utf8 row.updatedAt < utf8 (timestamp cutoff)

/-- A closed row stays as it is while it is young. -/
theorem statement_young (h : Statement settings now admits t t') (hclosed : row.isClosed = true)
    (hyoung : Young settings now row) {k : Str} (hrow : t.select k = some row) :
    t'.select k = some row := by
  cases h with
  | update hedge =>
    rw [KeyedTable.select_update, hrow, Option.map_some]
    split_ifs with hmatch
    · simp [rowEdge_open (hedge row hmatch)] at hclosed
    · rfl
  | delete hcutoff hpurged =>
    rename_i p cutoff
    rw [KeyedTable.select_delete, hrow]
    cases hp : p row with
    | false => simp [hp]
    | true => exact absurd (hpurged row hp).2 (hyoung cutoff hcutoff)
  | insert hnone _ _ _ _ =>
    rw [select_reserved hnone]
    split_ifs with hk
    · rw [hk, hrow] at hnone
      cases hnone
    · exact hrow

theorem statements_young (h : Statements settings now admits t t') (hclosed : row.isClosed = true)
    (hyoung : Young settings now row) {k : Str} (hrow : t.select k = some row) :
    t'.select k = some row := by
  induction h with
  | refl => exact hrow
  | tail _ hstep ih => exact statement_young hstep hclosed hyoung ih

theorem statement_closedBy (h : Statement settings now admits t t') (hc : c ≤ now)
    (hb : ClosedBy c t) : ClosedBy c t' := by
  intro row hrow hle
  cases h with
  | update hedge =>
    rcases mem_update hrow with ⟨r, hr, hp, rfl⟩ | hr
    · have hopen := rowEdge_open (hedge r hp)
      rw [← (rowEdge_identity (hedge r hp)).expiresAt] at hle
      exact absurd (hb r hr hle) (by simp [hopen])
    · exact hb row hr hle
  | delete _ _ => exact hb row (List.mem_filter.mp hrow).1 hle
  | insert _ _ hexpires _ _ =>
    rcases List.mem_cons.mp hrow with rfl | hr
    · exact absurd (hle.trans hc) (not_le.mpr hexpires)
    · exact hb row hr hle

theorem statement_allSort (h : Statement settings now admits t t')
    (ha : ∀ request, admits request → SortsWithClock request.requestExpiresAt) (hs : AllSort t) :
    AllSort t' := by
  intro row hrow
  cases h with
  | update hedge =>
    rcases mem_update hrow with ⟨r, hr, hp, rfl⟩ | hr
    · rw [← (rowEdge_identity (hedge r hp)).expiresAt]
      exact hs r hr
    · exact hs row hr
  | delete _ _ => exact hs row (List.mem_filter.mp hrow).1
  | insert _ hadmits _ _ _ =>
    rcases List.mem_cons.mp hrow with rfl | hr
    · exact ha _ hadmits
    · exact hs row hr

theorem statements_closedBy (h : Statements settings now admits t t') (hc : c ≤ now)
    (hb : ClosedBy c t) : ClosedBy c t' := by
  induction h with
  | refl => exact hb
  | tail _ hstep ih => exact statement_closedBy hstep hc ih

theorem statements_allSort (h : Statements settings now admits t t')
    (ha : ∀ request, admits request → SortsWithClock request.requestExpiresAt) (hs : AllSort t) :
    AllSort t' := by
  induction h with
  | refl => exact hs
  | tail _ hstep ih => exact statement_allSort hstep ha ih

/-- What `_cleanup` leaves of a row: nothing, the row expired, or the row as it was. -/
theorem cleanup_select (h : cleanup settings now t = .ok t') (k : Str) :
    t'.select k = none ∨ ∃ row, t.select k = some row ∧
      t'.select k = some (if !row.isClosed && row.isDue now then row.expire now else row) := by
  obtain ⟨cutoff, -, rfl⟩ := cleanup_eq_ok.mp h
  cases hs : (purge cutoff (expireDue now t)).select k with
  | none => exact .inl rfl
  | some row' =>
    rw [select_purge, Option.filter_eq_some_iff, select_expireDue] at hs
    obtain ⟨row, hrow, rfl⟩ := Option.map_eq_some_iff.mp hs.1
    exact .inr ⟨row, hrow, rfl⟩

theorem cleanup_closedBy (h : cleanup settings now t = .ok t') (hs : AllSort t)
    (hnow : 1000 ≤ now.year) : ClosedBy now t' := by
  intro row hrow hle
  have hsel := KeyedTable.mem_iff_select.mp hrow
  rcases cleanup_select h row.requestId with hnone | ⟨r, hr, hr'⟩
  · simp [hnone] at hsel
  · obtain rfl := Option.some.inj (hr'.symm.trans hsel)
    split_ifs at hle ⊢ with hp
    · rfl
    · have hdue := (isDue_iff (hs r (KeyedTable.mem_of_select hr)) hnow).mpr hle
      simpa [hdue] using hp

/-- After cleanup a due row is gone, expired, or acknowledged as before. -/
theorem cleanup_due (h : cleanup settings now t = .ok t') (hrow : t.select requestId = some row)
    (hdue : row.isDue now = true) {row' : Row} (hrow' : t'.select requestId = some row') :
    (row'.state = .expired ∨ row.state = .acknowledged ∧ row'.state = .acknowledged) ∧
      SameIdentity row row' := by
  rcases cleanup_select h requestId with hnone | ⟨r, hr, hr'⟩
  · simp [hnone] at hrow'
  · obtain rfl := Option.some.inj (hrow.symm.trans hr)
    obtain rfl := Option.some.inj (hr'.symm.trans hrow')
    split_ifs with hp
    · exact ⟨.inl rfl, rfl, rfl, rfl, rfl, rfl, rfl⟩
    · have hclosed : row.isClosed = true := by simpa [hdue] using hp
      refine ⟨?_, .refl row⟩
      rcases isClosed_iff.mp hclosed with ha | he
      · exact .inr ⟨ha, ha⟩
      · exact .inl he

/-! The transactions on an expired request. -/

/-- A record that hands out nothing. -/
def Withheld (record : RequestRecord) : Prop :=
  (record.state = .expired ∨ record.state = .acknowledged) ∧ ∀ cipher,
    output cipher record = .error (.requestNotTerminal "request does not have a completed result")

theorem withheld_of_state {record : RequestRecord}
    (h : record.state = .expired ∨ record.state = .acknowledged) : Withheld record := by
  refine ⟨h, fun cipher => if_pos ?_⟩
  rcases h with h | h <;> simp [h]

section Transactions

variable (hrow : t.select requestId = some row) (hdue : row.isDue now = true)
include hrow hdue

theorem admit_expired {request : InferenceRequest} {record : RequestRecord}
    (hid : request.requestId = requestId) (hexpires : request.expiresAt ≤ now)
    (h : admitRequest settings now request credentialHash requestDigest t = .ok (record, t')) :
    Withheld record ∧ (row.state ≠ .acknowledged → record.state = .expired) := by
  subst hid
  obtain ⟨t₁, hclean, -⟩ := bind_eq_ok.mp h
  cases hs : t₁.select request.requestId with
  | none =>
    rw [admit_new hclean hs, if_pos hexpires] at h
    cases h
  | some row' =>
    rw [admit_retained hclean hs] at h
    obtain ⟨u, -, he⟩ := map_eq_ok.mp h
    obtain ⟨rfl, rfl⟩ := Prod.mk.inj he
    have hstate := (cleanup_due hclean hrow hdue hs).1
    exact ⟨withheld_of_state (hstate.imp id And.right),
      fun hne => hstate.resolve_right fun h => hne h.1⟩

theorem getOwned_expired {digest : Option Str} {record : RequestRecord}
    (h : getOwned settings now requestId credentialHash digest t = .ok (record, t')) :
    Withheld record ∧ (row.state ≠ .acknowledged → record.state = .expired) := by
  obtain ⟨t₁, hclean, hrest⟩ := bind_eq_ok.mp h
  split at hrest
  · cases hrest
  · rename_i row' hs
    obtain ⟨u, -, he⟩ := bind_eq_ok.mp hrest
    obtain ⟨rfl, rfl⟩ := Prod.mk.inj (Except.ok.inj he)
    have hstate := (cleanup_due hclean hrow hdue hs).1
    exact ⟨withheld_of_state (hstate.imp id And.right),
      fun hne => hstate.resolve_right fun h => hne h.1⟩

/-- No completion is stored, and one that may still answer answers that it was too late. -/
theorem complete_expired {nonce : Bytes} {attemptId mediaType content deploymentId : Str}
    {taskPolicyVersion : ℤ} (hclean : cleanup settings now t = .ok t') :
    complete settings now cipher nonce requestId attemptId mediaType content deploymentId
        taskPolicyVersion t = .ok (false, t') ∨
      row.state = .acknowledged ∧ complete settings now cipher nonce requestId attemptId mediaType
        content deploymentId taskPolicyVersion t =
          .error (.storeError "worker completion does not own the active attempt") := by
  rw [complete, hclean]
  simp only [bind, Except.bind]
  split
  · exact .inl rfl
  · rename_i row' hs
    rcases (cleanup_due hclean hrow hdue hs).1 with he | ⟨ha, ha'⟩
    · rw [if_pos he]
      exact .inl rfl
    · rw [if_neg (by simp [ha']), if_pos (by simp [ha'])]
      exact .inr ⟨ha, rfl⟩

/-- Only what was acknowledged before is still answered. -/
theorem acknowledge_expired {disposition : Str} {record : RequestRecord}
    (h : acknowledge settings now requestId credentialHash disposition t = .ok (record, t')) :
    row.state = .acknowledged ∧ record.state = .acknowledged := by
  obtain ⟨t₁, hclean, hrest⟩ := bind_eq_ok.mp h
  split at hrest
  · cases hrest
  · rename_i row' hs
    obtain ⟨u, -, hrest⟩ := bind_eq_ok.mp hrest
    rcases (cleanup_due hclean hrow hdue hs).1 with he | ⟨ha, ha'⟩
    · simp only [he] at hrest
      cases hrest
    · simp only [ha'] at hrest
      split_ifs at hrest
      obtain ⟨rfl, -⟩ := Prod.mk.inj (Except.ok.inj hrest)
      exact ⟨ha, ha'⟩

end Transactions

/-! Runs on one clock. -/

/-- The file, the clock, and the time of the last committed cleanup. -/
structure ClockedStore where
  db : Database
  clock : Datetime
  cleaned : Option Datetime

/-- A call no earlier than the one before, in a year of four digits, admitting only texts that
sort with the clock. -/
structure TimedStep (settings : StoreSettings) (s : ClockedStore) (label : Cipher × StoreCall)
    (s' : ClockedStore) : Prop where
  later : s.clock ≤ label.2.now
  year : 1000 ≤ label.2.now.year
  sorts : ∀ request, label.2.Admits request → SortsWithClock request.requestExpiresAt
  clock : s'.clock = label.2.now
  effect : (s'.db = s.db ∧ s'.cleaned = s.cleaned) ∨
    (s'.db = (label.2.run settings label.1 s.db).2 ∧
      s'.cleaned = if label.2.cleans ∧ (label.2.run settings label.1 s.db).1 = .ok () then
        some label.2.now else s.cleaned)

/-- What holds in every state of such a run. -/
structure ExpiryInvariant (s : ClockedStore) : Prop where
  rows : ∀ row ∈ s.db.requests.rows, RowInvariant row
  sorts : AllSort s.db.requests
  cleaned : ∀ c, s.cleaned = some c → c ≤ s.clock ∧ ClosedBy c s.db.requests

theorem expiryInvariant_initial {s : ClockedStore} (h : s.db = Database.empty ∧ s.cleaned = none) :
    ExpiryInvariant s := by
  obtain ⟨db, clock, cleaned⟩ := s
  obtain ⟨rfl, rfl⟩ := h
  constructor <;> simp [Database.empty, KeyedTable.empty, AllSort]

theorem expiryInvariant_step {s s' : ClockedStore} {label : Cipher × StoreCall}
    (h : TimedStep settings s label s') (hi : ExpiryInvariant s) : ExpiryInvariant s' := by
  obtain ⟨hrows, hsorts, hcleaned⟩ := hi
  rcases h.effect with ⟨hdb, hc⟩ | ⟨hdb, hc⟩
  · rw [← hdb] at hrows hsorts hcleaned
    refine ⟨hrows, hsorts, fun c hsome => ?_⟩
    obtain ⟨hle, hb⟩ := hcleaned c (hc ▸ hsome)
    exact ⟨hle.trans (h.later.trans h.clock.ge), hb⟩
  · have hstatements := @statements_run settings label.1 label.2 s.db
    refine ⟨?_, ?_, fun c hsome => ?_⟩
    · rw [hdb]
      exact statements_invariant hstatements hrows
    · rw [hdb]
      exact statements_allSort hstatements h.sorts hsorts
    · rw [hc] at hsome
      split_ifs at hsome with hok
      · obtain rfl := Option.some.inj hsome
        obtain ⟨t₀, hinterrupt, t₁, hclean, hrest⟩ := cleaned_run hok.1 hok.2
        refine ⟨h.clock.ge, ?_⟩
        rw [hdb]
        have hsorts₀ := statements_allSort hinterrupt h.sorts hsorts
        exact statements_closedBy hrest le_rfl (cleanup_closedBy hclean hsorts₀ h.year)
      · obtain ⟨hle, hb⟩ := hcleaned c hsome
        refine ⟨hle.trans (h.later.trans h.clock.ge), ?_⟩
        rw [hdb]
        exact statements_closedBy hstatements (hle.trans h.later) hb

/-- Expiry as the clock has it: at `now` and later the row is treated as expired everywhere. -/
structure ExpiryEffective (settings : StoreSettings) (s : ClockedStore) : Prop where
  compares : ∀ row ∈ s.db.requests.rows, ∀ now : Datetime, 1000 ≤ now.year →
    (utf8 row.expiresAt.text ≤ utf8 (timestamp now) ↔ row.expiresAt.time ≤ now)
  erased : ∀ row ∈ s.db.requests.rows, ∀ c, s.cleaned = some c → row.expiresAt.time ≤ c →
    row.isClosed = true ∧ row.outputNonce = none ∧ row.outputCiphertext = none ∧
      row.outputMediaType = none
  uncounted : ∀ now t', 1000 ≤ now.year → cleanup settings now s.db.requests = .ok t' →
    ∀ row ∈ t'.rows, row.expiresAt.time ≤ now → row.isOpen = false ∧
      row.outputNonce = none ∧ row.outputCiphertext = none ∧ row.outputMediaType = none
  admitted : ∀ now row request credentialHash requestDigest record t', 1000 ≤ now.year →
    s.db.requests.select request.requestId = some row → row.expiresAt.time ≤ now →
    request.expiresAt ≤ now →
    admitRequest settings now request credentialHash requestDigest s.db.requests = .ok (record, t') →
    Withheld record ∧ (row.state ≠ .acknowledged → record.state = .expired)
  owned : ∀ now row requestId credentialHash digest record t', 1000 ≤ now.year →
    s.db.requests.select requestId = some row → row.expiresAt.time ≤ now →
    getOwned settings now requestId credentialHash digest s.db.requests = .ok (record, t') →
    Withheld record ∧ (row.state ≠ .acknowledged → record.state = .expired)
  completed : ∀ now row requestId cipher nonce attemptId mediaType content deploymentId
    taskPolicyVersion t', 1000 ≤ now.year → s.db.requests.select requestId = some row →
    row.expiresAt.time ≤ now → cleanup settings now s.db.requests = .ok t' →
    complete settings now cipher nonce requestId attemptId mediaType content deploymentId
        taskPolicyVersion s.db.requests = .ok (false, t') ∨
      row.state = .acknowledged ∧ complete settings now cipher nonce requestId attemptId mediaType
        content deploymentId taskPolicyVersion s.db.requests =
          .error (.storeError "worker completion does not own the active attempt")
  acknowledged : ∀ now row requestId credentialHash disposition record t', 1000 ≤ now.year →
    s.db.requests.select requestId = some row → row.expiresAt.time ≤ now →
    acknowledge settings now requestId credentialHash disposition s.db.requests =
      .ok (record, t') → row.state = .acknowledged ∧ record.state = .acknowledged

theorem closed_outputs (hi : RowInvariant row) (hc : row.isClosed = true) :
    row.outputNonce = none ∧ row.outputCiphertext = none ∧ row.outputMediaType = none := by
  have hne : row.state ≠ .completed := by
    rcases isClosed_iff.mp hc with h | h <;> simp [h]
  refine ⟨?_, ?_, ?_⟩
  · simpa using mt hi.nonce.mp hne
  · simpa using mt hi.ciphertext.mp hne
  · simpa using mt hi.mediaType.mp hne

theorem expiryEffective_of_invariant {s : ClockedStore} (hi : ExpiryInvariant s) :
    ExpiryEffective settings s := by
  obtain ⟨hrows, hsorts, hcleaned⟩ := hi
  have hdue : ∀ {row k now}, 1000 ≤ now.year → s.db.requests.select k = some row →
      row.expiresAt.time ≤ now → row.isDue now = true := fun hyear hrow hle =>
    (isDue_iff (hsorts _ (KeyedTable.mem_of_select hrow)) hyear).mpr hle
  constructor
  · exact fun row hrow now hyear => due_iff (hsorts row hrow) hyear
  · intro row hrow c hc hle
    have hclosed := (hcleaned c hc).2 row hrow hle
    exact ⟨hclosed, closed_outputs (hrows row hrow) hclosed⟩
  · intro now t' hyear hclean row hrow hle
    have hclosed := cleanup_closedBy hclean hsorts hyear row hrow hle
    have hstatements : Statements settings now (fun _ => False) _ _ :=
      statements_cleanup hclean
    have hinv := statements_invariant hstatements hrows row hrow
    refine ⟨?_, closed_outputs hinv hclosed⟩
    rcases isClosed_iff.mp hclosed with h | h <;> simp [Row.isOpen, h]
  · exact fun now row request _ _ record t' hyear hrow hle hexpires h =>
      admit_expired hrow (hdue hyear hrow hle) rfl hexpires h
  · exact fun now row requestId _ _ record t' hyear hrow hle h =>
      getOwned_expired hrow (hdue hyear hrow hle) h
  · exact fun now row requestId _ _ _ _ _ _ _ t' hyear hrow hle hclean =>
      complete_expired hrow (hdue hyear hrow hle) hclean
  · exact fun now row requestId _ _ record t' hyear hrow hle h =>
      acknowledge_expired hrow (hdue hyear hrow hle) h

/-- SQL and the clock agree on a text at every time exactly when it sorts with the clock, and where
only such texts are admitted expiry is effective in every state of every run. -/
theorem expiry_effective (settings : StoreSettings) (e : Expiry) (s : ClockedStore) :
    ((∀ now : Datetime, 1000 ≤ now.year →
      (utf8 e.text ≤ utf8 (timestamp now) ↔ e.time ≤ now)) ↔ SortsWithClock e) ∧
    (Reachable (fun s => s.db = Database.empty ∧ s.cleaned = none) (TimedStep settings) s →
      ExpiryEffective settings s) := by
  refine ⟨due_iff_sortsWithClock, fun h => ?_⟩
  exact expiryEffective_of_invariant (Transition.reachable_invariant (P := ExpiryInvariant)
    (fun _ => expiryInvariant_initial) (fun _ _ _ => expiryInvariant_step) h)

/-- The state after a call that SQLite lets through. -/
def ClockedStore.after (settings : StoreSettings) (s : ClockedStore) (label : Cipher × StoreCall) :
    ClockedStore where
  db := (label.2.run settings label.1 s.db).2
  clock := label.2.now
  cleaned := if label.2.cleans ∧ (label.2.run settings label.1 s.db).1 = .ok () then
    some label.2.now else s.cleaned

theorem timedStep_after {s : ClockedStore} {label : Cipher × StoreCall} (later : s.clock ≤ label.2.now)
    (year : 1000 ≤ label.2.now.year)
    (sorts : ∀ request, label.2.Admits request → SortsWithClock request.requestExpiresAt) :
    TimedStep settings s label (s.after settings label) :=
  ⟨later, year, sorts, rfl, .inr ⟨rfl, rfl⟩⟩

def sampleStart : ClockedStore := ⟨Database.empty, sampleNow 16, none⟩

/-- The sample's text sorts with the clock, so its expiry is effective once it is admitted. -/
theorem expiry_effective_sample :
    ExpiryEffective sampleSettings ((sampleStart.after sampleSettings
      (plainCipher, .initializeStore (sampleNow 16))).after sampleSettings
        (plainCipher, .admitRequest (sampleRequest false) (str "c1") (str "d1") (sampleNow 17))) := by
  have hfirst : TimedStep sampleSettings sampleStart
      (plainCipher, .initializeStore (sampleNow 16)) _ :=
    timedStep_after le_rfl (by decide) (fun _ h => h.elim)
  refine (expiry_effective sampleSettings sampleExpiry _).2
    ⟨sampleStart, _, ⟨rfl, rfl⟩, .stepL hfirst (.single (timedStep_after ?_ ?_ ?_))⟩
  · decide
  · decide
  · rintro request rfl
    exact (by decide : SortsWithClock sampleExpiry)

/-! The same time with its year in fullwidth digits. -/

def wideExpiry : Expiry where
  text := [0xFF12, 0xFF10, 0xFF12, 0xFF16] ++ str "-09-10T18:05:00Z"
  time := sampleExpiry.time
  parses := by rfl

def wideRequest : InferenceRequest := { sampleRequest false with requestExpiresAt := wideExpiry }

/-- Admitted, dispatched and completed at 17:00, then read back at `now`. -/
def wideRead (now : Datetime) : Except Raised RequestRecord := do
  let id := wideRequest.requestId
  let early := sampleNow 17
  let (_, t) ← admitRequest sampleSettings early wideRequest (str "c1") (str "d1") KeyedTable.empty
  let (_, t) ← markInProgress sampleSettings early id (str "a1") t
  let (_, t) ← complete sampleSettings early plainCipher [0] id (str "a1") (str "application/json")
    (str "x") (str "gateway-1") 2 t
  let (record, _) ← getOwned sampleSettings now id (str "c1") (some (str "d1")) t
  return record

/-- At 23:00 the request accepted until 18:05 is still completed, and hands out its output. -/
theorem expiry_wide_not_effective :
    wideRequest.Accepted (fun _ => true) ∧
    validateRequestExpiry wideExpiry.text = .ok wideExpiry ∧
    wideRequest.expiresAt ≤ sampleNow 23 ∧
    ¬ utf8 wideExpiry.text ≤ utf8 (timestamp (sampleNow 23)) ∧
    (wideRead (sampleNow 23)).toOption.map (fun record => record.state) = some .completed ∧
    (wideRead (sampleNow 23)).toOption.map (output plainCipher) = some (.ok (str "x")) :=
  ⟨{ sampleRequest_accepted false with }, validateRequestExpiry_eq_ok.mpr rfl, by decide, by decide,
    by decide, by decide⟩

end Gateway
