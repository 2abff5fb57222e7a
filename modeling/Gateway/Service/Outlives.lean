import Gateway.Service.Tombstone

/-! When an acknowledged request stays answered from its tombstone until it expires. -/
namespace Gateway

open Transition (Run Reachable)

variable {settings : Settings} {cipher : Cipher} {now now' : Datetime} {t t' : Table} {row : Row}
variable {s s' : PolicedStore} {admits : InferenceRequest → Prop}

/-! Where the cutoff lies inside the calendar. -/

theorem addSeconds_later {n : ℤ} {d : Datetime} (hn : n ≤ 0) (h : now.addSeconds n = some d)
    (hle : now ≤ now') : ∃ d', now'.addSeconds n = some d' := by
  have habs := Datetime.addSeconds_eq_some h
  have hnow := Datetime.absolute_le_iff.mpr hle
  have hd := d.absolute_nonneg
  have hlimit := now'.absolute_lt_limit
  exact Datetime.exists_addSeconds (by omega) (by omega)

/-- A call that puts the first rows into the table has cleaned up before. -/
theorem cutoff_of_rows {call : StoreCall} {db : Database} {settings : StoreSettings}
    (h : (call.run settings cipher db).2.requests.rows ≠ []) :
    db.requests.rows ≠ [] ∨
      ∃ cutoff, call.now.addSeconds (-settings.tombstoneRetentionSeconds) = some cutoff := by
  by_cases hc : call.cleans = true
  · cases hr : (call.run settings cipher db).1 with
    | error e => exact .inl (by rwa [run_error hr] at h)
    | ok u =>
      obtain ⟨t₀, -, t₁, hclean, -⟩ := cleaned_run hc hr
      obtain ⟨cutoff, hcutoff, -⟩ := cleanup_eq_ok.mp hclean
      exact .inr ⟨cutoff, hcutoff⟩
  · refine .inl fun hnil => h ?_
    have hlength : (call.run settings cipher db).2.requests.rows.length = db.requests.rows.length := by
      cases call <;> simp [StoreCall.cleans] at hc <;>
        simp only [StoreCall.run, outcome, transaction, Gateway.resetReserved, Gateway.markAmbiguous,
          Gateway.markFailed, updateAttempt, KeyedTable.update] <;> split <;> simp
    rw [hnil] at hlength
    exact List.length_eq_zero_iff.mp hlength

/-! What holds of every reachable store. -/

structure PolicedInvariant (settings : Settings) (s : PolicedStore) : Prop where
  tracked : ∀ row ∈ s.db.requests.rows, Tracked settings s.clock row
  cutoff : s.db.requests.rows ≠ [] →
    ∃ cutoff, s.clock.addSeconds (-settings.tombstoneRetentionSeconds) = some cutoff

theorem policedInvariant_initial (h : s.db = Database.empty) : PolicedInvariant settings s := by
  constructor <;> simp [h, Database.empty, KeyedTable.empty]

theorem policedInvariant_step {label : Cipher × StoreCall} (h : PolicedStep settings s label s')
    (hi : PolicedInvariant settings s) : PolicedInvariant settings s' := by
  have hretention : -settings.tombstoneRetentionSeconds ≤ 0 := by
    have := settings.retention_range
    omega
  have hcutoff : s.db.requests.rows ≠ [] →
      ∃ cutoff, label.2.now.addSeconds (-settings.tombstoneRetentionSeconds) = some cutoff := by
    intro hrows
    obtain ⟨d, hd⟩ := hi.cutoff hrows
    exact addSeconds_later hretention hd h.monotone
  constructor
  · rw [h.clock]
    exact statements_tracked (statements_step h.effect) h.policy
      fun row hrow => (hi.tracked row hrow).later h.monotone
  · intro hrows
    rw [h.clock]
    rcases h.effect with hdb | hdb
    · rw [hdb] at hrows
      exact (cutoff_of_rows hrows).elim hcutoff id
    · rw [hdb] at hrows
      exact hcutoff hrows

/-! From an acknowledgement on. -/

/-- The tombstone is there, or the request has expired and no row of its expiry is. -/
def Retained (row : Row) (s : PolicedStore) : Prop :=
  s.db.requests.select row.requestId = some row ∨
    row.expiresAt.time ≤ s.clock ∧ ∀ row', s.db.requests.select row.requestId = some row' →
      row'.expiresAt.time ≠ row.expiresAt.time

/-- What is admitted at or after an expiry expires later. -/
theorem statement_other (h : Statement settings.store now admits t t')
    {k : Str} {expiry : Datetime} (hle : expiry ≤ now)
    (hother : ∀ row, t.select k = some row → row.expiresAt.time ≠ expiry) :
    ∀ row, t'.select k = some row → row.expiresAt.time ≠ expiry := by
  intro row hrow
  cases h with
  | update hedge =>
    rw [KeyedTable.select_update] at hrow
    obtain ⟨r, hr, rfl⟩ := Option.map_eq_some_iff.mp hrow
    split_ifs with hmatch
    · rw [← (rowEdge_identity (hedge r hmatch)).expiresAt]
      exact hother r hr
    · exact hother r hr
  | delete _ _ =>
    rw [KeyedTable.select_delete, Option.filter_eq_some_iff] at hrow
    exact hother row hrow.1
  | insert hnone _ hexpires _ _ =>
    rw [select_reserved hnone] at hrow
    split_ifs at hrow with hk
    · obtain rfl := Option.some.inj hrow
      exact (lt_of_le_of_lt hle hexpires).ne'
    · exact hother row hrow

theorem statements_other (h : Statements settings.store now admits t t') {k : Str}
    {expiry : Datetime} (hle : expiry ≤ now)
    (hother : ∀ row, t.select k = some row → row.expiresAt.time ≠ expiry) :
    ∀ row, t'.select k = some row → row.expiresAt.time ≠ expiry := by
  induction h with
  | refl => exact hother
  | tail _ hstep ih => exact statement_other hstep hle ih

/-- A tombstone stays as it is until it is deleted. -/
theorem statement_single (h : Statement settings.store now admits t t')
    (ha : row.state = .acknowledged) (hrow : t.select row.requestId = some row) :
    t'.select row.requestId = some row ∨ t'.select row.requestId = none := by
  rcases statement_key h row.requestId with heq | hkey
  · exact .inl (heq ▸ hrow)
  · rw [hrow] at hkey
    exact .inr (keyStep_closed (isClosed_iff.mpr (.inl ha)) hkey)

theorem statements_retained (h : Statements settings.store now admits t t')
    (ha : row.state = .acknowledged) (hle : row.expiresAt.time ≤ now)
    (hrow : t.select row.requestId = some row) :
    t'.select row.requestId = some row ∨
      ∀ row', t'.select row.requestId = some row' → row'.expiresAt.time ≠ row.expiresAt.time := by
  induction h with
  | refl => exact .inl hrow
  | tail _ hstep ih =>
    rcases ih with hkept | hother
    · rcases statement_single hstep ha hkept with hkept | hnone
      · exact .inl hkept
      · exact .inr fun row' hrow' => by simp [hnone] at hrow'
    · exact .inr (statement_other hstep hle hother)

theorem retained_step {label : Cipher × StoreCall}
    (hlr : settings.requestMaxLifetimeSeconds ≤ settings.tombstoneRetentionSeconds)
    (h : PolicedStep settings s label s') (hi : PolicedInvariant settings s)
    (ha : row.state = .acknowledged) (hr : Retained row s) : Retained row s' := by
  have hstatements := statements_step h.effect
  unfold Retained
  rw [h.clock]
  rcases hr with hrow | ⟨hle, hother⟩
  · have htracked := (hi.tracked row (KeyedTable.mem_of_select hrow)).later h.monotone
    by_cases hlt : label.2.now < row.expiresAt.time
    · exact .inl (statements_young hstatements (isClosed_iff.mpr (.inl ha)) (tombstone_young hlr htracked ha hlt) hrow)
    · rw [not_lt] at hlt
      rcases statements_retained hstatements ha hlt hrow with hkept | hother
      · exact .inl hkept
      · exact .inr ⟨hlt, hother⟩
  · have hle := hle.trans h.monotone
    exact .inr ⟨hle, statements_other hstatements hle hother⟩

/-- An acknowledged row of a store reached by policed calls. -/
structure AcknowledgedIn (settings : Settings) (s : PolicedStore) (row : Row) : Prop where
  reached : Reachable (fun s => s.db = Database.empty) (PolicedStep settings) s
  found : s.db.requests.select row.requestId = some row
  state : row.state = .acknowledged

/-- A tombstone outlives its request: on every run from an acknowledgement the row is kept until
its expiry and is the only one of that expiry ever after, and an exact repeat of the request is
answered from it or refused as expired. -/
structure TombstoneOutlives (settings : Settings) : Prop where
  kept : ∀ s row labels s', AcknowledgedIn settings s row → Run (PolicedStep settings) s labels s' →
    s'.clock < row.expiresAt.time → s'.db.requests.select row.requestId = some row
  single : ∀ s row labels s' row', AcknowledgedIn settings s row →
    Run (PolicedStep settings) s labels s' → s'.db.requests.select row.requestId = some row' →
    row'.expiresAt.time = row.expiresAt.time → row' = row
  answered : ∀ s row labels s' cipher credential request first now maximum,
    AcknowledgedIn settings s row → Run (PolicedStep settings) s labels s' → s'.clock ≤ now →
    request.requestId = row.requestId → request.requestExpiresAt = row.expiresAt →
    credential.identityHash = row.credentialHash → first ≤ now →
    validatePolicy settings credential request first = .ok () →
    maximumExpiry settings now = some maximum →
    (inferStored settings cipher credential request row.requestDigest now s'.db).1 =
      if now < row.expiresAt.time then fail "unknown_request" false 410
      else fail "request_expired" false 409

/-- While the request lives, an exact repeat finds the tombstone. -/
theorem admit_tombstone
    (hlr : settings.requestMaxLifetimeSeconds ≤ settings.tombstoneRetentionSeconds)
    (hi : PolicedInvariant settings s) (ha : row.state = .acknowledged) (hle : s.clock ≤ now)
    (hlt : now < row.expiresAt.time) (hrow : s.db.requests.select row.requestId = some row)
    {request : InferenceRequest} (hid : request.requestId = row.requestId) :
    ∃ t', admitRequest settings.store now request row.credentialHash row.requestDigest s.db.requests =
      .ok (row.record, t') := by
  have hmem := KeyedTable.mem_of_select hrow
  obtain ⟨d, hd⟩ := hi.cutoff (List.ne_nil_of_mem hmem)
  have hretention : -settings.tombstoneRetentionSeconds ≤ 0 := by
    have := settings.retention_range
    omega
  obtain ⟨cutoff, hcutoff⟩ := addSeconds_later hretention hd hle
  have hclean : cleanup settings.store now s.db.requests =
      .ok (purge cutoff (expireDue now s.db.requests)) := cleanup_eq_ok.mpr ⟨cutoff, hcutoff, rfl⟩
  have hyoung := tombstone_young hlr ((hi.tracked row hmem).later hle) ha hlt
  have hstatements : Statements settings.store now (fun _ => False) _ _ := statements_cleanup hclean
  have hkept := statements_young hstatements
    (isClosed_iff.mpr (.inl ha)) hyoung hrow
  have hauth : authorizeExisting row.record row.credentialHash (some row.requestDigest) = .ok () :=
    authorizeExisting_ok.mpr ⟨rfl, fun d hd => Option.some.inj hd⟩
  rw [← hid] at hkept
  rw [admit_retained hclean hkept, hauth]
  exact ⟨_, rfl⟩

theorem maximumExpiry_covers {request : InferenceRequest} {credential : Credential}
    {first maximum : Datetime} (h : validatePolicy settings credential request first = .ok ())
    (hle : first ≤ now) (hmaximum : maximumExpiry settings now = some maximum) :
    request.expiresAt ≤ maximum := by
  have hhorizon := (policy_horizon h).trans (horizon_mono hle)
  obtain ⟨hseconds, hmicro⟩ := maximumExpiry_seconds hmaximum
  have hexpiry := expiry_microsecond request.requestExpiresAt
  rw [horizon, ← hseconds] at hhorizon
  rw [← Datetime.absolute_le_iff, Datetime.absolute_eq, Datetime.absolute_eq maximum, hmicro]
  have : request.expiresAt.microsecond = 0 := hexpiry
  omega

theorem tombstoneOutlives_of_le
    (hlr : settings.requestMaxLifetimeSeconds ≤ settings.tombstoneRetentionSeconds) :
    TombstoneOutlives settings := by
  have hinvariant : ∀ {s}, Reachable (fun s => s.db = Database.empty) (PolicedStep settings) s →
      PolicedInvariant settings s := fun h =>
    Transition.reachable_invariant (P := PolicedInvariant settings)
      (fun _ => policedInvariant_initial) (fun _ _ _ => policedInvariant_step) h
  have hrun : ∀ {s row labels s'}, AcknowledgedIn settings s row →
      Run (PolicedStep settings) s labels s' → PolicedInvariant settings s' ∧ Retained row s' := by
    intro s row labels s' ha h
    refine h.invariant (P := fun s => PolicedInvariant settings s ∧ Retained row s) ?_
      ⟨hinvariant ha.reached, .inl ha.found⟩
    exact fun s label s' hstep hi =>
      ⟨policedInvariant_step hstep hi.1, retained_step hlr hstep hi.1 ha.state hi.2⟩
  have hkept : ∀ {s row labels s'}, AcknowledgedIn settings s row →
      Run (PolicedStep settings) s labels s' → s'.clock < row.expiresAt.time →
      s'.db.requests.select row.requestId = some row := by
    intro s row labels s' ha h hlt
    exact (hrun ha h).2.resolve_right fun hexpired => absurd hexpired.1 (not_le.mpr hlt)
  constructor
  · exact fun _ _ _ _ ha h => hkept ha h
  · intro s row labels s' row' ha h hrow' hexpiry
    rcases (hrun ha h).2 with hrow | ⟨-, hother⟩
    · exact Option.some.inj (hrow'.symm.trans hrow)
    · exact absurd hexpiry (hother row' hrow')
  · intro s row labels s' cipher credential request first now maximum ha h hle hid hexpires hcred
      hfirst hpolicy hmaximum
    have htime : request.expiresAt = row.expiresAt.time := congrArg Expiry.time hexpires
    split_ifs with hlt
    · have hrow := hkept ha h (hle.trans_lt hlt)
      have hagain := validatePolicy_again hpolicy (htime ▸ hlt) hmaximum
        (maximumExpiry_covers hpolicy hfirst hmaximum)
      obtain ⟨t', hadmit⟩ := admit_tombstone hlr (hrun ha h).1 ha.state hle hlt hrow hid
      have hversion : s'.db.version ≠ none := by
        intro hv
        rw [s'.db.created hv] at hrow
        simp at hrow
      obtain ⟨version, hversion⟩ := Option.ne_none_iff_exists'.mp hversion
      simp only [inferStored, hagain, transaction, hversion, hcred, hadmit, existingResponse,
        Row.record, ha.state]
      rfl
    · have hexpired : validatePolicy settings credential request now = _ :=
        validatePolicy_expired hpolicy (htime ▸ not_lt.mp hlt)
      simp only [inferStored, hexpired]
      rfl

end Gateway
