import Gateway.Service.Outlives

/-! A retention shorter than the lifetime: the tombstone goes while its request still lives. -/
namespace Gateway

open Transition (Run Reachable)

variable {settings : Settings} {cipher : Cipher} {now early : Datetime} {t : Table} {row : Row}
variable {s : PolicedStore} {k : Str}

/-- The state after a call that SQLite lets through. -/
def PolicedStore.after (settings : Settings) (s : PolicedStore) (label : Cipher × StoreCall) :
    PolicedStore :=
  ⟨(label.2.run settings.store label.1 s.db).2, label.2.now⟩

theorem policedStep_after {label : Cipher × StoreCall} (monotone : s.clock ≤ label.2.now)
    (policy : ∀ request, label.2.Admits request →
      ∃ credential, validatePolicy settings credential request label.2.now = .ok ()) :
    PolicedStep settings s label (s.after settings label) :=
  ⟨monotone, rfl, policy, .inl rfl⟩

/-- What is neither due nor old survives a cleanup. -/
theorem cleanup_keeps {settings : StoreSettings} {cutoff : Datetime}
    (hcutoff : now.addSeconds (-settings.tombstoneRetentionSeconds) = some cutoff)
    (hrow : t.select k = some row) (hopen : row.isClosed = false) (hdue : row.isDue now = false) :
    ∃ t', cleanup settings now t = .ok t' ∧ t'.select k = some row := by
  refine ⟨_, cleanup_eq_ok.mpr ⟨cutoff, hcutoff, rfl⟩, ?_⟩
  rw [select_purge, select_expireDue, hrow]
  simp [hdue, hopen, Option.filter]

/-! The moments of the run. -/

/-- Half a second after the sample request expires. -/
def halfPastExpiry : Datetime := sampleMoment 18 5 0 500000

/-- Half a second before. -/
def halfToExpiry : Datetime := sampleMoment 18 4 59 500000

theorem halfPastExpiry_absolute : halfPastExpiry.absolute = 63924660300500000 := by decide

theorem expiry_seconds : sampleExpiry.time.seconds = 63924660300 ∧
    halfPastExpiry.seconds = 63924660300 ∧ halfToExpiry.seconds = 63924660299 := by
  decide

section Early

variable (hearly : halfPastExpiry.addSeconds (-(settings.requestMaxLifetimeSeconds + 1)) = some early)
include hearly

theorem early_facts : early.seconds = 63924660299 - settings.requestMaxLifetimeSeconds ∧
    early.microsecond = 500000 ∧ early < sampleExpiry.time ∧ early ≤ halfToExpiry := by
  obtain ⟨hseconds, hmicro⟩ := Datetime.addSeconds_seconds hearly
  obtain ⟨hexpiry, hpast, hto⟩ := expiry_seconds
  have hlifetime := settings.lifetime_range.1
  rw [hpast] at hseconds
  have hhalf : halfPastExpiry.microsecond = 500000 := rfl
  rw [hhalf] at hmicro
  refine ⟨by linarith, hmicro, Datetime.lt_of_seconds ?_, (Datetime.lt_of_seconds ?_).le⟩
  · rw [hexpiry]
    omega
  · rw [hto]
    omega

theorem early_cutoff :
    ∃ cutoff, early.addSeconds (-settings.tombstoneRetentionSeconds) = some cutoff := by
  have habs := Datetime.addSeconds_eq_some hearly
  rw [halfPastExpiry_absolute] at habs
  have hlifetime := settings.lifetime_range
  have hretention := settings.retention_range
  have hlimit : Datetime.dayLimit = 3652059 := rfl
  exact Datetime.exists_addSeconds (by omega) (by omega)

theorem early_maximum : ∃ maximum, maximumExpiry settings early = some maximum := by
  have habs := Datetime.addSeconds_eq_some hearly
  rw [halfPastExpiry_absolute] at habs
  have hlifetime := settings.lifetime_range
  have hlimit : Datetime.dayLimit = 3652059 := rfl
  have hfirst : ∃ sum, early.addSeconds settings.requestMaxLifetimeSeconds = some sum :=
    Datetime.exists_addSeconds (by omega) (by omega)
  obtain ⟨sum, hsum⟩ := hfirst
  have hsum' := Datetime.addSeconds_eq_some hsum
  have hfloor := Datetime.absolute_eq sum
  have hmicro := sum.time_range.2.2.2
  have hround := Datetime.replaceMicrosecond_absolute sum
  have hnext : ∃ next, sum.replaceMicrosecond.addSeconds 1 = some next :=
    Datetime.exists_addSeconds (by omega) (by omega)
  obtain ⟨next, hnext⟩ := hnext
  unfold maximumExpiry
  rw [hsum]
  by_cases hzero : sum.microsecond ≠ 0
  · exact ⟨next, (if_pos hzero).trans hnext⟩
  · exact ⟨sum, if_neg hzero⟩

def sampleCredential : Credential := ⟨str "c1", [(str "document.summary.step", 1)]⟩

theorem early_policy :
    validatePolicy settings sampleCredential (sampleRequest false) early = .ok () := by
  obtain ⟨hseconds, hmicro, hlt, -⟩ := early_facts hearly
  obtain ⟨maximum, hmaximum⟩ := early_maximum hearly
  obtain ⟨hmaxseconds, hmaxmicro⟩ := maximumExpiry_seconds hmaximum
  rw [if_neg (by omega)] at hmaxseconds
  have hle : sampleExpiry.time ≤ maximum := by
    rw [← Datetime.absolute_le_iff, Datetime.absolute_eq, Datetime.absolute_eq maximum, hmaxmicro,
      expiry_seconds.1]
    have : sampleExpiry.time.microsecond = 0 := rfl
    omega
  have hpolicy : taskPolicy? (sampleRequest false).taskKey =
      some ⟨⟨false, 0, -1⟩, documentMaxOutputTokens, true, false⟩ := by rfl
  have htemperature : (sampleRequest false).generation.temperature.toRat =
      (⟨false, 0, -1⟩ : Decimal).toRat := by
    simp [sampleRequest, Decimal.toRat, Decimal.magnitude]
  simp only [validatePolicy, hpolicy, hmaximum]
  rw [if_neg (by decide), if_neg (show ¬ (sampleRequest false).expiresAt ≤ early from not_le.mpr hlt),
    if_neg (show ¬ maximum < (sampleRequest false).expiresAt from not_lt.mpr hle),
    if_neg (not_not.mpr htemperature), if_neg (by decide), if_neg (by decide), if_neg (by decide)]

theorem early_notDue (h : row.expiresAt = sampleExpiry) : row.isDue early = false := by
  have hlt := (early_facts hearly).2.2.1
  rw [Row.isDue, h, decide_eq_false_iff_not, timestamp,
    Datetime.utf8_le_strftime_iff sampleExpiry.parses (by decide)]
  exact not_le.mpr hlt

/-! The run: started, admitted, dispatched, completed and acknowledged at one moment. -/

def earlyReserved (early : Datetime) : Row :=
  reservedRow (sampleRequest false) (str "c1") (str "d1") early

def earlyCompleted (early : Datetime) : Row :=
  ((earlyReserved early).mark (str "a1") early).complete (str "application/json") [0] (str "x")
    (str "gateway-1") 2 early

def earlyAcknowledged (early : Datetime) : Row :=
  (earlyCompleted early).acknowledge (str "accepted") early

def earlyCalls (early : Datetime) : List (Cipher × StoreCall) :=
  [(plainCipher, .initializeStore early),
    (plainCipher, .admitRequest (sampleRequest false) (str "c1") (str "d1") early),
    (plainCipher, .markInProgress (sampleRequest false).requestId (str "a1") early),
    (plainCipher, .complete [0] (sampleRequest false).requestId (str "a1") (str "application/json")
      (str "x") (str "gateway-1") 2 early),
    (plainCipher, .acknowledge (sampleRequest false).requestId (str "c1") (str "accepted") early)]

/-- What a state of the run has stored. -/
structure Stores (early : Datetime) (s : PolicedStore) (row : Row) : Prop where
  clock : s.clock = early
  version : s.db.version = some schemaVersion
  found : s.db.requests.select (sampleRequest false).requestId = some row

theorem early_started : ∃ s, PolicedStep settings ⟨Database.empty, early⟩
    (plainCipher, .initializeStore early) s ∧ s.clock = early ∧
      s.db.version = some schemaVersion ∧ s.db.requests.rows = [] := by
  obtain ⟨cutoff, hcutoff⟩ := early_cutoff hearly
  have hrecover : recover settings.store early KeyedTable.empty =
      .ok (purge cutoff (expireDue early _)) := cleanup_eq_ok.mpr ⟨cutoff, hcutoff, rfl⟩
  refine ⟨_, policedStep_after le_rfl fun _ h => h.elim, rfl, ?_, ?_⟩ <;>
    simp only [PolicedStore.after, StoreCall.run, initializeStore, Database.empty, hrecover] <;> rfl

theorem early_admitted (hclock : s.clock = early) (hversion : s.db.version = some schemaVersion)
    (hrows : s.db.requests.rows = []) :
    ∃ s', PolicedStep settings s
      (plainCipher, .admitRequest (sampleRequest false) (str "c1") (str "d1") early) s' ∧
        Stores early s' (earlyReserved early) := by
  obtain ⟨cutoff, hcutoff⟩ := early_cutoff hearly
  obtain ⟨hone, hle, -⟩ := settings.limits_range
  let clean := purge cutoff (expireDue early s.db.requests)
  have hclean : cleanup settings.store early s.db.requests = .ok clean :=
    cleanup_eq_ok.mpr ⟨cutoff, hcutoff, rfl⟩
  have hempty : clean.rows = [] := by
    simp [clean, purge, expireDue, KeyedTable.delete, KeyedTable.update, hrows]
  have hnone : clean.select (sampleRequest false).requestId = none := by
    rw [KeyedTable.select, hempty]
    rfl
  have hcount : ∀ p : Row → Bool, clean.count p = 0 := by
    intro p
    rw [KeyedTable.count, hempty]
    rfl
  have hlive : ¬ (sampleRequest false).expiresAt ≤ early := not_le.mpr (early_facts hearly).2.2.1
  have hroom : ¬ (settings.store.maxOpenTotal ≤ openTotal clean ∨
      settings.store.maxOpenPerCredential ≤ openPerCredential clean (str "c1")) := by
    simp only [openTotal, openPerCredential, hcount, Settings.store]
    omega
  have hadmit : admitRequest settings.store early (sampleRequest false) (str "c1") (str "d1") _ = _ :=
    admit_new hclean hnone
  rw [if_neg hlive, if_neg hroom] at hadmit
  obtain ⟨hversion', hrequests⟩ := outcome_ok hversion hadmit
  refine ⟨_, policedStep_after hclock.le ?_, rfl, hversion', ?_⟩
  · rintro request rfl
    exact ⟨sampleCredential, early_policy hearly⟩
  · simp only [PolicedStore.after, StoreCall.run]
    rw [hrequests, select_reserved hnone]
    exact if_pos rfl

/-- A row of the run that is still open is there after a cleanup at the same moment. -/
theorem early_cleaned (h : Stores early s row) (hopen : row.isClosed = false)
    (hexpires : row.expiresAt = sampleExpiry) :
    ∃ t', cleanup settings.store early s.db.requests = .ok t' ∧
      t'.select (sampleRequest false).requestId = some row := by
  obtain ⟨cutoff, hcutoff⟩ := early_cutoff hearly
  exact cleanup_keeps hcutoff h.found hopen (early_notDue hearly hexpires)

theorem early_marked (h : Stores early s (earlyReserved early)) :
    ∃ s', PolicedStep settings s
      (plainCipher, .markInProgress (sampleRequest false).requestId (str "a1") early) s' ∧
        Stores early s' ((earlyReserved early).mark (str "a1") early) := by
  obtain ⟨t₁, hclean, hrow⟩ := early_cleaned hearly h rfl rfl
  have hmarks : ∃ t', markInProgress settings.store early _ (str "a1") _ = _ ∧ _ :=
    markInProgress_reserved hclean hrow rfl
  obtain ⟨t', hmark, hselect⟩ := hmarks
  obtain ⟨hversion, hrequests⟩ := outcome_ok h.version hmark
  refine ⟨_, policedStep_after h.clock.le fun _ h => h.elim, rfl, hversion, ?_⟩
  simp only [PolicedStore.after, StoreCall.run]
  rw [hrequests, hselect, if_pos rfl]

theorem early_completed (h : Stores early s ((earlyReserved early).mark (str "a1") early)) :
    ∃ s', PolicedStep settings s
      (plainCipher, .complete [0] (sampleRequest false).requestId (str "a1")
        (str "application/json") (str "x") (str "gateway-1") 2 early) s' ∧
          Stores early s' (earlyCompleted early) := by
  obtain ⟨t₁, hclean, hrow⟩ := early_cleaned hearly h rfl rfl
  have hcompletes : ∃ t', complete settings.store early plainCipher [0] _ _ (str "application/json")
      (str "x") (str "gateway-1") 2 _ = _ ∧ _ :=
    complete_attempt hclean hrow rfl rfl (by rfl) (by decide) (by norm_num)
  obtain ⟨t', hcomplete, hselect⟩ := hcompletes
  obtain ⟨hversion, hrequests⟩ := outcome_ok h.version hcomplete
  refine ⟨_, policedStep_after h.clock.le fun _ h => h.elim, rfl, hversion, ?_⟩
  simp only [PolicedStore.after, StoreCall.run]
  rw [hrequests, hselect, if_pos rfl]
  rfl

theorem early_acknowledged (h : Stores early s (earlyCompleted early)) :
    ∃ s', PolicedStep settings s
      (plainCipher, .acknowledge (sampleRequest false).requestId (str "c1") (str "accepted") early)
        s' ∧ Stores early s' (earlyAcknowledged early) := by
  obtain ⟨t₁, hclean, hrow⟩ := early_cleaned hearly h rfl rfl
  have hacknowledges : ∃ t', acknowledge settings.store early _ (str "c1") (str "accepted") _ = _ ∧ _ :=
    acknowledge_completed hclean hrow rfl rfl
  obtain ⟨t', hacknowledge, hselect⟩ := hacknowledges
  obtain ⟨hversion, hrequests⟩ := outcome_ok h.version hacknowledge
  refine ⟨_, policedStep_after h.clock.le fun _ h => h.elim, rfl, hversion, ?_⟩
  simp only [PolicedStore.after, StoreCall.run]
  rw [hrequests, hselect, if_pos rfl]
  rfl

theorem early_run : ∃ s, AcknowledgedIn settings s (earlyAcknowledged early) ∧ s.clock = early ∧
    s.db.version = some schemaVersion := by
  obtain ⟨s₁, h₁, hclock, hversion, hrows⟩ := early_started hearly
  obtain ⟨s₂, h₂, hs₂⟩ := early_admitted hearly hclock hversion hrows
  obtain ⟨s₃, h₃, hs₃⟩ := early_marked hearly hs₂
  obtain ⟨s₄, h₄, hs₄⟩ := early_completed hearly hs₃
  obtain ⟨s₅, h₅, hs₅⟩ := early_acknowledged hearly hs₄
  refine ⟨s₅, ⟨⟨⟨Database.empty, early⟩, earlyCalls early, rfl, ?_⟩, hs₅.found, rfl⟩, hs₅.clock, hs₅.version⟩
  exact .stepL h₁ (.stepL h₂ (.stepL h₃ (.stepL h₄ (.single h₅))))

end Early

/-- With a shorter retention, maintenance removes the tombstone half a second before the expiry. -/
theorem not_outlives_of_lt
    (hrl : settings.tombstoneRetentionSeconds < settings.requestMaxLifetimeSeconds) :
    ¬ TombstoneOutlives settings := by
  intro houtlives
  have hlifetime := settings.lifetime_range
  have hlimit : Datetime.dayLimit = 3652059 := rfl
  have hexists : ∃ early,
      halfPastExpiry.addSeconds (-(settings.requestMaxLifetimeSeconds + 1)) = some early :=
    Datetime.exists_addSeconds (by rw [halfPastExpiry_absolute]; omega)
      (by rw [halfPastExpiry_absolute]; omega)
  obtain ⟨early, hearly⟩ := hexists
  obtain ⟨hseconds, -, -, hle⟩ := early_facts hearly
  obtain ⟨s, hs, hclock, hversion⟩ := early_run hearly
  have hexpiry : halfToExpiry < (earlyAcknowledged early).expiresAt.time := by
    show halfToExpiry < sampleExpiry.time
    decide
  obtain ⟨d, hd⟩ := early_cutoff hearly
  have hretention : -settings.tombstoneRetentionSeconds ≤ 0 := by
    have := settings.retention_range
    omega
  obtain ⟨cutoff, hcutoff⟩ := addSeconds_later hretention hd hle
  have hclean : cleanup settings.store halfToExpiry s.db.requests =
      .ok (purge cutoff (expireDue halfToExpiry s.db.requests)) :=
    cleanup_eq_ok.mpr ⟨cutoff, hcutoff, rfl⟩
  have hstep : PolicedStep settings s (plainCipher, .maintain halfToExpiry) _ :=
    policedStep_after (hclock.trans_le hle) fun _ h => h.elim
  have hkept := houtlives.kept s _ _ _ hs (.single hstep) hexpiry
  have hold : utf8 (timestamp early) < utf8 (timestamp cutoff) := by
    have hcut := (Datetime.addSeconds_seconds hcutoff).1
    rw [expiry_seconds.2.2] at hcut
    rw [← not_le, utf8_le_iff, timestamp, timestamp, Datetime.strftime_le_iff, not_le,
      ← Datetime.seconds_lt_iff]
    linarith
  have hfound := hs.found
  simp only [PolicedStore.after, StoreCall.run] at hkept
  rw [(outcome_ok hversion (maintain_eq hclean)).2, select_purge, select_expireDue, hfound] at hkept
  simp [earlyAcknowledged, Row.acknowledge, Row.isClosed, hold, Option.filter] at hkept

/-- A tombstone outlives its request exactly when it is retained for the lifetime at least. -/
theorem tombstone_outlives : TombstoneOutlives settings ↔
    settings.requestMaxLifetimeSeconds ≤ settings.tombstoneRetentionSeconds :=
  ⟨fun h => not_lt.mp fun hlt => not_outlives_of_lt hlt h, tombstoneOutlives_of_le⟩

/-- A quarter of an hour to live, a minute to be remembered. -/
def shortRetention : Settings where
  deploymentId := str "gateway-1"
  requestMaxLifetimeSeconds := 900
  retryAfterSeconds := 5
  maxOpenTotal := 8
  maxOpenPerCredential := 4
  tombstoneRetentionSeconds := 60
  deploymentId_length := by decide
  lifetime_range := by decide
  retryAfter_range := by decide
  limits_range := by decide
  retention_range := by decide

/-- Acknowledged at 18:00, then sent again at `now`. -/
def repeatedAdmit (now : Datetime) : Except Raised RequestState := do
  let id := (sampleRequest false).requestId
  let six := sampleNow 18
  let store := shortRetention.store
  let (_, t) ← admitRequest store six (sampleRequest false) (str "c1") (str "d1") KeyedTable.empty
  let (_, t) ← markInProgress store six id (str "a1") t
  let (_, t) ← complete store six plainCipher [0] id (str "a1") (str "application/json") (str "x")
    (str "gateway-1") 2 t
  let (_, t) ← acknowledge store six id (str "c1") (str "accepted") t
  let (record, _) ← admitRequest store now (sampleRequest false) (str "c1") (str "d1") t
  return record.state

/-- The tombstone is gone before the expiry of 18:05, and the repeat is reserved again. -/
theorem short_retention_reserves : ¬ TombstoneOutlives shortRetention ∧
    halfToExpiry < (sampleRequest false).expiresAt ∧
    (repeatedAdmit halfToExpiry).toOption = some .reserved :=
  ⟨not_outlives_of_lt (by decide), by decide, by decide⟩

end Gateway
