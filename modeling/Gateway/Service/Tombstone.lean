import Gateway.Service.Policy
import Gateway.Store.Effects
import Gateway.Store.Expired

/-! The tombstone of an acknowledged request against the request's own expiry. -/
namespace Gateway

open Transition (Run Reachable)

variable {settings : Settings} {cipher : Cipher} {now now' : Datetime} {t t' : Table} {row : Row}
variable {admits : InferenceRequest → Prop} {k : Str}

/-- The file and the clock. -/
structure PolicedStore where
  db : Database
  clock : Datetime

/-- A call no earlier than the one before; what it is to admit has passed the policy at its time. -/
structure PolicedStep (settings : Settings) (s : PolicedStore) (label : Cipher × StoreCall)
    (s' : PolicedStore) : Prop where
  monotone : s.clock ≤ label.2.now
  clock : s'.clock = label.2.now
  policy : ∀ request, label.2.Admits request →
    ∃ credential, validatePolicy settings credential request label.2.now = .ok ()
  effect : StoreStep settings.store label.1 s.db label.2 s'.db

/-- The latest second at which a request that passes the policy now expires. -/
def horizon (settings : Settings) (now : Datetime) : ℤ :=
  now.seconds + settings.requestMaxLifetimeSeconds + if now.microsecond = 0 then 0 else 1

theorem seconds_mono (h : now ≤ now') : now.seconds ≤ now'.seconds :=
  Int.ediv_le_ediv (by norm_num) (Datetime.absolute_le_iff.mpr h)

theorem horizon_mono (h : now ≤ now') : horizon settings now ≤ horizon settings now' := by
  have habs := Datetime.absolute_le_iff.mpr h
  rw [Datetime.absolute_eq, Datetime.absolute_eq] at habs
  have hn := now.time_range.2.2.2
  have hl := now'.time_range.2.2.2
  unfold horizon
  split_ifs <;> omega

theorem expiry_microsecond (e : Expiry) : e.time.microsecond = 0 :=
  (Datetime.strptime_eq_some e.parses).2

/-- Before an expiry the clock is at least a whole second short of it. -/
theorem seconds_lt_expiry {e : Expiry} (h : now < e.time) : now.seconds < e.time.seconds := by
  have habs := Datetime.absolute_lt_iff.mpr h
  rw [Datetime.absolute_eq, Datetime.absolute_eq, expiry_microsecond] at habs
  omega

theorem policy_horizon {credential : Credential} {request : InferenceRequest}
    (h : validatePolicy settings credential request now = .ok ()) :
    request.expiresAt.seconds ≤ horizon settings now := by
  obtain ⟨-, -, -, maximum, hmaximum, hle⟩ := validatePolicy_ok h
  rw [horizon, ← (maximumExpiry_seconds hmaximum).1]
  exact seconds_mono hle

/-- What the clock says of a row: it expires within the lifetime, and a tombstone was left at its
acknowledgement. -/
structure Tracked (settings : Settings) (now : Datetime) (row : Row) : Prop where
  covered : row.expiresAt.time.seconds ≤ horizon settings now
  tombstone : row.state = .acknowledged → ∃ acknowledged ≤ now,
    row.updatedAt = timestamp acknowledged ∧
      row.expiresAt.time.seconds ≤ horizon settings acknowledged

theorem Tracked.later (h : Tracked settings now row) (hle : now ≤ now') :
    Tracked settings now' row := by
  refine ⟨h.covered.trans (horizon_mono hle), fun ha => ?_⟩
  obtain ⟨at', hat, hupdated, hexpires⟩ := h.tombstone ha
  exact ⟨at', hat.trans hle, hupdated, hexpires⟩

/-- Only an acknowledgement leaves a row acknowledged, and it leaves the time. -/
theorem rowEdge_acknowledged {row' : Row} (h : RowEdge now row row')
    (ha : row'.state = .acknowledged) : row'.updatedAt = timestamp now := by
  cases h <;> simp_all [Row.expire, Row.acknowledge]

theorem statement_tracked (h : Statement settings.store now admits t t')
    (hp : ∀ request, admits request →
      ∃ credential, validatePolicy settings credential request now = .ok ())
    (hi : ∀ row ∈ t.rows, Tracked settings now row) : ∀ row ∈ t'.rows, Tracked settings now row := by
  intro row hrow
  cases h with
  | update hedge =>
    rcases mem_update hrow with ⟨r, hr, hmatch, rfl⟩ | hr
    · have hid := (rowEdge_identity (hedge r hmatch)).expiresAt
      have hcovered := (hi r hr).covered
      rw [hid] at hcovered
      exact ⟨hcovered, fun ha =>
        ⟨now, le_rfl, rowEdge_acknowledged (hedge r hmatch) ha, hcovered⟩⟩
    · exact hi row hr
  | delete _ _ => exact hi row (List.mem_filter.mp hrow).1
  | insert _ hadmits _ _ _ =>
    rcases List.mem_cons.mp hrow with rfl | hr
    · obtain ⟨credential, hpolicy⟩ := hp _ hadmits
      exact ⟨policy_horizon hpolicy, fun ha => by simp [reservedRow] at ha⟩
    · exact hi row hr

theorem statements_tracked (h : Statements settings.store now admits t t')
    (hp : ∀ request, admits request →
      ∃ credential, validatePolicy settings credential request now = .ok ())
    (hi : ∀ row ∈ t.rows, Tracked settings now row) : ∀ row ∈ t'.rows, Tracked settings now row := by
  induction h with
  | refl => exact hi
  | tail _ hstep ih => exact statement_tracked hstep hp ih

/-- While the request lives, the cutoff does not reach its tombstone. -/
theorem tombstone_young
    (hlr : settings.requestMaxLifetimeSeconds ≤ settings.tombstoneRetentionSeconds)
    (hi : Tracked settings now row) (ha : row.state = .acknowledged)
    (hlt : now < row.expiresAt.time) : Young settings.store now row := by
  intro cutoff hcutoff
  obtain ⟨acknowledged, -, hupdated, hexpires⟩ := hi.tombstone ha
  have hshort := seconds_lt_expiry hlt
  have hcut : cutoff.seconds = now.seconds + -settings.tombstoneRetentionSeconds :=
    (Datetime.addSeconds_seconds hcutoff).1
  rw [hupdated, not_lt, utf8_le_iff, timestamp, timestamp, Datetime.strftime_le_iff, ← not_lt,
    ← Datetime.seconds_lt_iff]
  unfold horizon at hexpires
  split_ifs at hexpires <;> omega

end Gateway
