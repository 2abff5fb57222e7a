import Gateway.Service.AtMostOnce
import Gateway.Service.Refusals

/-! Rows in progress: who attends to each, in every state of the running service. -/
namespace Gateway

open Template (Ascii)
open Transition (Reachable)

variable {cipher : Cipher} {sha256 : Bytes → Str} {checkSchema : Json → Bool} {s t : GatewayService}
variable {call call' : InferCall} {c c' : ℕ} {pc pc' : Pc} {action : Action} {db : Database}
variable {active : Option ActiveAttempt} {now : Datetime} {e : Event} {k attemptId : Str}
variable {row : Row} {record : RequestRecord}

/-- The request is one of the contract, under the digest of its canonical bytes, and what is about to
be stored for it can be encoded. -/
structure InferCall.Genuine (checkSchema : Json → Bool) (sha256 : Bytes → Str) (call : InferCall) :
    Prop where
  request : call.request.Accepted checkSchema
  owner : Ascii call.credential.identityHash
  digest : call.request.canonicalDigest sha256 = .ok call.digest
  content : ∀ attemptId result, call.pc = .settling attemptId (.ok result) → result.Encodes
  admitted : ∀ record, call.pc = .admitted record → record.requestId = call.request.requestId

/-- What every state of a running service keeps. -/
structure GatewayService.Intact (checkSchema : Json → Bool) (sha256 : Bytes → Str)
    (s : GatewayService) : Prop where
  opened : ∃ d, s.Opened d
  policyVersion : 1 ≤ s.taskPolicyVersion
  lane : LaneHeld s
  named : ∀ attempt call, s.active = some attempt → s.calls attempt.owner = some call →
    attempt.requestId = call.request.requestId
  rows : Rows (fun row => AsciiIdentity row ∧ Dated checkSchema sha256 row.identity row.expiresAt.time)
    s.db.requests
  calls : ∀ c call, s.calls c = some call → call.Genuine checkSchema sha256

/-! One step of a call. -/

theorem after_calls (hget : (s.after c call pc db active).calls c' = some call') :
    c' = c ∧ call' = { call with since := s.clock, pc := pc } ∨ c' ≠ c ∧ s.calls c' = some call' := by
  by_cases hc : c' = c
  · subst hc
    rw [after_self] at hget
    exact .inl ⟨rfl, (Option.some.inj hget).symm⟩
  · rw [after_other hc] at hget
    exact .inr ⟨hc, hget⟩

/-- An outcome that is settled is the one the worker has just had. -/
theorem CallStep.settling {outcome : Except WorkerRaised WorkerResult}
    (h : CallStep cipher s call c pc action (.settling attemptId outcome) db active) :
    pc = .dispatched attemptId ∧ action = .outcome outcome := by
  have hattempting : (Pc.settling attemptId outcome).Attempting attemptId := .inr (.inr ⟨outcome, rfl⟩)
  rcases h.attempting hattempting with ⟨-, he, -⟩ | ⟨-, he, -⟩ | ⟨rfl, -, -⟩
  · cases he
  · cases he
  · refine ⟨rfl, ?_⟩
    generalize hpc' : Pc.settling attemptId outcome = pc' at h
    cases h with
    | late a now r hat hexpired hr => rcases hat with ⟨he, -⟩ | ⟨he, -⟩ <;> cases he
    | outcome a outcome' =>
      obtain ⟨-, rfl⟩ := Pc.settling.inj hpc'
      rfl

theorem ownerStep_not_admitted {α : Type} {next : α → Pc} {result : Except Raised α}
    (h : ∀ x, next x ≠ .admitted record) : ownerStep attemptId next result ≠ .admitted record := by
  unfold ownerStep
  split
  · exact h _
  · split_ifs <;> simp

/-- An admitted record is that of the request. -/
theorem CallStep.admittedRecord (h : CallStep cipher s call c pc action (.admitted record) db active) :
    record.requestId = call.request.requestId := by
  generalize hpc' : Pc.admitted record = pc' at h
  cases h with
  | policy now =>
    cases hp : validatePolicy s.settings call.credential call.request now <;>
      simp [hp, afterPolicy] at hpc'
  | admission now r hr =>
    obtain ⟨result, db⟩ := r
    cases result with
    | error e => cases hpc'
    | ok record' =>
      obtain ⟨row, hrow, -, hrecord⟩ := admission_row hr
      have hsame : record' = record := by
        simp only [afterAdmission] at hpc'
        split at hpc'
        · cases hpc'
        · cases hpc'
        · exact (Pc.admitted.inj hpc').symm
      have hkey : row.requestId = call.request.requestId := KeyedTable.key_of_select hrow
      rw [← hsame, hrecord]
      exact hkey
  | lane record' attemptId =>
    unfold afterLane at hpc'
    repeat' split at hpc'
    all_goals cases hpc'
  | late attemptId now r hat hexpired hr =>
    exact (ownerStep_not_admitted (fun _ => by simp) hpc'.symm).elim
  | mark attemptId now r hlive hr => exact (ownerStep_not_admitted (fun _ => by simp) hpc'.symm).elim
  | close attemptId outcome now nonce r hr =>
    subst hr
    unfold InferCall.closing at hpc'
    split at hpc'
    · exact (ownerStep_not_admitted (fun done => by cases done <;> simp) hpc'.symm).elim
    all_goals exact (ownerStep_not_admitted (fun _ => by simp) hpc'.symm).elim
  | finish attemptId now r hr => exact (ownerStep_not_admitted (fun _ => by simp) hpc'.symm).elim
  | _ => cases hpc'

/-- The lane is claimed for the record that was admitted. -/
theorem CallStep.claims (h : CallStep cipher s call c pc action pc' db active) (hfree : s.active = none)
    {attempt : ActiveAttempt} (hactive : active = some attempt) :
    ∃ record, pc = .admitted record ∧ attempt = ⟨record.requestId, c⟩ := by
  cases h with
  | lane record attemptId =>
    rcases afterLane_cases s.settings s.active c record attemptId with ⟨-, -, hclaimed⟩ | ⟨-, hkept⟩
    · rw [hclaimed] at hactive
      exact ⟨record, rfl, (Option.some.inj hactive).symm⟩
    · rw [hkept, hfree] at hactive
      cases hactive
  | release result => cases hactive
  | _ => simp [hfree] at hactive

theorem genuine_act (hs : s.Intact checkSchema sha256) (hget : s.calls c = some call)
    (hstep : CallStep cipher s call c call.pc action pc db active)
    (hpromised : (Event.act c action).Promised checkSchema) :
    InferCall.Genuine checkSchema sha256 { call with since := s.clock, pc := pc } := by
  have hcall := hs.calls c call hget
  refine ⟨hcall.request, hcall.owner, hcall.digest, ?_, ?_⟩
  · rintro attemptId result rfl
    obtain ⟨-, rfl⟩ := hstep.settling
    obtain ⟨library, schema, document, hvalid⟩ := hpromised
    exact validatedResult_encodes hvalid
  · rintro record rfl
    exact hstep.admittedRecord

theorem intact_act (hs : s.Intact checkSchema sha256) (hget : s.calls c = some call)
    (hreads : ∀ now, action.now? = some now → call.since ≤ now ∧ now ≤ s.clock)
    (hstep : CallStep cipher s call c call.pc action pc db active)
    (hpromised : (Event.act c action).Promised checkSchema)
    (hrows : Rows (fun row => AsciiIdentity row ∧
      Dated checkSchema sha256 row.identity row.expiresAt.time) db.requests) :
    (s.after c call pc db active).Intact checkSchema sha256 := by
  obtain ⟨d, hopened⟩ := hs.opened
  refine ⟨⟨d, opened_act hopened hget hreads hstep⟩, hs.policyVersion, laneHeld_act hs.lane hget hstep,
    ?_, hrows, ?_⟩
  · intro attempt call' hactive hget'
    rcases hstep.lane_cases with ⟨hkept, -⟩ | ⟨hfree, -, -⟩ | ⟨-, -, hreleased⟩
    · have hbefore : s.active = some attempt := hkept.symm.trans hactive
      rcases after_calls hget' with ⟨hc, rfl⟩ | ⟨-, hget'⟩
      · exact hs.named attempt call hbefore (hc ▸ hget)
      · exact hs.named attempt call' hbefore hget'
    · obtain ⟨record, hpc, rfl⟩ := hstep.claims hfree hactive
      rcases after_calls hget' with ⟨-, rfl⟩ | ⟨hc, -⟩
      · exact (hs.calls c call hget).admitted record hpc
      · exact (hc rfl).elim
    · cases hreleased.symm.trans hactive
  · intro c' call' hget'
    rcases after_calls hget' with ⟨-, rfl⟩ | ⟨-, hget'⟩
    · exact genuine_act hs hget hstep hpromised
    · exact hs.calls c' call' hget'

/-- The rows after an event. -/
theorem intact_rows (hsha : ∀ b, Ascii (sha256 b)) (h : ServiceStep cipher sha256 s e t)
    (hs : s.Intact checkSchema sha256) :
    Rows (fun row => AsciiIdentity row ∧ Dated checkSchema sha256 row.identity row.expiresAt.time)
      t.db.requests := by
  refine h.rows ?_ ?_ hs.rows
  · rintro row row' hid ⟨hascii, hdated⟩
    refine ⟨asciiIdentity_same row row' hid hascii, ?_⟩
    rw [← hid.identity, ← hid.expiresAt]
    exact hdated
  · intro c call now hget
    have hcall := hs.calls c call hget
    obtain ⟨encoded, -, he⟩ := bind_eq_ok.mp hcall.digest
    have hdigest : sha256 encoded = call.digest := Except.ok.inj he
    exact ⟨⟨uuidV4_ascii hcall.request.requestId, hcall.owner, hdigest ▸ hsha encoded⟩,
      call.request, hcall.request, hcall.digest, rfl⟩

theorem intact_step (hsha : ∀ b, Ascii (sha256 b)) (h : Happens checkSchema cipher sha256 s e t)
    (hs : s.Intact checkSchema sha256) : t.Intact checkSchema sha256 := by
  have hstep := serviceStep_of_next h.next
  have hrows := intact_rows hsha hstep hs
  have hopened := opened_step hstep hs.opened
  have hlane := laneHeld_step hstep hs.lane
  have hpromised := h.promised
  cases hstep with
  | act hget hreads hstep => exact intact_act hs hget hreads hstep hpromised hrows
  | arrive hfree hdigest =>
    rename_i c credential request digest
    refine ⟨hopened, hs.policyVersion, hlane, ?_, hrows, ?_⟩
    · intro attempt call hactive hget
      simp only [Function.update_apply] at hget
      split_ifs at hget with hc
      · obtain ⟨owner, howner, -⟩ := hs.lane.held attempt hactive
        rw [hc, hfree] at howner
        cases howner
      · exact hs.named attempt call hactive hget
    · intro c' call hget
      simp only [Function.update_apply] at hget
      split_ifs at hget
      · obtain rfl := Option.some.inj hget
        exact ⟨hpromised.1, hpromised.2, hdigest, by simp, by simp⟩
      · exact hs.calls c' call hget
  | restart hclock hopens =>
    exact ⟨hopened, hpromised, hlane, by simp, hrows, by simp⟩
  | _ => exact ⟨hopened, hs.policyVersion, hlane, hs.named, hrows, hs.calls⟩

theorem intact_started (h : Started s) : s.Intact checkSchema sha256 := by
  obtain ⟨hactive, hcalls, hrows⟩ := started_empty h
  have hversion : 1 ≤ s.taskPolicyVersion := by
    obtain ⟨settings, version, now, hversion, hinitial⟩ := h
    unfold GatewayService.initial at hinitial
    split at hinitial
    · obtain rfl := Option.some.inj hinitial
      exact hversion
    · cases hinitial
  refine ⟨opened_started h, hversion, laneHeld_started h, ?_, ?_, ?_⟩
  · simp [hactive]
  · intro k row hrow
    simp [hrows] at hrow
  · simp [hcalls]

theorem intact_reachable (hsha : ∀ b, Ascii (sha256 b))
    (h : Reachable Started (Happens checkSchema cipher sha256) s) : s.Intact checkSchema sha256 :=
  Transition.reachable_invariant (fun _ => intact_started) (fun _ _ _ => intact_step hsha) h

/-! Attention. -/

/-- In the block of the attempt: its closing transaction or its recovery is still to come. -/
def Pc.Attends (attemptId : Str) (pc : Pc) : Prop := pc.Attempting attemptId ∨ pc = .recovering attemptId

theorem Pc.Attends.holds (h : pc.Attends attemptId) : pc.Holds := by
  rcases h with h | rfl
  · exact h.holds
  · trivial

/-- A row in progress whose request lives has a call that attends to it from the lane. -/
def Attended (s : GatewayService) : Prop :=
  ∀ k row, s.db.requests.select k = some row → row.state = .inProgress →
    s.clock < row.expiresAt.time → ∃ c call attemptId, s.active = some ⟨k, c⟩ ∧
      s.calls c = some call ∧ row.attemptId = some attemptId ∧ call.pc.Attends attemptId

/-- A statement on an attempt that takes its row out of progress leaves none in progress with it. -/
theorem updateAttempt_closes {t : Table} {f : Row → Row} (hf : ∀ row, (f row).requestId = row.requestId)
    (hout : ∀ row, (f row).state ≠ .inProgress)
    (hrow : (updateAttempt k attemptId f hf t).select k = some row) (hstate : row.state = .inProgress)
    (hattempt : row.attemptId = some attemptId) : False := by
  rw [select_updateAttempt, if_pos rfl] at hrow
  obtain ⟨row₀, -, rfl⟩ := Option.map_eq_some_iff.mp hrow
  split_ifs at hstate hattempt with hmatch
  · exact hout row₀ hstate
  · exact hmatch ⟨hstate, hattempt⟩

theorem GatewayService.Opened.getOwned_storeError {d : Datetime} {e : Raised} (hs : s.Opened d)
    (hle : d ≤ now) (h : (call.getOwned s now).1 = .error e) : e.isStoreError = true := by
  obtain ⟨t₁, hclean⟩ := hasCutoff_iff.mp (hs.cutoff.later hle)
  exact getOwned_error hclean (transaction_fst_error hs.version h)

section Step

variable (hs : s.Intact checkSchema sha256)
include hs

/-- A completion raises a `StoreError`, or cannot encode the deployment id. -/
theorem GatewayService.Intact.complete_raises {nonce : Bytes} {result : WorkerResult} {d : Datetime}
    {e : Raised} (hopened : s.Opened d) (hle : d ≤ now) (hencodes : result.Encodes)
    (h : (transaction (Gateway.complete s.settings.store now cipher nonce call.request.requestId
      attemptId result.mediaType result.content s.settings.deploymentId s.taskPolicyVersion)
      s.db).1 = .error e) :
    e.isStoreError = true ∨ e = .unicodeError ∧ ¬ Scalars s.settings.deploymentId := by
  obtain ⟨t₁, hclean⟩ := hasCutoff_iff.mp (hopened.cutoff.later hle)
  have hrows := rows_statements (fun row row' hid (h : AsciiIdentity row) =>
    asciiIdentity_same row row' hid h) (statements_cleanup hclean) fun k row hrow =>
      (hs.rows k row hrow).1
  rcases complete_error hclean (fun row hrow => encrypt_ok (hrows _ row hrow) hencodes.content)
    hs.policyVersion (transaction_fst_error hopened.version h) with hstore | ⟨rfl, hunbound, -⟩
  · exact .inl hstore
  · exact .inr ⟨rfl, fun hdeployment => hunbound ⟨hencodes.mediaType, hdeployment⟩⟩

/-- What closes an attempt takes its row out of progress, or ends in the recovery. -/
theorem attends_closing {nonce : Bytes} {outcome : Except WorkerRaised WorkerResult} {d : Datetime}
    (hopened : s.Opened d) (hle : d ≤ now) (hdeployment : Scalars s.settings.deploymentId)
    (hencodes : ∀ result, outcome = .ok result → result.Encodes)
    (hrow : (call.closing cipher s attemptId now nonce outcome).2.requests.select
      call.request.requestId = some row) (hstate : row.state = .inProgress)
    (hattempt : row.attemptId = some attemptId) :
    (call.closing cipher s attemptId now nonce outcome).1 = .recovering attemptId := by
  have hupdate : ∀ {f : Row → Row} {hf : ∀ row, (f row).requestId = row.requestId}
      {body : Table → Except Raised (Unit × Table)},
      body s.db.requests = .ok ((), updateAttempt call.request.requestId attemptId f hf s.db.requests) →
      (∀ row, (f row).state ≠ .inProgress) →
      (transaction body s.db).2.requests.select call.request.requestId ≠ some row := by
    intro f hf body hbody hout hrow
    rw [transaction_of_ok hopened.version hbody] at hrow
    exact updateAttempt_closes hf hout hrow hstate hattempt
  unfold InferCall.closing at hrow ⊢
  split at hrow
  · rename_i result
    simp only at hrow ⊢
    generalize hr : transaction (Gateway.complete s.settings.store now cipher nonce
      call.request.requestId attemptId result.mediaType result.content s.settings.deploymentId
      s.taskPolicyVersion) s.db = r at hrow ⊢
    obtain ⟨result', db⟩ := r
    cases result' with
    | error e =>
      have herror := (hs.complete_raises hopened hle (hencodes result rfl)
        (congrArg Prod.fst hr)).resolve_right fun hunbound => hunbound.2 hdeployment
      simp only [ownerStep, herror, if_true]
    | ok done =>
      obtain ⟨t', hok, rfl⟩ := transaction_ok hr
      obtain ⟨t₁, -, ⟨-, rfl, hexpired⟩ | ⟨-, row', sealed, -, -, -, -, -, -, hset⟩⟩ := complete_ok hok
      · cases hstate.symm.trans (hexpired row hrow)
      · rw [hset, if_pos rfl] at hrow
        obtain rfl := Option.some.inj hrow
        cases hstate
  · exact (hupdate rfl (fun _ => by simp) hrow).elim
  · exact (hupdate rfl (fun _ => by simp) hrow).elim
  · exact (hupdate rfl (fun _ => by simp) hrow).elim

/-- The call that attends to a row goes on doing so while the row is in progress and its request
lives. -/
theorem attends_step (hsha : Function.Injective sha256) (hdeployment : Scalars s.settings.deploymentId)
    (hget : s.calls c = some call)
    (hreads : ∀ now, action.now? = some now → call.since ≤ now ∧ now ≤ s.clock)
    (hstep : CallStep cipher s call c call.pc action pc db active)
    (hattends : call.pc.Attends attemptId)
    (hdated : Dated checkSchema sha256 row.identity row.expiresAt.time)
    (hrow : db.requests.select call.request.requestId = some row) (hstate : row.state = .inProgress)
    (hattempt : row.attemptId = some attemptId) (hlive : s.clock < row.expiresAt.time) :
    pc.Attends attemptId := by
  obtain ⟨d, hopened⟩ := hs.opened
  have hcall := hs.calls c call hget
  have hlater : ∀ now, action.now? = some now → d ≤ now := fun now hnow =>
    (hopened.since c call hget).1.trans (hreads now hnow).1
  generalize hpc : call.pc = pc₀ at hstep hattends
  rcases hattends with (rfl | rfl | ⟨outcome, rfl⟩) | rfl
  · cases hstep with
    | late a now r hat hexpired hr =>
      obtain ⟨ha, hact⟩ : attemptId = a ∧ action = .dispatch now := by
        rcases hat with ⟨he, -⟩ | ⟨he, hact⟩
        · cases he
        · exact ⟨Pc.marked.inj he, hact⟩
      subst ha hact hr
      cases hread : (call.getOwned s now).1 with
      | ok record =>
        obtain ⟨row', hrow', hid, -⟩ := getOwned_row hread
        obtain rfl := Option.some.inj (hrow.symm.trans hrow')
        have hexpiry : Dated checkSchema sha256 row.identity call.request.expiresAt :=
          ⟨call.request, hcall.request, hid ▸ hcall.digest, rfl⟩
        have hsame := dated_unique hsha hdated hexpiry
        rw [hsame] at hlive
        exact absurd ((hreads now rfl).2.trans_lt hlive) (not_lt.mpr hexpired)
      | error e =>
        have herror := hopened.getOwned_storeError (hlater now rfl) hread
        simp only [ownerStep, herror, if_true]
        exact .inr rfl
    | dispatch a now hlive => exact .inl (.inr (.inl rfl))
  · cases hstep with
    | late a now r hat hexpired hr => rcases hat with ⟨he, -⟩ | ⟨he, -⟩ <;> cases he
    | outcome a outcome => exact .inl (.inr (.inr ⟨outcome, rfl⟩))
  · cases hstep with
    | late a now r hat hexpired hr => rcases hat with ⟨he, -⟩ | ⟨he, -⟩ <;> cases he
    | close a outcome now nonce r hr =>
      subst hr
      refine .inr (attends_closing hs hopened (hlater now rfl) hdeployment ?_ hrow hstate hattempt)
      rintro result rfl
      exact hcall.content attemptId result hpc
  · cases hstep with
    | late a now r hat hexpired hr => rcases hat with ⟨he, -⟩ | ⟨he, -⟩ <;> cases he
    | recover a now r hr =>
      subst hr
      have hok : markAmbiguous now call.request.requestId attemptId s.db.requests = .ok _ := rfl
      rw [transaction_of_ok hopened.version hok] at hrow
      exact (updateAttempt_closes (f := fun row => row.interrupt now) (fun _ => rfl)
        (fun _ => by simp [Row.interrupt]) hrow hstate hattempt).elim

/-- Whoever holds the lane is on it under the name of its own request. -/
theorem GatewayService.Intact.onLane (hget : s.calls c = some call) (hholds : call.pc.Holds) :
    s.active = some ⟨call.request.requestId, c⟩ := by
  obtain ⟨⟨requestId, owner⟩, hactive, rfl⟩ := hs.lane.holder c call hget hholds
  obtain rfl : requestId = call.request.requestId := hs.named _ call hactive hget
  exact hactive

end Step

/-! One event. -/

/-- A new process has no row in progress. -/
theorem restart_inProgress {settings : Settings} {db db' : Database}
    (hopens : initializeStore settings.store now db = (.ok (), db'))
    (hrow : db'.requests.select k = some row) : row.state ≠ .inProgress := by
  unfold initializeStore at hopens
  simp only at hopens
  split at hopens
  · simp at hopens
  · split at hopens
    · simp at hopens
    · rename_i t' hrecover
      obtain ⟨-, rfl⟩ := Prod.mk.inj hopens
      have hmove := cleanMove_cleanup hrecover k
      rw [hrow, KeyedTable.select_update] at hmove
      generalize ho : (db.requests.select k).map _ = o at hmove
      cases hmove with
      | kept =>
        obtain ⟨row₀, -, rfl⟩ := Option.map_eq_some_iff.mp ho
        split_ifs with hstate
        · simp
        · simpa using hstate
      | expired hopen hdue => simp [Row.expire]

/-- A row that is in progress after an event was so before, or has just been marked. -/
theorem inProgress_event (h : ServiceStep cipher sha256 s e t)
    (hrow : t.db.requests.select k = some row) (hstate : row.state = .inProgress) :
    s.db.requests.select k = some row ∨ s.db.requests.select k ≠ some row ∧
      ∃ settings attemptId now, row.attemptId = some attemptId ∧
        s.storeCall e = some (settings, .markInProgress k attemptId now) := by
  by_cases hsame : s.db.requests.select k = some row
  · exact .inl hsame
  refine .inr ⟨hsame, ?_⟩
  rcases h.keyMove k with ⟨-, hdb⟩ | ⟨settings, storeCall, hcall, hkey⟩
  · exact (hsame (hdb ▸ hrow)).elim
  · rw [hrow] at hkey
    generalize ho : s.db.requests.select k = o at hkey hsame
    cases hkey with
    | moved hmove =>
      cases hmove with
      | same => exact (hsame rfl).elim
      | mark h => exact ⟨settings, _, _, rfl, hcall⟩
      | _ => cases hstate
    | inserted => cases hstate

section Event

variable (hs : s.Intact checkSchema sha256)
include hs

/-- A row that was just marked is attended to by the call that has marked it. -/
theorem marked_attended {settings : StoreSettings} (h : ServiceStep cipher sha256 s e t)
    (hcall : s.storeCall e = some (settings, .markInProgress k attemptId now))
    (hrow : t.db.requests.select k = some row) (hnew : s.db.requests.select k ≠ some row) :
    ∃ c call, t.active = some ⟨k, c⟩ ∧ t.calls c = some call ∧ call.pc.Attends attemptId := by
  obtain ⟨c, action, call, rfl, hget, rfl, ⟨hpc, now', -⟩ | ⟨outcome, now', nonce, -, -, hne⟩ |
    ⟨-, now', hne⟩⟩ := attempt_storeCall hcall rfl
  · have hactive := hs.onLane hget (by rw [hpc]; trivial)
    cases h with
    | act hget' hreads hstep =>
      rename_i call' pc db active
      obtain rfl := Option.some.inj (hget.symm.trans hget')
      refine ⟨c, _, ?_, after_self, ?_⟩
      · rcases hstep.lane_cases with ⟨hkept, -⟩ | ⟨hfree, -⟩ | ⟨-, hnot, -⟩
        · exact hkept.trans hactive
        · cases hfree.symm.trans hactive
        · rw [hpc] at hstep
          cases hstep with
          | late a now r hat hexpired hr => exact (hnot (holds_ownerStep fun _ => trivial)).elim
          | mark a now r hlive hr => exact (hnot (holds_ownerStep fun _ => trivial)).elim
      · rw [hpc] at hstep
        cases hstep with
        | late a now r hat hexpired hr =>
          obtain ⟨-, rfl⟩ : a = attemptId ∧ action = .mark now := by
            rcases hat with ⟨he, hact⟩ | ⟨he, -⟩
            · exact ⟨(Pc.claimed.inj he).symm, hact⟩
            · cases he
          simp only [GatewayService.storeCall, hget, Option.bind_some, InferCall.storeCall, hpc,
            if_pos hexpired, Option.map_some, InferCall.ownedCall] at hcall
          cases hcall
        | mark a now r hlive hr =>
          obtain ⟨result, db⟩ := r
          cases result with
          | ok record => exact .inl (.inl rfl)
          | error e =>
            have hsame := transaction_error (congrArg Prod.fst hr)
            rw [hr] at hsame
            exact (hnew (hsame ▸ hrow)).elim
  · rcases outcome with (_ | _ | _) | _ <;> cases hne
  · cases hne

theorem attended_step (hinjective : Function.Injective sha256) (hascii : ∀ b, Ascii (sha256 b))
    (hdeployment : Scalars s.settings.deploymentId) (h : ServiceStep cipher sha256 s e t)
    (ha : Attended s) : Attended t := by
  intro k row hrow hstate hlive
  have hlive₀ : s.clock < row.expiresAt.time := (clock_step h).trans_lt hlive
  have hdated := (intact_rows hascii h hs k row hrow).2
  rcases inProgress_event h hrow hstate with hbefore | ⟨hnew, settings, attemptId, now, hattempt, hcall⟩
  · obtain ⟨c, call, attemptId, hactive, hget, hattempt, hattends⟩ :=
      ha k row hbefore hstate hlive₀
    cases h with
    | tick hclock => exact ⟨c, call, attemptId, hactive, hget, hattempt, hattends⟩
    | arrive hfree hdigest =>
      refine ⟨c, call, attemptId, hactive, ?_, hattempt, hattends⟩
      simp only [Function.update_apply]
      split_ifs with hc
      · rw [hc, hfree] at hget
        cases hget
      · exact hget
    | act hget' hreads hstep =>
      rename_i c' action call' pc db active
      have hkept : pc.Holds ∨ ¬ call'.pc.Holds → active = some ⟨k, c⟩ := by
        intro hholds
        rcases hstep.lane_cases with ⟨hkept, -⟩ | ⟨hfree, -⟩ | ⟨hheld, hnot, -⟩
        · exact hkept.trans hactive
        · cases hfree.symm.trans hactive
        · exact (hholds.elim hnot (fun h => h hheld)).elim
      by_cases hc : c' = c
      · subst hc
        obtain rfl := Option.some.inj (hget.symm.trans hget')
        obtain rfl : k = call.request.requestId := hs.named _ call hactive hget
        have hnext := attends_step hs hinjective hdeployment hget hreads hstep hattends hdated hrow
          hstate hattempt hlive₀
        exact ⟨c', _, attemptId, hkept (.inl hnext.holds), after_self, hattempt, hnext⟩
      · refine ⟨c, call, attemptId, hkept (.inr fun hholds => hc ?_), ?_, hattempt, hattends⟩
        · exact hs.lane.unique hget' hholds hget hattends.holds
        · rwa [after_other (Ne.symm hc)]
    | acknowledge hclock => exact ⟨c, call, attemptId, hactive, hget, hattempt, hattends⟩
    | maintain hclock => exact ⟨c, call, attemptId, hactive, hget, hattempt, hattends⟩
    | restart hclock hopens => exact (restart_inProgress hopens hrow hstate).elim
  · obtain ⟨c, call, hactive, hget, hattends⟩ := marked_attended hs h hcall hrow hnew
    exact ⟨c, call, attemptId, hactive, hget, hattempt, hattends⟩

end Event

/-! Runs. -/

/-- The deployment id can be stored with a result. -/
def GatewayService.StoresDeployment (s : GatewayService) : Prop := Scalars s.settings.deploymentId

/-- An event in a process whose deployment id can be stored. -/
structure Deployed (checkSchema : Json → Bool) (cipher : Cipher) (sha256 : Bytes → Str)
    (s : GatewayService) (e : Event) (t : GatewayService) : Prop where
  happens : Happens checkSchema cipher sha256 s e t
  stores : s.StoresDeployment

theorem attended_reachable (hinjective : Function.Injective sha256) (hascii : ∀ b, Ascii (sha256 b))
    (h : Reachable Started (Deployed checkSchema cipher sha256) s) :
    s.Intact checkSchema sha256 ∧ Attended s := by
  refine Transition.reachable_invariant (P := fun s => s.Intact checkSchema sha256 ∧ Attended s)
    ?_ ?_ h
  · intro s hstart
    refine ⟨intact_started hstart, fun k row hrow => ?_⟩
    simp [(started_empty hstart).2.2] at hrow
  · rintro s e t ⟨hstep, hstores⟩ ⟨hs, ha⟩
    exact ⟨intact_step hascii hstep hs,
      attended_step hs hinjective hascii hstores (serviceStep_of_next hstep.next) ha⟩

/-- A row in progress whose request lives has its call on the lane; there is at most one such row, and
none when no call is under way. -/
structure InProgressAttended (s : GatewayService) : Prop where
  attended : Attended s
  single : ∀ k k' row row', s.db.requests.select k = some row → row.state = .inProgress →
    s.clock < row.expiresAt.time → s.db.requests.select k' = some row' → row'.state = .inProgress →
    s.clock < row'.expiresAt.time → k = k'
  idle : (∀ c call, s.calls c = some call → ∃ result, call.pc = .done result) →
    ∀ k row, s.db.requests.select k = some row → s.clock < row.expiresAt.time →
      row.state ≠ .inProgress

/-- In every state that the running service reaches, over any number of restarts, under deployment ids
that can be stored. -/
theorem inProgress_attended (hinjective : Function.Injective sha256) (hascii : ∀ b, Ascii (sha256 b))
    (h : Reachable Started (Deployed checkSchema cipher sha256) s) : InProgressAttended s := by
  obtain ⟨-, ha⟩ := attended_reachable hinjective hascii h
  refine ⟨ha, ?_, ?_⟩
  · intro k k' row row' hrow hstate hlive hrow' hstate' hlive'
    obtain ⟨c, call, attemptId, hactive, -⟩ := ha k row hrow hstate hlive
    obtain ⟨c', call', attemptId', hactive', -⟩ := ha k' row' hrow' hstate' hlive'
    exact (ActiveAttempt.mk.inj (Option.some.inj (hactive.symm.trans hactive'))).1
  · intro hended k row hrow hlive hstate
    obtain ⟨c, call, attemptId, -, hget, -, hattends⟩ := ha k row hrow hstate hlive
    obtain ⟨result, hdone⟩ := hended c call hget
    rw [hdone] at hattends
    exact hattends.holds.elim

/-! A row in progress. -/

/-- A hash into ASCII without collisions that agrees with the real one on the sample. -/
def asciiSha256 (b : Bytes) : Str := if b = sampleBytes then sampleSha256 b else 48 :: unaryText b

theorem asciiSha256_ascii (b : Bytes) : Ascii (asciiSha256 b) := by
  unfold asciiSha256
  split_ifs
  · exact sampleSha256_ascii b
  · intro x hx
    rcases List.mem_cons.mp hx with rfl | hx
    · norm_num
    · rcases mem_unaryText hx with rfl | rfl <;> norm_num

theorem asciiSha256_injective : Function.Injective asciiSha256 := by
  have hhead : ∀ b c, sampleSha256 b ≠ 48 :: c := by
    intro b c he
    have hdigest : (sampleSha256 b).head? = some 98 := rfl
    rw [congrArg List.head? he] at hdigest
    exact absurd (Option.some.inj hdigest) (by decide)
  intro b c he
  unfold asciiSha256 at he
  split_ifs at he with hb hc hc
  · rw [hb, hc]
  · exact (hhead _ _ he).elim
  · exact (hhead _ _ he.symm).elim
  · exact unaryText_injective (List.cons.inj he).2

/-- While the worker runs, the row is in progress, and attended to. -/
theorem inProgress_attended_dispatched : ∃ s row,
    s.db.requests.select (sampleRequest false).requestId = some row ∧ row.state = .inProgress ∧
      InProgressAttended s := by
  have hresult : ((startedAtSix.bind (fun s => s.play plainCipher asciiSha256
      (fun s _ => decide (Scalars s.settings.deploymentId)) (redispatchedEvents.take 6))).bind (fun s =>
        s.db.requests.select (sampleRequest false).requestId)).map Row.state = some .inProgress := by
    decide +kernel
  obtain ⟨row, hrow, hstate⟩ := Option.map_eq_some_iff.mp hresult
  obtain ⟨s, hplayed, hrow⟩ := Option.bind_eq_some_iff.mp hrow
  obtain ⟨s₀, hstart, hplay⟩ := Option.bind_eq_some_iff.mp hplayed
  have hreachable : Reachable Started (Deployed (fun _ => true) plainCipher asciiSha256) s :=
    ⟨s₀, _, ⟨shortRetention, 2, sampleMoment 18 0 0 0, by norm_num, hstart⟩, run_of_play
      (fun s e t he hnext hstores => ⟨⟨hnext, redispatched_promised e (List.mem_of_mem_take he)⟩,
        (of_decide_eq_true hstores : Scalars s.settings.deploymentId)⟩) hplay⟩
  exact ⟨s, row, hrow, hstate, inProgress_attended asciiSha256_injective asciiSha256_ascii hreachable⟩

end Gateway
