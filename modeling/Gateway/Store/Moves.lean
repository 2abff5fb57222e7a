import Gateway.Foundation.Calendar
import Gateway.Store.Answers
import Gateway.Store.Maintained

/-! What one call of the store makes of the row of one request, and what whole runs make of it. -/
namespace Gateway

open Relation (ReflTransGen)
open Transition (Run Reachable)

variable {settings : StoreSettings} {cipher : Cipher} {now cutoff : Datetime} {t t₁ t' : Table}
variable {row row' : Row} {k : Str} {call : StoreCall} {db : Database} {o o' : Option Row}

/-- The one assignment a call can make to a row, or none. -/
inductive RowMove (cipher : Cipher) (k : Str) (row : Row) : StoreCall → Row → Prop where
  | same {call : StoreCall} : RowMove cipher k row call row
  | expire {call : StoreCall} (hcleans : call.cleans = true) (hopen : row.isClosed = false)
      (hdue : row.isDue call.now = true) : RowMove cipher k row call (row.expire call.now)
  | recover {now : Datetime} (h : row.state = .inProgress) :
      RowMove cipher k row (.initializeStore now) (row.interrupt now)
  | mark {attemptId : Str} {now : Datetime} (h : row.state = .reserved) :
      RowMove cipher k row (.markInProgress k attemptId now) (row.mark attemptId now)
  | reset {attemptId : Str} {now : Datetime} (h : row.state = .inProgress)
      (hattempt : row.attemptId = some attemptId) :
      RowMove cipher k row (.resetReserved k attemptId now) (row.reset now)
  | interrupt {attemptId : Str} {now : Datetime} (h : row.state = .inProgress)
      (hattempt : row.attemptId = some attemptId) :
      RowMove cipher k row (.markAmbiguous k attemptId now) (row.interrupt now)
  | fail {attemptId code : Str} {retryable : Bool} {retryAfterSeconds : Option ℤ} {now : Datetime}
      (h : row.state = .inProgress) (hattempt : row.attemptId = some attemptId) :
      RowMove cipher k row (.markFailed k attemptId code retryable retryAfterSeconds now)
        (row.fail code retryable retryAfterSeconds now)
  | complete {nonce : Bytes} {attemptId mediaType content deploymentId : Str}
      {taskPolicyVersion : ℤ} {now : Datetime} {sealed : Bytes × Bytes} (h : row.state = .inProgress)
      (hattempt : row.attemptId = some attemptId)
      (hseal : row.record.encrypt cipher nonce content = .ok sealed) :
      RowMove cipher k row
        (.complete nonce k attemptId mediaType content deploymentId taskPolicyVersion now)
        (row.complete mediaType sealed.1 sealed.2 deploymentId taskPolicyVersion now)
  | acknowledge {credentialHash disposition : Str} {now : Datetime} (h : row.state = .completed) :
      RowMove cipher k row (.acknowledge k credentialHash disposition now)
        (row.acknowledge disposition now)

/-- Only a closed row is deleted, but that a negative retention takes one as soon as it is due. -/
def Deletable (settings : StoreSettings) (now : Datetime) (row : Row) : Prop :=
  row.isClosed = true ∨ settings.tombstoneRetentionSeconds < 0 ∧ row.isDue now = true

theorem Deletable.closed (hretention : 0 ≤ settings.tombstoneRetentionSeconds)
    (h : Deletable settings now row) : row.isClosed = true :=
  h.resolve_right fun hnegative => not_lt.mpr hretention hnegative.1

/-- What a call can do under one key. -/
inductive KeyMove (settings : StoreSettings) (cipher : Cipher) (k : Str) (call : StoreCall) :
    Option Row → Option Row → Prop where
  | absent : KeyMove settings cipher k call none none
  | moved {row row' : Row} (h : RowMove cipher k row call row') :
      KeyMove settings cipher k call (some row) (some row')
  | deleted {row : Row} (h : Deletable settings call.now row) :
      KeyMove settings cipher k call (some row) none
  | inserted {o : Option Row} {request : InferenceRequest} {credentialHash requestDigest : Str}
      {now : Datetime} (hcall : call = .admitRequest request credentialHash requestDigest now)
      (hid : request.requestId = k) (hlive : now < request.expiresAt)
      (hgone : ∀ row, o = some row → Deletable settings now row) :
      KeyMove settings cipher k call o
        (some (reservedRow request credentialHash requestDigest now))

@[refl] theorem KeyMove.refl (o : Option Row) : KeyMove settings cipher k call o o := by
  cases o with
  | none => exact .absent
  | some row => exact .moved .same

theorem rowMove_identity (h : RowMove cipher k row call row') : SameIdentity row row' := by
  cases h <;> exact ⟨rfl, rfl, rfl, rfl, rfl, rfl⟩

/-- A closed row stays as it is. -/
theorem rowMove_closed (h : RowMove cipher k row call row') (hclosed : row.isClosed = true) :
    row' = row := by
  cases h <;> simp_all [Row.isClosed]

/-! The cleanup. -/

/-- What a cleanup makes of the row under one key. -/
inductive CleanMove (settings : StoreSettings) (now : Datetime) : Option Row → Option Row → Prop where
  | kept (o : Option Row) : CleanMove settings now o o
  | expired {row : Row} (hopen : row.isClosed = false) (hdue : row.isDue now = true) :
      CleanMove settings now (some row) (some (row.expire now))
  | deleted {row : Row} (h : Deletable settings now row) : CleanMove settings now (some row) none

theorem CleanMove.keyMove (hcleans : call.cleans = true) (h : CleanMove settings call.now o o') :
    KeyMove settings cipher k call o o' := by
  cases h with
  | kept => rfl
  | expired hopen hdue => exact .moved (.expire hcleans hopen hdue)
  | deleted h => exact .deleted h

/-- A row that is neither closed nor gone after a cleanup is as it was. -/
theorem CleanMove.eq_of_open (h : CleanMove settings now o (some row)) (hopen : row.isClosed = false) :
    o = some row := by
  cases h with
  | kept => rfl
  | expired => cases hopen

theorem CleanMove.gone (h : CleanMove settings now o none) :
    ∀ row, o = some row → Deletable settings now row := by
  intro row hrow
  cases h with
  | kept => cases hrow
  | deleted hdeletable =>
    obtain rfl := Option.some.inj hrow
    exact hdeletable

/-- The cutoff does not lie in the future, so nothing written now is old. -/
theorem timestamp_cutoff (hretention : 0 ≤ settings.tombstoneRetentionSeconds)
    (h : now.addSeconds (-settings.tombstoneRetentionSeconds) = some cutoff) :
    ¬ utf8 (timestamp now) < utf8 (timestamp cutoff) := by
  have habs := Datetime.addSeconds_eq_some h
  have hle : cutoff ≤ now := Datetime.absolute_le_iff.mp (by omega)
  exact not_lt.mpr (timestamp_mono hle)

theorem cleanMove_cleanup (hclean : cleanup settings now t = .ok t₁) (k : Str) :
    CleanMove settings now (t.select k) (t₁.select k) := by
  obtain ⟨cutoff, hcutoff, rfl⟩ := cleanup_eq_ok.mp hclean
  rw [select_purge, select_expireDue]
  cases t.select k with
  | none => exact .kept none
  | some row =>
    by_cases hclosed : row.isClosed = true
    · by_cases hold : utf8 row.updatedAt < utf8 (timestamp cutoff)
      · simpa [hclosed, hold, Option.filter] using CleanMove.deleted (.inl hclosed)
      · simpa [hclosed, hold, Option.filter] using CleanMove.kept (some row)
    · have hopen : row.isClosed = false := by simpa using hclosed
      by_cases hdue : row.isDue now = true
      · have hupdated : (row.expire now).updatedAt = timestamp now := rfl
        have hexpired : (row.expire now).isClosed = true := by simp [Row.isClosed, Row.expire]
        by_cases hold : utf8 (timestamp now) < utf8 (timestamp cutoff)
        · have hnegative : settings.tombstoneRetentionSeconds < 0 := by
            by_contra hretention
            exact timestamp_cutoff (not_lt.mp hretention) hcutoff hold
          simpa [hopen, hdue, Option.filter, hexpired, hupdated, hold] using
            CleanMove.deleted (.inr ⟨hnegative, hdue⟩)
        · simpa [hopen, hdue, Option.filter, hupdated, hold] using
            @CleanMove.expired settings now row hopen hdue
      · simpa [hopen, hdue, Option.filter] using CleanMove.kept (some row)

/-! The operations. -/

theorem keyMove_outcome {α : Type} {body : Table → Except Raised (α × Table)}
    (h : ∀ a t', body db.requests = .ok (a, t') →
      KeyMove settings cipher k call (db.requests.select k) (t'.select k)) :
    KeyMove settings cipher k call (db.requests.select k) ((outcome body db).2.requests.select k) := by
  rcases outcome_requests body db with hsame | ⟨a, hok⟩
  · rw [hsame]
  · exact h a _ hok

/-- A statement on one attempt moves the row in progress with it, and no other. -/
theorem keyMove_attempt {requestId attemptId : Str} (f : Row → Row)
    (hf : ∀ row, (f row).requestId = row.requestId)
    (h : ∀ row, row.state = .inProgress → row.attemptId = some attemptId → k = requestId →
      RowMove cipher k row call (f row)) :
    KeyMove settings cipher k call (t.select k) ((updateAttempt requestId attemptId f hf t).select k) := by
  rw [select_updateAttempt]
  split_ifs with hk
  · rw [← hk]
    cases t.select k with
    | none => exact .absent
    | some row =>
      by_cases hattempt : row.state = .inProgress ∧ row.attemptId = some attemptId
      · simpa [hattempt] using KeyMove.moved (h row hattempt.1 hattempt.2 hk)
      · simpa [hattempt] using @KeyMove.refl settings cipher k call (some row)
  · rfl

/-- One row is set after the cleanup, the others are left to it. -/
theorem keyMove_sets {requestId : Str} (hcleans : call.cleans = true)
    (hclean : CleanMove settings call.now (t.select k) (t₁.select k)) (hset : SetsRow requestId row' t₁ t')
    (h : k = requestId → KeyMove settings cipher k call (t.select k) (some row')) :
    KeyMove settings cipher k call (t.select k) (t'.select k) := by
  rw [hset]
  split_ifs with hk
  · exact h hk
  · exact hclean.keyMove hcleans

theorem keyMove_admitRequest {request : InferenceRequest} {credentialHash requestDigest : Str}
    {record : RequestRecord}
    (h : admitRequest settings now request credentialHash requestDigest t = .ok (record, t')) :
    KeyMove settings cipher k (.admitRequest request credentialHash requestDigest now) (t.select k)
      (t'.select k) := by
  obtain ⟨t₁, hclean, hcase⟩ := admitRequest_ok h
  have hmove := cleanMove_cleanup hclean k
  rcases hcase with ⟨row, -, -, -, -, rfl⟩ | ⟨hnone, hlive, -, hset⟩
  · exact hmove.keyMove rfl
  · refine keyMove_sets rfl hmove hset fun hk => ?_
    subst hk
    rw [hnone] at hmove
    exact .inserted rfl rfl hlive hmove.gone

theorem keyMove_markInProgress {requestId attemptId : Str} {record : RequestRecord}
    (h : markInProgress settings now requestId attemptId t = .ok (record, t')) :
    KeyMove settings cipher k (.markInProgress requestId attemptId now) (t.select k) (t'.select k) := by
  obtain ⟨t₁, row, hclean, hrow, hstate, hset⟩ := markInProgress_ok h
  have hmove := cleanMove_cleanup hclean k
  refine keyMove_sets rfl hmove hset fun hk => ?_
  subst hk
  rw [hrow] at hmove
  rw [hmove.eq_of_open (by simp [Row.isClosed, hstate])]
  exact .moved (.mark hstate)

theorem keyMove_complete {nonce : Bytes} {requestId attemptId mediaType content deploymentId : Str}
    {taskPolicyVersion : ℤ} {done : Bool}
    (h : complete settings now cipher nonce requestId attemptId mediaType content deploymentId
      taskPolicyVersion t = .ok (done, t')) :
    KeyMove settings cipher k
      (.complete nonce requestId attemptId mediaType content deploymentId taskPolicyVersion now)
      (t.select k) (t'.select k) := by
  obtain ⟨t₁, hclean, hcase⟩ := complete_ok h
  have hmove := cleanMove_cleanup hclean k
  rcases hcase with ⟨-, rfl, -⟩ | ⟨-, row, sealed, hrow, hstate, hattempt, hseal, -, -, hset⟩
  · exact hmove.keyMove rfl
  · refine keyMove_sets rfl hmove hset fun hk => ?_
    subst hk
    rw [hrow] at hmove
    rw [hmove.eq_of_open (by simp [Row.isClosed, hstate])]
    exact .moved (.complete hstate hattempt hseal)

theorem keyMove_acknowledge {requestId credentialHash disposition : Str} {record : RequestRecord}
    (h : acknowledge settings now requestId credentialHash disposition t = .ok (record, t')) :
    KeyMove settings cipher k (.acknowledge requestId credentialHash disposition now) (t.select k)
      (t'.select k) := by
  obtain ⟨t₁, hclean, -⟩ := bind_eq_ok.mp h
  have hmove := cleanMove_cleanup hclean k
  obtain ⟨row, hrow, -, ⟨hstate, -, hset⟩ | ⟨-, -, -, rfl⟩⟩ := acknowledge_ok hclean h
  · refine keyMove_sets rfl hmove hset fun hk => ?_
    subst hk
    rw [hrow] at hmove
    rw [hmove.eq_of_open (by simp [Row.isClosed, hstate])]
    exact .moved (.acknowledge hstate)
  · exact hmove.keyMove rfl

theorem keyMove_initializeStore :
    KeyMove settings cipher k (.initializeStore now) (db.requests.select k)
      ((initializeStore settings now db).2.requests.select k) := by
  unfold initializeStore
  simp only
  split_ifs
  · rfl
  · split
    · rfl
    · rename_i t' hrecover
      have hmove := cleanMove_cleanup hrecover k
      rw [KeyedTable.select_update] at hmove
      cases hs : db.requests.select k with
      | none =>
        rw [hs] at hmove
        exact hmove.keyMove rfl
      | some row =>
        rw [hs, Option.map_some] at hmove
        by_cases hstate : row.state = .inProgress
        · simp only [hstate, decide_true, if_true] at hmove
          generalize ho' : t'.select k = o' at hmove ⊢
          cases hmove with
          | kept => exact .moved (.recover hstate)
          | expired hopen hdue =>
            exact .moved (.expire rfl (by simp [Row.isClosed, hstate]) hdue)
          | deleted h =>
            obtain ⟨hnegative, hdue⟩ := h.resolve_left (by simp [Row.isClosed])
            exact .deleted (.inr ⟨hnegative, hdue⟩)
        · simp only [hstate, decide_false, Bool.false_eq_true, if_false] at hmove
          exact hmove.keyMove rfl

/-- Every call of the store makes at most one move under each key. -/
theorem run_keyMove (call : StoreCall) (db : Database) (k : Str) :
    KeyMove settings cipher k call (db.requests.select k)
      ((call.run settings cipher db).2.requests.select k) := by
  cases call with
  | initializeStore now => exact keyMove_initializeStore
  | admitRequest request credentialHash requestDigest now =>
    exact keyMove_outcome fun _ _ h => keyMove_admitRequest h
  | getOwned requestId credentialHash requestDigest now =>
    refine keyMove_outcome fun _ _ h => ?_
    exact (cleanMove_cleanup (getOwned_ok h).1 k).keyMove rfl
  | markInProgress requestId attemptId now =>
    exact keyMove_outcome fun _ _ h => keyMove_markInProgress h
  | resetReserved requestId attemptId now =>
    refine keyMove_outcome fun _ _ h => ?_
    obtain ⟨-, rfl⟩ := Prod.mk.inj (Except.ok.inj h)
    exact keyMove_attempt _ _ fun row hstate hattempt hk => hk ▸ .reset hstate hattempt
  | markAmbiguous requestId attemptId now =>
    refine keyMove_outcome fun _ _ h => ?_
    obtain ⟨-, rfl⟩ := Prod.mk.inj (Except.ok.inj h)
    exact keyMove_attempt _ _ fun row hstate hattempt hk => hk ▸ .interrupt hstate hattempt
  | markFailed requestId attemptId code retryable retryAfterSeconds now =>
    refine keyMove_outcome fun _ _ h => ?_
    obtain ⟨-, rfl⟩ := Prod.mk.inj (Except.ok.inj h)
    exact keyMove_attempt _ _ fun row hstate hattempt hk => hk ▸ .fail hstate hattempt
  | complete nonce requestId attemptId mediaType content deploymentId taskPolicyVersion now =>
    exact keyMove_outcome fun _ _ h => keyMove_complete h
  | maintain now =>
    refine keyMove_outcome fun _ _ h => ?_
    obtain ⟨t₁, hclean, he⟩ := bind_eq_ok.mp h
    obtain ⟨-, rfl⟩ := Prod.mk.inj (Except.ok.inj he)
    exact (cleanMove_cleanup hclean k).keyMove rfl
  | acknowledge requestId credentialHash disposition now =>
    exact keyMove_outcome fun _ _ h => keyMove_acknowledge h

/-! Whole runs, each call under any settings and any key. -/

theorem rowMove_edge (h : RowMove cipher k row call row') :
    row' = row ∨ StateEdge row.state row'.state := by
  cases h with
  | same => exact .inl rfl
  | expire _ hopen _ => exact .inr (rowEdge_state (.expire hopen))
  | recover h => exact .inr (h ▸ .interrupt)
  | mark h => exact .inr (h ▸ .dispatch)
  | reset h _ => exact .inr (h ▸ .release)
  | interrupt h _ => exact .inr (h ▸ .interrupt)
  | fail h _ => exact .inr (h ▸ .fail)
  | complete h _ _ => exact .inr (h ▸ .complete)
  | acknowledge h => exact .inr (h ▸ .acknowledge)

/-- The call is the admission that makes this row. -/
def AdmittedBy (call : StoreCall) (k : Str) (row : Row) : Prop :=
  ∃ (request : InferenceRequest) (credentialHash requestDigest : Str) (now : Datetime),
    call = .admitRequest request credentialHash requestDigest now ∧ request.requestId = k ∧
      row = reservedRow request credentialHash requestDigest now

/-- What one call leaves under a key: a row that stays as it is or moves along one edge, the identity
it was admitted with kept; none where the row could be deleted; or the row it has admitted, where none
was left. -/
inductive CallEffect (settings : StoreSettings) (call : StoreCall) (k : Str) :
    Option Row → Option Row → Prop where
  | same (o : Option Row) : CallEffect settings call k o o
  | moved {row row' : Row} (hid : SameIdentity row row') (he : StateEdge row.state row'.state) :
      CallEffect settings call k (some row) (some row')
  | deleted {row : Row} (h : Deletable settings call.now row) :
      CallEffect settings call k (some row) none
  | admitted {o : Option Row} {row' : Row} (h : AdmittedBy call k row')
      (hgone : ∀ row, o = some row → Deletable settings call.now row) :
      CallEffect settings call k o (some row')

theorem KeyMove.effect (h : KeyMove settings cipher k call o o') : CallEffect settings call k o o' := by
  cases h with
  | absent => exact .same none
  | moved hmove =>
    rcases rowMove_edge hmove with rfl | he
    · exact .same _
    · exact .moved (rowMove_identity hmove) he
  | deleted h => exact .deleted h
  | inserted hcall hid _ hgone =>
    subst hcall
    exact .admitted ⟨_, _, _, _, rfl, hid, rfl⟩ hgone

/-- One row has become the other: what it was admitted as is kept, its state has gone along edges. -/
def Lives (row row' : Row) : Prop :=
  SameIdentity row row' ∧ ReflTransGen StateEdge row.state row'.state

theorem Lives.refl (row : Row) : Lives row row := ⟨.refl row, .refl⟩

/-- A call of the run has found the row, as it had become by then, and has left it deleted, and may
have admitted another in its place. -/
def Deleted (k : Str) (row : Row) (db : Database) (calls : List (StoreSettings × Cipher × StoreCall))
    (db' : Database) : Prop :=
  ∃ (before after : List (StoreSettings × Cipher × StoreCall))
    (call : StoreSettings × Cipher × StoreCall) (u v : Database) (last : Row),
    calls = before ++ call :: after ∧ Run AnyStoreStep db before u ∧ AnyStoreStep u call v ∧
      Run AnyStoreStep v after db' ∧ u.requests.select k = some last ∧ Lives row last ∧
      Deletable call.1 call.2.2.now last ∧
      (v.requests.select k = none ∨
        ∃ row', v.requests.select k = some row' ∧ AdmittedBy call.2.2 k row')

theorem anyStoreStep_effect {db db' : Database} {call : StoreSettings × Cipher × StoreCall}
    (h : AnyStoreStep db call db') (k : Str) :
    CallEffect call.1 call.2.2 k (db.requests.select k) (db'.requests.select k) := by
  rcases h with rfl | rfl
  · exact (run_keyMove call.2.2 db k).effect
  · exact .same _

theorem run_lives {db db' : Database} {calls : List (StoreSettings × Cipher × StoreCall)}
    (h : Run AnyStoreStep db calls db') (hrow : db.requests.select k = some row) :
    (∃ row', db'.requests.select k = some row' ∧ Lives row row') ∨ Deleted k row db calls db' := by
  induction h generalizing row with
  | refl => exact .inl ⟨row, hrow, .refl row⟩
  | @stepL db u db' call calls hstep hrest ih =>
    -- what the first call makes of the row is what the rest of the run starts with
    have hnext : ∀ row₁, u.requests.select k = some row₁ → Lives row row₁ →
        (∃ row', db'.requests.select k = some row' ∧ Lives row row') ∨
          Deleted k row db (call :: calls) db' := by
      rintro row₁ hrow₁ ⟨hid, hpath⟩
      rcases ih hrow₁ with ⟨row', hrow', hid', hpath'⟩ |
        ⟨before, after, call', v, w, last, rfl, hbefore, hcall, hafter, hlast, ⟨hid', hpath'⟩, hends⟩
      · exact .inl ⟨row', hrow', hid.trans hid', hpath.trans hpath'⟩
      · exact .inr ⟨call :: before, after, call', v, w, last, rfl, .stepL hstep hbefore, hcall, hafter,
          hlast, ⟨hid.trans hid', hpath.trans hpath'⟩, hends⟩
    have heffect := anyStoreStep_effect hstep k
    rw [hrow] at heffect
    generalize hu : u.requests.select k = o at heffect
    cases heffect with
    | same => exact hnext row hu (.refl row)
    | moved hid he => exact hnext _ hu ⟨hid, .single he⟩
    | deleted h =>
      exact .inr ⟨[], calls, call, db, u, row, rfl, .refl, hstep, hrest, hrow, .refl row, h, .inl hu⟩
    | admitted h hgone =>
      exact .inr ⟨[], calls, call, db, u, row, rfl, .refl, hstep, hrest, hrow, .refl row,
        hgone row rfl, .inr ⟨_, hu, h⟩⟩

/-- Every row of every reachable file obeys its state; each call from there moves a row along one edge
at most and keeps what it was admitted as, deletes closed rows only and admits under a free key; and
so a row lives on through any run until a call deletes it. -/
theorem store_lifecycle {db : Database} (h : Reachable (· = Database.empty) AnyStoreStep db) :
    (∀ row ∈ db.requests.rows, RowInvariant row) ∧
    (∀ call db', AnyStoreStep db call db' → ∀ k,
      CallEffect call.1 call.2.2 k (db.requests.select k) (db'.requests.select k)) ∧
    ∀ calls db', Run AnyStoreStep db calls db' → ∀ k row, db.requests.select k = some row →
      (∃ row', db'.requests.select k = some row' ∧ Lives row row') ∨ Deleted k row db calls db' :=
  ⟨reachable_rowInvariant h, fun _ _ hstep k => anyStoreStep_effect hstep k,
    fun _ _ hrun _ _ hrow => run_lives hrun hrow⟩

/-- The admitted sample obeys its state, and lives on through a mark. -/
theorem store_lifecycle_sample :
    (sampleDatabase.requests.select (sampleRequest false).requestId).isSome = true ∧
      (∀ row ∈ sampleDatabase.requests.rows, RowInvariant row) ∧
      CallEffect sampleSettings
        (.markInProgress (sampleRequest false).requestId (str "a1") (sampleNow 17))
        (sampleRequest false).requestId
        (sampleDatabase.requests.select (sampleRequest false).requestId)
        (((StoreCall.markInProgress (sampleRequest false).requestId (str "a1") (sampleNow 17)).run
          sampleSettings plainCipher sampleDatabase).2.requests.select
            (sampleRequest false).requestId) := by
  have hfirst : AnyStoreStep Database.empty
      (sampleSettings, plainCipher, .initializeStore (sampleNow 16))
      (StoreCall.run sampleSettings plainCipher (.initializeStore (sampleNow 16))
        Database.empty).2 := .inl rfl
  have hsecond : AnyStoreStep
      (StoreCall.run sampleSettings plainCipher (.initializeStore (sampleNow 16))
        Database.empty).2
      (sampleSettings, plainCipher,
        .admitRequest (sampleRequest false) (str "c1") (str "d1") (sampleNow 17))
      sampleDatabase := .inl rfl
  obtain ⟨hrows, heffect, -⟩ :=
    store_lifecycle ⟨Database.empty, _, rfl, .stepL hfirst (.single hsecond)⟩
  refine ⟨by decide, hrows, ?_⟩
  exact heffect (sampleSettings, plainCipher, _) _ (.inl rfl) _

end Gateway
