import Gateway.Foundation.Transition
import Gateway.Store.Operations
import Gateway.Contracts.Digest

/-! What a transaction can do to the table, statement by statement. -/
namespace Gateway

open Relation (ReflTransGen)

/-- What an `UPDATE` makes of one row it matches. -/
inductive RowEdge (now : Datetime) : Row → Row → Prop
  | expire {row : Row} (h : row.isClosed = false) : RowEdge now row (row.expire now)
  | interrupt {row : Row} (h : row.state = .inProgress) :
      RowEdge now row { row with state := .ambiguous, updatedAt := timestamp now }
  | mark {row : Row} (attemptId : Str) (h : row.state = .reserved) :
      RowEdge now row { row with
        state := .inProgress, attemptId := some attemptId, updatedAt := timestamp now }
  | reset {row : Row} (h : row.state = .inProgress) :
      RowEdge now row { row with state := .reserved, attemptId := none, updatedAt := timestamp now }
  | fail {row : Row} (code : Str) (retryable : Bool) (retryAfter : Option ℤ)
      (h : row.state = .inProgress) :
      RowEdge now row { row with
        state := .failed, errorCode := some code, errorRetryable := some retryable,
        errorRetryAfterSeconds := retryAfter, updatedAt := timestamp now }
  | complete {row : Row} (mediaType deploymentId : Str) (nonce ciphertext : Bytes)
      (taskPolicyVersion : ℤ) (h : row.state = .inProgress) :
      RowEdge now row { row with
        state := .completed, outputMediaType := some mediaType, outputNonce := some nonce,
        outputCiphertext := some ciphertext, producingDeploymentId := some deploymentId,
        producingTaskPolicyVersion := some taskPolicyVersion, updatedAt := timestamp now }
  | acknowledge {row : Row} (disposition : Str) (h : row.state = .completed) :
      RowEdge now row (row.acknowledge disposition now)

/-- One statement that writes; a delete is of closed rows last touched before the cutoff, and an
insert is of a request to admit that the clock has not reached, after the counts have left it
room. -/
inductive Statement (settings : StoreSettings) (now : Datetime) (admits : InferenceRequest → Prop) :
    Table → Table → Prop
  | update {t : Table} {p : Row → Bool} {f : Row → Row} {hf : ∀ row, (f row).requestId = row.requestId}
      (h : ∀ row, p row = true → RowEdge now row (f row)) :
      Statement settings now admits t (t.update p f hf)
  | delete {t : Table} {p : Row → Bool} {cutoff : Datetime}
      (hcutoff : now.addSeconds (-settings.tombstoneRetentionSeconds) = some cutoff)
      (h : ∀ row, p row = true →
        row.isClosed = true ∧ utf8 row.updatedAt < utf8 (timestamp cutoff)) :
      Statement settings now admits t (t.delete p)
  | insert {t : Table} {request : InferenceRequest} {credentialHash requestDigest : Str}
      (h : t.select request.requestId = none) (hadmits : admits request)
      (hexpires : now < request.expiresAt)
      (htotal : openTotal t < settings.maxOpenTotal)
      (howner : openPerCredential t credentialHash < settings.maxOpenPerCredential) :
      Statement settings now admits t
        (t.insert (reservedRow request credentialHash requestDigest now) h)

/-- The statements of one transaction, in order. -/
abbrev Statements (settings : StoreSettings) (now : Datetime) (admits : InferenceRequest → Prop) :
    Table → Table → Prop :=
  ReflTransGen (Statement settings now admits)

section Writes

variable {settings : StoreSettings} {cipher : Cipher} {now : Datetime} {t t' : Table}
variable {admits : InferenceRequest → Prop}
variable {requestId attemptId credentialHash disposition : Str} {α : Type}

theorem cleanup_eq_ok : cleanup settings now t = .ok t' ↔
    ∃ cutoff, now.addSeconds (-settings.tombstoneRetentionSeconds) = some cutoff ∧
      t' = purge cutoff (expireDue now t) := by
  unfold cleanup
  cases now.addSeconds (-settings.tombstoneRetentionSeconds) <;> simp [eq_comm]

theorem statements_cleanup (h : cleanup settings now t = .ok t') : Statements settings now admits t t' := by
  obtain ⟨cutoff, hcutoff, rfl⟩ := cleanup_eq_ok.mp h
  refine .tail (.single (.update fun row hrow => ?_)) (.delete hcutoff fun row hrow => ?_)
  · have hopen : row.isClosed = false := by simpa using (Bool.and_eq_true_iff.mp hrow).1
    exact .expire hopen
  · simpa using hrow

/-- A transaction that starts with `_cleanup`. -/
def Cleaned (settings : StoreSettings) (now : Datetime) (admits : InferenceRequest → Prop)
    (t t' : Table) : Prop :=
  ∃ t₁, cleanup settings now t = .ok t₁ ∧ Statements settings now admits t₁ t'

theorem Cleaned.statements (h : Cleaned settings now admits t t') :
    Statements settings now admits t t' := by
  obtain ⟨t₁, hclean, hrest⟩ := h
  exact (statements_cleanup hclean).trans hrest

/-- A restart interrupts what was in progress, then cleans up. -/
theorem cleaned_recover (h : recover settings now t = .ok t') :
    ∃ t₀, Statement settings now admits t t₀ ∧ Cleaned settings now admits t₀ t' := by
  refine ⟨_, .update fun row hrow => ?_, t', h, .refl⟩
  exact .interrupt (by simpa using hrow)

/-- A statement on one attempt changes a row in progress only. -/
theorem statement_attempt {f : Row → Row} (hf : ∀ row, (f row).requestId = row.requestId)
    (h : ∀ row, row.state = .inProgress → RowEdge now row (f row)) :
    Statement settings now admits t (updateAttempt requestId attemptId f hf t) := by
  refine .update fun row hrow => h row ?_
  simp only [Row.isAttempt, Bool.and_eq_true, decide_eq_true_eq] at hrow
  exact hrow.2.1

theorem cleaned_admitRequest {request : InferenceRequest} {requestDigest : Str} {record : RequestRecord}
    (hadmits : admits request)
    (h : admitRequest settings now request credentialHash requestDigest t = .ok (record, t')) :
    Cleaned settings now admits t t' := by
  obtain ⟨t₁, hclean, hrest⟩ := bind_eq_ok.mp h
  refine ⟨t₁, hclean, ?_⟩
  split at hrest
  · obtain ⟨u, -, he⟩ := bind_eq_ok.mp hrest
    obtain ⟨-, rfl⟩ := Prod.mk.inj (Except.ok.inj he)
    exact .refl
  · split_ifs at hrest with hexp hcap
    obtain ⟨-, rfl⟩ := Prod.mk.inj (Except.ok.inj hrest)
    rw [not_or, not_le, not_le] at hcap
    exact .single (.insert _ hadmits (not_le.mp hexp) hcap.1 hcap.2)

theorem cleaned_getOwned {requestDigest : Option Str} {record : RequestRecord}
    (h : getOwned settings now requestId credentialHash requestDigest t = .ok (record, t')) :
    Cleaned settings now admits t t' := by
  obtain ⟨t₁, hclean, hrest⟩ := bind_eq_ok.mp h
  refine ⟨t₁, hclean, ?_⟩
  split at hrest
  · cases hrest
  · obtain ⟨u, -, he⟩ := bind_eq_ok.mp hrest
    obtain ⟨-, rfl⟩ := Prod.mk.inj (Except.ok.inj he)
    exact .refl

theorem cleaned_markInProgress {record : RequestRecord}
    (h : markInProgress settings now requestId attemptId t = .ok (record, t')) :
    Cleaned settings now admits t t' := by
  obtain ⟨t₁, hclean, hrest⟩ := bind_eq_ok.mp h
  refine ⟨t₁, hclean, ?_⟩
  simp only at hrest
  split_ifs at hrest
  split at hrest
  · cases hrest
  · obtain ⟨-, rfl⟩ := Prod.mk.inj (Except.ok.inj hrest)
    refine .single (.update fun row hrow => ?_)
    simp only [Bool.and_eq_true, decide_eq_true_eq] at hrow
    exact .mark attemptId hrow.2

theorem cleaned_complete {nonce : Bytes} {mediaType content deploymentId : Str}
    {taskPolicyVersion : ℤ} {done : Bool}
    (h : complete settings now cipher nonce requestId attemptId mediaType content deploymentId
      taskPolicyVersion t = .ok (done, t')) : Cleaned settings now admits t t' := by
  obtain ⟨t₁, hclean, hrest⟩ := bind_eq_ok.mp h
  refine ⟨t₁, hclean, ?_⟩
  split at hrest
  · obtain ⟨-, rfl⟩ := Prod.mk.inj (Except.ok.inj hrest)
    exact .refl
  · split_ifs at hrest with hexpired howned hbinds hpolicy
    · obtain ⟨-, rfl⟩ := Prod.mk.inj (Except.ok.inj hrest)
      exact .refl
    · obtain ⟨sealed, -, hrest⟩ := bind_eq_ok.mp hrest
      cases hrest
    · obtain ⟨sealed, -, hrest⟩ := bind_eq_ok.mp hrest
      obtain ⟨-, rfl⟩ := Prod.mk.inj (Except.ok.inj hrest)
      exact .single (statement_attempt _ fun row hrow => .complete _ _ _ _ _ hrow)
    · obtain ⟨sealed, -, hrest⟩ := bind_eq_ok.mp hrest
      cases hrest

theorem cleaned_acknowledge {record : RequestRecord}
    (h : acknowledge settings now requestId credentialHash disposition t = .ok (record, t')) :
    Cleaned settings now admits t t' := by
  obtain ⟨t₁, hclean, hrest⟩ := bind_eq_ok.mp h
  refine ⟨t₁, hclean, ?_⟩
  split at hrest
  · cases hrest
  · obtain ⟨u, -, hrest⟩ := bind_eq_ok.mp hrest
    split at hrest
    · split_ifs at hrest
      obtain ⟨-, rfl⟩ := Prod.mk.inj (Except.ok.inj hrest)
      exact .refl
    · cases hrest
    · simp only at hrest
      split at hrest
      · cases hrest
      · obtain ⟨-, rfl⟩ := Prod.mk.inj (Except.ok.inj hrest)
        refine .single (.update fun row hrow => ?_)
        simp only [Bool.and_eq_true, decide_eq_true_eq] at hrow
        exact .acknowledge disposition hrow.2
    · cases hrest

end Writes

/-! Runs of the store. -/

/-- A call of one operation with its arguments. -/
inductive StoreCall where
  | initializeStore (now : Datetime)
  | admitRequest (request : InferenceRequest) (credentialHash requestDigest : Str) (now : Datetime)
  | getOwned (requestId credentialHash : Str) (requestDigest : Option Str) (now : Datetime)
  | markInProgress (requestId attemptId : Str) (now : Datetime)
  | resetReserved (requestId attemptId : Str) (now : Datetime)
  | markAmbiguous (requestId attemptId : Str) (now : Datetime)
  | markFailed (requestId attemptId code : Str) (retryable : Bool) (retryAfterSeconds : Option ℤ)
      (now : Datetime)
  | complete (nonce : Bytes) (requestId attemptId mediaType content deploymentId : Str)
      (taskPolicyVersion : ℤ) (now : Datetime)
  | maintain (now : Datetime)
  | acknowledge (requestId credentialHash disposition : Str) (now : Datetime)

def StoreCall.now : StoreCall → Datetime
  | .initializeStore now => now
  | .admitRequest _ _ _ now => now
  | .getOwned _ _ _ now => now
  | .markInProgress _ _ now => now
  | .resetReserved _ _ now => now
  | .markAmbiguous _ _ now => now
  | .markFailed _ _ _ _ _ now => now
  | .complete _ _ _ _ _ _ _ now => now
  | .maintain now => now
  | .acknowledge _ _ _ now => now

/-- Whether the call runs `_cleanup`. -/
def StoreCall.cleans : StoreCall → Bool
  | .resetReserved _ _ _ => false
  | .markAmbiguous _ _ _ => false
  | .markFailed _ _ _ _ _ _ => false
  | _ => true

/-- Whether the call is to admit the request. -/
def StoreCall.Admits : StoreCall → InferenceRequest → Prop
  | .admitRequest request _ _ _ => (· = request)
  | _ => fun _ => False

/-- Whether the call returns, and what it leaves in the file. -/
def outcome {α : Type} (body : Table → Except Raised (α × Table)) (db : Database) :
    Except Raised Unit × Database :=
  ((transaction body db).1.map (fun _ => ()), (transaction body db).2)

def StoreCall.run (settings : StoreSettings) (cipher : Cipher) :
    StoreCall → Database → Except Raised Unit × Database
  | .initializeStore now => Gateway.initializeStore settings now
  | .admitRequest request credentialHash requestDigest now =>
    outcome (Gateway.admitRequest settings now request credentialHash requestDigest)
  | .getOwned requestId credentialHash requestDigest now =>
    outcome (Gateway.getOwned settings now requestId credentialHash requestDigest)
  | .markInProgress requestId attemptId now =>
    outcome (Gateway.markInProgress settings now requestId attemptId)
  | .resetReserved requestId attemptId now => outcome (Gateway.resetReserved now requestId attemptId)
  | .markAmbiguous requestId attemptId now => outcome (Gateway.markAmbiguous now requestId attemptId)
  | .markFailed requestId attemptId code retryable retryAfterSeconds now =>
    outcome (Gateway.markFailed now requestId attemptId code retryable retryAfterSeconds)
  | .complete nonce requestId attemptId mediaType content deploymentId taskPolicyVersion now =>
    outcome (Gateway.complete settings now cipher nonce requestId attemptId mediaType content
      deploymentId taskPolicyVersion)
  | .maintain now => outcome (Gateway.maintain settings now)
  | .acknowledge requestId credentialHash disposition now =>
    outcome (Gateway.acknowledge settings now requestId credentialHash disposition)

/-- A call does what it does, or fails in SQLite before its commit and leaves the file alone. -/
def StoreStep (settings : StoreSettings) (cipher : Cipher) (db : Database) (call : StoreCall)
    (db' : Database) : Prop :=
  db' = (call.run settings cipher db).2 ∨ db' = db

section Calls

variable {settings : StoreSettings} {cipher : Cipher} {now : Datetime} {t t' : Table} {α : Type}
variable {admits : InferenceRequest → Prop}

theorem statements_outcome {body : Table → Except Raised (α × Table)} {db : Database}
    (h : ∀ a t', body db.requests = .ok (a, t') → Statements settings now admits db.requests t') :
    Statements settings now admits db.requests (outcome body db).2.requests := by
  simp only [outcome, transaction]
  split
  · exact .refl
  · split
    · exact .refl
    · rename_i heq
      exact h _ _ heq

theorem cleaned_maintain {u : Unit} (h : maintain settings now t = .ok (u, t')) :
    Cleaned settings now admits t t' := by
  obtain ⟨t₁, hclean, he⟩ := bind_eq_ok.mp h
  obtain ⟨-, rfl⟩ := Prod.mk.inj (Except.ok.inj he)
  exact ⟨t₁, hclean, .refl⟩

theorem statements_initializeStore (db : Database) :
    Statements settings now admits db.requests (initializeStore settings now db).2.requests := by
  unfold initializeStore
  simp only
  split_ifs
  · exact .refl
  · split
    · exact .refl
    · rename_i heq
      obtain ⟨t₀, hinterrupt, hclean⟩ := cleaned_recover heq
      exact .head hinterrupt hclean.statements

theorem statements_run (call : StoreCall) (db : Database) :
    Statements settings call.now call.Admits db.requests (call.run settings cipher db).2.requests := by
  cases call with
  | initializeStore now => exact statements_initializeStore db
  | admitRequest request credentialHash requestDigest now =>
    exact statements_outcome fun _ _ h => (cleaned_admitRequest (by rfl) h).statements
  | getOwned requestId credentialHash requestDigest now =>
    exact statements_outcome fun _ _ h => (cleaned_getOwned h).statements
  | markInProgress requestId attemptId now =>
    exact statements_outcome fun _ _ h => (cleaned_markInProgress h).statements
  | resetReserved requestId attemptId now =>
    refine statements_outcome fun _ _ h => ?_
    obtain ⟨-, rfl⟩ := Prod.mk.inj (Except.ok.inj h)
    exact .single (statement_attempt _ fun row hrow => .reset hrow)
  | markAmbiguous requestId attemptId now =>
    refine statements_outcome fun _ _ h => ?_
    obtain ⟨-, rfl⟩ := Prod.mk.inj (Except.ok.inj h)
    exact .single (statement_attempt _ fun row hrow => .interrupt hrow)
  | markFailed requestId attemptId code retryable retryAfterSeconds now =>
    refine statements_outcome fun _ _ h => ?_
    obtain ⟨-, rfl⟩ := Prod.mk.inj (Except.ok.inj h)
    exact .single (statement_attempt _ fun row hrow => .fail code retryable retryAfterSeconds hrow)
  | complete nonce requestId attemptId mediaType content deploymentId taskPolicyVersion now =>
    exact statements_outcome fun _ _ h => (cleaned_complete h).statements
  | maintain now => exact statements_outcome fun _ _ h => (cleaned_maintain h).statements
  | acknowledge requestId credentialHash disposition now =>
    exact statements_outcome fun _ _ h => (cleaned_acknowledge h).statements

theorem cleaned_outcome {body : Table → Except Raised (α × Table)} {db : Database}
    (h : ∀ a t', body db.requests = .ok (a, t') → Cleaned settings now admits db.requests t')
    (hok : (outcome body db).1 = .ok ()) :
    Cleaned settings now admits db.requests (outcome body db).2.requests := by
  simp only [outcome, transaction] at hok ⊢
  split at hok
  · cases hok
  · split at hok
    · cases hok
    · rename_i heq
      simp only [*]
      exact h _ _ heq

theorem transaction_error {α : Type} {body : Table → Except Raised (α × Table)} {db : Database}
    {e : Raised} (h : (transaction body db).1 = .error e) : (transaction body db).2 = db := by
  unfold transaction at h ⊢
  split
  · rfl
  · split
    · rfl
    · simp_all

theorem transaction_ok {body : Table → Except Raised (α × Table)} {db db' : Database} {a : α}
    (h : transaction body db = (.ok a, db')) :
    ∃ t', body db.requests = .ok (a, t') ∧ db'.requests = t' := by
  unfold transaction at h
  split at h
  · cases h
  · split at h
    · cases h
    · rename_i b requests heq
      obtain ⟨hb, rfl⟩ := Prod.mk.inj h
      obtain rfl := Except.ok.inj hb
      exact ⟨requests, heq, rfl⟩

theorem outcome_ok {body : Table → Except Raised (α × Table)} {db : Database}
    {version : ℤ} {a : α} (hv : db.version = some version) (h : body db.requests = .ok (a, t)) :
    (outcome body db).2.version = some version ∧ (outcome body db).2.requests = t := by
  simp only [outcome, transaction]
  split
  · simp_all
  · rename_i v hversion
    obtain rfl := Option.some.inj (hversion.symm.trans hv)
    split
    · simp_all
    · rename_i heq
      rw [h] at heq
      obtain ⟨-, rfl⟩ := Prod.mk.inj (Except.ok.inj heq)
      exact ⟨rfl, rfl⟩

/-- A call that raises leaves the file as it was. -/
theorem run_error {call : StoreCall} {db : Database} {e : Raised}
    (h : (call.run settings cipher db).1 = .error e) : (call.run settings cipher db).2 = db := by
  have houtcome : ∀ {α : Type} (body : Table → Except Raised (α × Table)),
      (outcome body db).1 = .error e → (outcome body db).2 = db := by
    intro α body h
    unfold outcome at h ⊢
    simp only at h ⊢
    cases ht : (transaction body db).1 with
    | error e' => exact transaction_error ht
    | ok a =>
      rw [ht] at h
      cases h
  cases call with
  | initializeStore now =>
    simp only [StoreCall.run, Gateway.initializeStore] at h ⊢
    split_ifs at h ⊢
    · rfl
    · split at h <;> simp_all
  | _ => exact houtcome _ h

/-- A cleaning call that returns has cleaned up, after interrupting at most. -/
theorem cleaned_run {call : StoreCall} {db : Database} (hc : call.cleans = true)
    (hok : (call.run settings cipher db).1 = .ok ()) :
    ∃ t₀, Statements settings call.now call.Admits db.requests t₀ ∧
      Cleaned settings call.now call.Admits t₀ (call.run settings cipher db).2.requests := by
  cases call with
  | initializeStore now =>
    simp only [StoreCall.run, Gateway.initializeStore] at hok ⊢
    split_ifs at hok ⊢
    split at hok
    · cases hok
    · rename_i heq
      obtain ⟨t₀, hinterrupt, hclean⟩ := cleaned_recover heq
      simp only [*]
      exact ⟨t₀, .single hinterrupt, hclean⟩
  | admitRequest request credentialHash requestDigest now =>
    exact ⟨_, .refl, cleaned_outcome (fun _ _ h => cleaned_admitRequest rfl h) hok⟩
  | getOwned requestId credentialHash requestDigest now =>
    exact ⟨_, .refl, cleaned_outcome (fun _ _ h => cleaned_getOwned h) hok⟩
  | markInProgress requestId attemptId now =>
    exact ⟨_, .refl, cleaned_outcome (fun _ _ h => cleaned_markInProgress h) hok⟩
  | complete nonce requestId attemptId mediaType content deploymentId taskPolicyVersion now =>
    exact ⟨_, .refl, cleaned_outcome (fun _ _ h => cleaned_complete h) hok⟩
  | maintain now => exact ⟨_, .refl, cleaned_outcome (fun _ _ h => cleaned_maintain h) hok⟩
  | acknowledge requestId credentialHash disposition now =>
    exact ⟨_, .refl, cleaned_outcome (fun _ _ h => cleaned_acknowledge h) hok⟩
  | _ => simp [StoreCall.cleans] at hc

theorem statements_step {db db' : Database} {call : StoreCall}
    (h : StoreStep settings cipher db call db') :
    Statements settings call.now call.Admits db.requests db'.requests := by
  rcases h with rfl | rfl
  · exact statements_run call db
  · exact .refl

end Calls

/-! The sample request under a store of room for it, with a cipher that hides nothing. -/

def sampleSettings : StoreSettings := ⟨8, 4, 3600⟩

def plainCipher : Cipher := ⟨fun _ text _ => text, fun _ ciphertext _ => some ciphertext⟩

def sampleNow (hour : ℕ) : Datetime := sampleMoment hour 0 0 0

/-- The file after a start at 16:00 and the admission of the sample request at 17:00. -/
def sampleDatabase : Database :=
  ((StoreCall.admitRequest (sampleRequest false) (str "c1") (str "d1") (sampleNow 17)).run
    sampleSettings plainCipher
    ((StoreCall.initializeStore (sampleNow 16)).run sampleSettings plainCipher
      Database.empty).2).2

end Gateway
