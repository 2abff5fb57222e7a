import Gateway.Foundation.Calendar
import Gateway.Store.Maintained

/-! Maintenance is observationally transparent within one retention. -/
namespace Gateway

variable {settings : StoreSettings} {cipher : Cipher} {first now m : Datetime} {t t' : Table}
variable {db db' : Database} {α β : Type}

/-- What a call returns, as far as its caller can tell. -/
inductive Answer where
  | record (o : Observation)
  | done (b : Bool)
  | nothing

def answerOf (view : α → Answer) (body : Table → Except Raised (α × Table)) (db : Database) :
    Except Raised Answer × Database :=
  ((transaction body db).1.map view, (transaction body db).2)

/-- The answer of a call, and the file after it. -/
def StoreCall.answer (settings : StoreSettings) (cipher : Cipher) :
    StoreCall → Database → Except Raised Answer × Database
  | .initializeStore now => fun db =>
    ((Gateway.initializeStore settings now db).1.map (fun _ => .nothing),
      (Gateway.initializeStore settings now db).2)
  | .admitRequest request credentialHash requestDigest now =>
    answerOf (fun record => .record (record.observe cipher))
      (Gateway.admitRequest settings now request credentialHash requestDigest)
  | .getOwned requestId credentialHash requestDigest now =>
    answerOf (fun record => .record (record.observe cipher))
      (Gateway.getOwned settings now requestId credentialHash requestDigest)
  | .markInProgress requestId attemptId now =>
    answerOf (fun record => .record (record.observe cipher))
      (Gateway.markInProgress settings now requestId attemptId)
  | .resetReserved requestId attemptId now =>
    answerOf (fun _ => .nothing) (Gateway.resetReserved now requestId attemptId)
  | .markAmbiguous requestId attemptId now =>
    answerOf (fun _ => .nothing) (Gateway.markAmbiguous now requestId attemptId)
  | .markFailed requestId attemptId code retryable retryAfterSeconds now =>
    answerOf (fun _ => .nothing)
      (Gateway.markFailed now requestId attemptId code retryable retryAfterSeconds)
  | .complete nonce requestId attemptId mediaType content deploymentId taskPolicyVersion now =>
    answerOf .done (Gateway.complete settings now cipher nonce requestId attemptId mediaType content
      deploymentId taskPolicyVersion)
  | .maintain now => answerOf (fun _ => .nothing) (Gateway.maintain settings now)
  | .acknowledge requestId credentialHash disposition now =>
    answerOf (fun record => .record (record.observe cipher))
      (Gateway.acknowledge settings now requestId credentialHash disposition)

/-- The file after an answer is the file after the call. -/
theorem answer_run (call : StoreCall) :
    (call.answer settings cipher db).2 = (call.run settings cipher db).2 := by
  cases call <;> rfl

/-- A file and the same file with extra maintenance, both last changed since the first call. -/
structure Beside (first now : Datetime) (db db' : Database) : Prop where
  version : db.version = db'.version
  ahead : Ahead now db.requests db'.requests
  fresh : Fresh first db.requests
  fresh' : Fresh first db'.requests

/-- The cutoff of a cleanup lies before the first call. -/
def Spans (settings : StoreSettings) (first now : Datetime) : Prop :=
  ∀ cutoff, now.addSeconds (-settings.tombstoneRetentionSeconds) = some cutoff → cutoff ≤ first

theorem rowEdge_updatedAt {row row' : Row} (h : RowEdge now row row') :
    row'.updatedAt = timestamp now := by
  cases h <;> rfl

theorem statement_fresh {admits : InferenceRequest → Prop} (h : Statement settings now admits t t')
    (hfirst : first ≤ now) (hfresh : Fresh first t) : Fresh first t' := by
  intro row hrow
  cases h with
  | update hedge =>
    rcases mem_update hrow with ⟨r, hr, hmatch, rfl⟩ | hr
    · rw [rowEdge_updatedAt (hedge r hmatch)]
      exact timestamp_mono hfirst
    · exact hfresh row hr
  | delete _ _ => exact hfresh row (List.mem_filter.mp hrow).1
  | insert _ _ _ _ _ =>
    rcases List.mem_cons.mp hrow with rfl | hr
    · exact timestamp_mono hfirst
    · exact hfresh row hr

theorem statements_fresh {admits : InferenceRequest → Prop}
    (h : Statements settings now admits t t') (hfirst : first ≤ now) (hfresh : Fresh first t) :
    Fresh first t' := by
  induction h with
  | refl => exact hfresh
  | tail _ hstep ih => exact statement_fresh hstep hfirst ih

theorem answer_fresh {call : StoreCall} (hfirst : first ≤ call.now) (hfresh : Fresh first db.requests) :
    Fresh first (call.answer settings cipher db).2.requests := by
  rw [answer_run]
  exact statements_fresh (statements_run call db) hfirst hfresh

/-- Both cleanups raise, or both tables agree afterwards. -/
theorem cleanup_ahead (h : Ahead now t t') (hfresh : Fresh first t) (hfresh' : Fresh first t')
    (hfirst : first ≤ now) (hspan : Spans settings first now) :
    (∃ e, cleanup settings now t = .error e ∧ cleanup settings now t' = .error e) ∨
      ∃ t₁ t₁', cleanup settings now t = .ok t₁ ∧ cleanup settings now t' = .ok t₁' ∧
        Agreed t₁ t₁' := by
  cases hcutoff : now.addSeconds (-settings.tombstoneRetentionSeconds) with
  | none =>
    have herror : ∀ t, cleanup settings now t = .error .overflowError := by
      intro t
      unfold cleanup
      rw [hcutoff]
    exact .inl ⟨_, herror t, herror t'⟩
  | some cutoff =>
    refine .inr ⟨expireDue now t, expireDue now t', ?_, ?_, h.cleaned⟩
    · exact cleanup_eq_ok.mpr ⟨cutoff, hcutoff, (cleanup_fresh hfresh hfirst (hspan _ hcutoff)).symm⟩
    · exact cleanup_eq_ok.mpr ⟨cutoff, hcutoff, (cleanup_fresh hfresh' hfirst (hspan _ hcutoff)).symm⟩

/-- An operation that starts with its cleanup answers the same on both. -/
theorem sameResult_cleaned {view : α → β} {body : Table → Except Raised (α × Table)}
    (hbody : ∃ rest, ∀ t, body t = cleanup settings now t >>= rest)
    (hsame : ∀ t₁ t₁', cleanup settings now t = .ok t₁ → cleanup settings now t' = .ok t₁' →
      Agreed t₁ t₁' → SameResult view (body t) (body t'))
    (h : Ahead now t t') (hfresh : Fresh first t) (hfresh' : Fresh first t')
    (hfirst : first ≤ now) (hspan : Spans settings first now) :
    SameResult view (body t) (body t') := by
  rcases cleanup_ahead h hfresh hfresh' hfirst hspan with ⟨e, he, he'⟩ | ⟨t₁, t₁', hc, hc', hagreed⟩
  · obtain ⟨rest, hrest⟩ := hbody
    rw [hrest, hrest, he, he']
    exact .error e
  · exact hsame t₁ t₁' hc hc' hagreed

theorem answerOf_same {obs : α → β} {view : α → Answer} {body : Table → Except Raised (α × Table)}
    (hversion : db.version = db'.version) (hahead : Ahead now db.requests db'.requests)
    (hsame : SameResult obs (body db.requests) (body db'.requests))
    (hview : ∀ a a', obs a = obs a' → view a = view a') :
    (answerOf view body db).1 = (answerOf view body db').1 ∧
      (answerOf view body db).2.version = (answerOf view body db').2.version ∧
        Ahead now (answerOf view body db).2.requests (answerOf view body db').2.requests := by
  unfold answerOf transaction
  cases hv : db.version with
  | none =>
    have hv' : db'.version = none := hversion.symm.trans hv
    simp only [hv']
    exact ⟨trivial, hv, hahead⟩
  | some version =>
    have hv' : db'.version = some version := hversion.symm.trans hv
    simp only [hv']
    generalize body db.requests = r, body db'.requests = r' at hsame
    cases hsame with
    | error e => exact ⟨rfl, hv.trans hv'.symm, hahead⟩
    | ok hobs hagreed => exact ⟨congrArg Except.ok (hview _ _ hobs), rfl, hagreed.ahead⟩

theorem initializeStore_ok (hv : db.version.getD schemaVersion = schemaVersion)
    (h : recover settings now db.requests = .ok t) :
    (initializeStore settings now db).1 = .ok () ∧
      (initializeStore settings now db).2.version = some schemaVersion ∧
        (initializeStore settings now db).2.requests = t := by
  unfold initializeStore
  simp only [hv, ne_eq, not_true_eq_false, if_false, h]
  exact ⟨trivial, trivial, trivial⟩

theorem initializeStore_error {e : Raised} (hv : db.version.getD schemaVersion = schemaVersion)
    (h : recover settings now db.requests = .error e) :
    initializeStore settings now db = (.error e, db) := by
  unfold initializeStore
  simp only [hv, ne_eq, not_true_eq_false, if_false, h]

section Step

variable (h : Beside first now db db') (hle : now ≤ m) (hfirst : first ≤ m)
variable (hspan : Spans settings first m)
include h hle hfirst hspan

theorem answerOf_cleaned {obs : α → β} {view : α → Answer}
    {body : Table → Except Raised (α × Table)}
    (hbody : ∃ rest, ∀ t, body t = cleanup settings m t >>= rest)
    (hsame : ∀ t t' t₁ t₁', cleanup settings m t = .ok t₁ → cleanup settings m t' = .ok t₁' →
      Agreed t₁ t₁' → SameResult obs (body t) (body t'))
    (hview : ∀ a a', obs a = obs a' → view a = view a') :
    (answerOf view body db).1 = (answerOf view body db').1 ∧
      (answerOf view body db).2.version = (answerOf view body db').2.version ∧
        Ahead m (answerOf view body db).2.requests (answerOf view body db').2.requests :=
  answerOf_same h.version (h.ahead.mono hle)
    (sameResult_cleaned hbody (hsame _ _) (h.ahead.mono hle) h.fresh h.fresh' hfirst hspan) hview

omit hfirst hspan in
theorem answerOf_attempt {requestId attemptId : Str} {f : Row → Row}
    (hf : ∀ row, (f row).requestId = row.requestId) (hid : ∀ row, SameIdentity row (f row))
    (hopen : ∀ row, (f row).isClosed = false) {body : Table → Except Raised (Unit × Table)}
    (hbody : ∀ t, body t = .ok ((), updateAttempt requestId attemptId f hf t)) :
    (answerOf (fun _ => .nothing) body db).1 = (answerOf (fun _ => .nothing) body db').1 ∧
      (answerOf (fun _ => .nothing) body db).2.version =
        (answerOf (fun _ => .nothing) body db').2.version ∧
        Ahead m (answerOf (fun _ => .nothing) body db).2.requests
          (answerOf (fun _ => .nothing) body db').2.requests := by
  have hahead := Ahead.update (p := fun row => row.isAttempt requestId attemptId) hf (h.ahead.mono hle)
    (fun row hs => by simp [Row.isAttempt, hs]) hid hopen
  unfold answerOf transaction
  cases hv : db.version with
  | none =>
    have hv' : db'.version = none := h.version.symm.trans hv
    simp only [hv']
    exact ⟨trivial, hv, h.ahead.mono hle⟩
  | some version =>
    have hv' : db'.version = some version := h.version.symm.trans hv
    simp only [hv', hbody]
    exact ⟨trivial, trivial, hahead⟩

theorem initializeStore_same :
    (initializeStore settings m db).1 = (initializeStore settings m db').1 ∧
      (initializeStore settings m db).2.version = (initializeStore settings m db').2.version ∧
        Ahead m (initializeStore settings m db).2.requests
          (initializeStore settings m db').2.requests := by
  have hinterrupted := Ahead.update (p := fun row => row.state = .inProgress)
    (f := fun row => row.interrupt m) (fun _ => rfl) (h.ahead.mono hle) (fun row hs => by simp [hs])
    (fun _ => ⟨rfl, rfl, rfl, rfl, rfl, rfl⟩) (fun _ => rfl)
  have hfresh : ∀ {t}, Fresh first t → Fresh first (t.update (fun row => row.state = .inProgress)
      (fun row => row.interrupt m) (fun _ => rfl)) := fun hf =>
    have hstep : Statement settings m (fun _ => False) _ _ :=
      .update fun row hs => .interrupt (by simpa using hs)
    statement_fresh hstep hfirst hf
  have hclean := cleanup_ahead hinterrupted (hfresh h.fresh) (hfresh h.fresh') hfirst hspan
  have hget : db.version.getD schemaVersion = db'.version.getD schemaVersion := by rw [h.version]
  by_cases hv : db'.version.getD schemaVersion = schemaVersion
  · rcases hclean with ⟨e, he, he'⟩ | ⟨t₁, t₁', hc, hc', hagreed⟩
    · rw [initializeStore_error (hget.trans hv) he, initializeStore_error hv he']
      exact ⟨rfl, h.version, h.ahead.mono hle⟩
    · obtain ⟨hok, hversion, rfl⟩ := initializeStore_ok (hget.trans hv) hc
      obtain ⟨hok', hversion', rfl⟩ := initializeStore_ok hv hc'
      exact ⟨hok.trans hok'.symm, hversion.trans hversion'.symm, hagreed.ahead⟩
  · simp only [initializeStore, hget, ne_eq, hv, not_false_eq_true, if_true]
    exact ⟨trivial, h.version, h.ahead.mono hle⟩

end Step

/-- One call on both stores: the same answer, and the stores stay side by side. -/
theorem answer_beside (call : StoreCall) (h : Beside first now db db') (hle : now ≤ call.now)
    (hfirst : first ≤ call.now) (hspan : Spans settings first call.now) :
    (call.answer settings cipher db).1 = (call.answer settings cipher db').1 ∧
      Beside first call.now (call.answer settings cipher db).2 (call.answer settings cipher db').2 := by
  have hfresh : Fresh first (call.answer settings cipher db).2.requests :=
    answer_fresh hfirst h.fresh
  have hfresh' : Fresh first (call.answer settings cipher db').2.requests :=
    answer_fresh hfirst h.fresh'
  suffices hsame : (call.answer settings cipher db).1 = (call.answer settings cipher db').1 ∧
      (call.answer settings cipher db).2.version = (call.answer settings cipher db').2.version ∧
        Ahead call.now (call.answer settings cipher db).2.requests
          (call.answer settings cipher db').2.requests from
    ⟨hsame.1, hsame.2.1, hsame.2.2, hfresh, hfresh'⟩
  have hrecord : ∀ a a' : RequestRecord, a.observe cipher = a'.observe cipher →
      Answer.record (a.observe cipher) = .record (a'.observe cipher) := fun _ _ => congrArg _
  cases call with
  | initializeStore now =>
    obtain ⟨hresult, hrest⟩ := initializeStore_same h hle hfirst hspan
    exact ⟨congrArg (Except.map fun _ => Answer.nothing) hresult, hrest⟩
  | admitRequest request credentialHash requestDigest now =>
    exact answerOf_cleaned h hle hfirst hspan ⟨_, fun _ => rfl⟩
      (fun _ _ _ _ hc hc' ha => admit_same hc hc' ha) hrecord
  | getOwned requestId credentialHash requestDigest now =>
    exact answerOf_cleaned h hle hfirst hspan ⟨_, fun _ => rfl⟩
      (fun _ _ _ _ hc hc' ha => getOwned_same hc hc' ha) hrecord
  | markInProgress requestId attemptId now =>
    exact answerOf_cleaned h hle hfirst hspan ⟨_, fun _ => rfl⟩
      (fun _ _ _ _ hc hc' ha => markInProgress_same hc hc' ha) hrecord
  | resetReserved requestId attemptId now =>
    exact answerOf_attempt (f := fun row => row.reset now) h hle (fun _ => rfl)
      (fun _ => ⟨rfl, rfl, rfl, rfl, rfl, rfl⟩) (fun _ => rfl) fun _ => rfl
  | markAmbiguous requestId attemptId now =>
    exact answerOf_attempt (f := fun row => row.interrupt now) h hle (fun _ => rfl)
      (fun _ => ⟨rfl, rfl, rfl, rfl, rfl, rfl⟩) (fun _ => rfl) fun _ => rfl
  | markFailed requestId attemptId code retryable retryAfterSeconds now =>
    exact answerOf_attempt (f := fun row => row.fail code retryable retryAfterSeconds now) h hle (fun _ => rfl)
      (fun _ => ⟨rfl, rfl, rfl, rfl, rfl, rfl⟩) (fun _ => rfl) fun _ => rfl
  | complete nonce requestId attemptId mediaType content deploymentId taskPolicyVersion now =>
    exact answerOf_cleaned h hle hfirst hspan ⟨_, fun _ => rfl⟩
      (fun _ _ _ _ hc hc' ha => complete_same hc hc' ha) (fun _ _ => congrArg _)
  | maintain now =>
    refine @answerOf_cleaned _ _ _ _ _ _ _ _ h hle hfirst hspan id _ _ ⟨_, fun _ => rfl⟩
      (fun t t' t₁ t₁' hc hc' ha => ?_) (fun _ _ _ => rfl)
    have hm : maintain settings now t = .ok ((), t₁) := maintain_eq hc
    have hm' : maintain settings now t' = .ok ((), t₁') := maintain_eq hc'
    rw [hm, hm']
    exact .ok rfl ha
  | acknowledge requestId credentialHash disposition now =>
    exact answerOf_cleaned h hle hfirst hspan ⟨_, fun _ => rfl⟩
      (fun _ _ _ _ hc hc' ha => acknowledge_same hc hc' ha) hrecord

/-- A run of maintenance alone. -/
def maintainAll (settings : StoreSettings) (cipher : Cipher) (db : Database) (nows : List Datetime) :
    Database :=
  nows.foldl (fun db now => ((StoreCall.maintain now).answer settings cipher db).2) db

/-- Maintenance within the retention does nothing, or expires what is due. -/
theorem maintain_answer (hfresh : Fresh first db.requests) (hfirst : first ≤ m)
    (hspan : Spans settings first m) :
    ((StoreCall.maintain m).answer settings cipher db).2 = db ∨
      ((StoreCall.maintain m).answer settings cipher db).2.version = db.version ∧
        ((StoreCall.maintain m).answer settings cipher db).2.requests = expireDue m db.requests := by
  rw [answer_run]
  cases hr : ((StoreCall.maintain m).run settings cipher db).1 with
  | error e => exact .inl (run_error hr)
  | ok u =>
    cases hv : db.version with
    | none =>
      simp only [StoreCall.run, outcome, transaction, hv] at hr
      cases hr
    | some version =>
      obtain ⟨t₀, -, t₁, hclean, -⟩ := cleaned_run rfl hr
      obtain ⟨cutoff, hcutoff, -⟩ := cleanup_eq_ok.mp hclean
      have hclean' : cleanup settings m db.requests = .ok (expireDue m db.requests) :=
        cleanup_eq_ok.mpr ⟨cutoff, hcutoff, (cleanup_fresh hfresh hfirst (hspan _ hcutoff)).symm⟩
      exact .inr (outcome_ok hv (maintain_eq hclean'))

/-- Maintenance of the second store only. -/
theorem maintained_beside (h : Beside first now db db') (hle : now ≤ m) (hfirst : first ≤ m)
    (hspan : Spans settings first m) :
    Beside first m db ((StoreCall.maintain m).answer settings cipher db').2 := by
  have hahead := h.ahead.mono hle
  have hfresh' : Fresh first ((StoreCall.maintain m).answer settings cipher db').2.requests :=
    answer_fresh hfirst h.fresh'
  have hanswer : ((StoreCall.maintain m).answer settings cipher db').2 = db' ∨ _ :=
    maintain_answer h.fresh' hfirst hspan
  rcases hanswer with hsame | ⟨hversion, hrequests⟩
  · rw [hsame]
    exact ⟨h.version, hahead, h.fresh, h.fresh'⟩
  · refine ⟨h.version.trans hversion.symm, ?_, h.fresh, hfresh'⟩
    rw [hrequests]
    exact hahead.maintained

/-- The answers to the calls, in order. -/
def answers (settings : StoreSettings) (cipher : Cipher) :
    Database → List StoreCall → List (Except Raised Answer)
  | _, [] => []
  | db, call :: calls =>
    (call.answer settings cipher db).1 :: answers settings cipher (call.answer settings cipher db).2 calls

/-- The answers to the calls, with maintenance at the given times before each. -/
def maintainedAnswers (settings : StoreSettings) (cipher : Cipher) :
    Database → List (List Datetime × StoreCall) → List (Except Raised Answer)
  | _, [] => []
  | db, (nows, call) :: items =>
    (call.answer settings cipher (maintainAll settings cipher db nows)).1 ::
      maintainedAnswers settings cipher
        (call.answer settings cipher (maintainAll settings cipher db nows)).2 items

/-- All times of the maintained run, in order. -/
def times (items : List (List Datetime × StoreCall)) : List Datetime :=
  items.flatMap fun item => item.1 ++ [item.2.now]

theorem maintainAll_beside {nows : List Datetime} {last : Datetime} (h : Beside first now db db')
    (hfirst : first ≤ now) (hsorted : (now :: (nows ++ [last])).Pairwise (· ≤ ·))
    (hspan : ∀ m ∈ nows, Spans settings first m) :
    Beside first last db (maintainAll settings cipher db' nows) := by
  induction nows generalizing now db' with
  | nil =>
    have hle : now ≤ last := by simpa using hsorted
    exact ⟨h.version, h.ahead.mono hle, h.fresh, h.fresh'⟩
  | cons m nows ih =>
    obtain ⟨hfrom, hrest⟩ := List.pairwise_cons.mp hsorted
    have hle : now ≤ m := hfrom m (by simp)
    exact ih (maintained_beside h hle (hfirst.trans hle) (hspan m (by simp))) (hfirst.trans hle) hrest
      fun m hm => hspan m (List.mem_cons_of_mem _ hm)

theorem answers_beside {items : List (List Datetime × StoreCall)} (h : Beside first now db db')
    (hfirst : first ≤ now) (hsorted : (now :: times items).Pairwise (· ≤ ·))
    (hspan : ∀ m ∈ times items, Spans settings first m) :
    answers settings cipher db (items.map Prod.snd) =
      maintainedAnswers settings cipher db' items := by
  induction items generalizing now db db' with
  | nil => rfl
  | cons item items ih =>
    obtain ⟨nows, call⟩ := item
    have htimes : times ((nows, call) :: items) = (nows ++ [call.now]) ++ times items := rfl
    rw [htimes] at hsorted hspan
    have hhead : (now :: (nows ++ [call.now])).Pairwise (· ≤ ·) := by
      rw [← List.cons_append] at hsorted
      exact (List.pairwise_append.mp hsorted).1
    have hle : now ≤ call.now := (List.pairwise_cons.mp hhead).1 _ (by simp)
    have htail : (call.now :: times items).Pairwise (· ≤ ·) := by
      have hrest := (List.pairwise_cons.mp hsorted).2
      rw [List.append_assoc] at hrest
      exact (List.pairwise_append.mp hrest).2.1
    have hbeside : Beside first call.now db (maintainAll settings cipher db' nows) :=
      maintainAll_beside h hfirst hhead fun m hm => hspan m (by simp [hm])
    have hcall : (call.answer settings cipher db).1 =
        (call.answer settings cipher (maintainAll settings cipher db' nows)).1 ∧ _ :=
      answer_beside call hbeside le_rfl (hfirst.trans hle) (hspan call.now (by simp))
    obtain ⟨hanswer, hnext⟩ := hcall
    have hrest := ih hnext (hfirst.trans hle) htail fun m hm => hspan m (List.mem_append_right _ hm)
    simp only [List.map_cons, answers, maintainedAnswers, hanswer, hrest]

theorem spans_of (h : m.absolute - first.absolute ≤ settings.tombstoneRetentionSeconds * 1000000) :
    Spans settings first m := by
  intro cutoff hcutoff
  have habs := Datetime.addSeconds_eq_some hcutoff
  rw [← Datetime.absolute_le_iff]
  omega

/-- Every time is at most that of a call. -/
theorem times_le {items : List (List Datetime × StoreCall)} (h : (times items).Pairwise (· ≤ ·))
    (hm : m ∈ times items) : ∃ item ∈ items, m ≤ item.2.now := by
  induction items with
  | nil => cases hm
  | cons item items ih =>
    have htimes : times (item :: items) = (item.1 ++ [item.2.now]) ++ times items := rfl
    rw [htimes] at h hm
    obtain ⟨hhead, htail, -⟩ := List.pairwise_append.mp h
    rcases List.mem_append.mp hm with hm | hm
    · refine ⟨item, List.mem_cons_self, ?_⟩
      rcases List.mem_append.mp hm with hm | hm
      · exact (List.pairwise_append.mp hhead).2.2 m hm _ (by simp)
      · exact (List.mem_singleton.mp hm).le
    · obtain ⟨other, hother, hle⟩ := ih htail hm
      exact ⟨other, List.mem_cons_of_mem _ hother, hle⟩

/-- Maintenance of an empty store leaves it empty. -/
theorem maintainAll_empty {nows : List Datetime} (hretention : 0 ≤ settings.tombstoneRetentionSeconds)
    (h : db.requests.rows = []) :
    (maintainAll settings cipher db nows).version = db.version ∧
      (maintainAll settings cipher db nows).requests.rows = [] := by
  induction nows generalizing db with
  | nil => exact ⟨rfl, h⟩
  | cons m nows ih =>
    have hfresh : Fresh m db.requests := by simp [Fresh, h]
    have hspan : Spans settings m m := spans_of (by omega)
    have hanswer : ((StoreCall.maintain m).answer settings cipher db).2 = db ∨ _ :=
      maintain_answer hfresh le_rfl hspan
    rcases hanswer with hsame | ⟨hversion, hrequests⟩
    · rw [maintainAll, List.foldl_cons, hsame]
      exact ih h
    · have hrows : ((StoreCall.maintain m).answer settings cipher db).2.requests.rows = [] := by
        rw [hrequests]
        simp [expireDue, KeyedTable.update, h]
      obtain ⟨hv, hr⟩ := ih hrows
      exact ⟨hv.trans hversion, hr⟩

/-- Maintenance is transparent: on an empty store, calls at times that do not decrease and lie
within one retention have the same answers with any maintenance between them. -/
theorem maintenance_transparent {items : List (List Datetime × StoreCall)}
    (hempty : db.requests.rows = []) (hsorted : (times items).Pairwise (· ≤ ·))
    (hspan : ∀ i ∈ items, ∀ j ∈ items,
      j.2.now.absolute - i.2.now.absolute ≤ settings.tombstoneRetentionSeconds * 1000000) :
    answers settings cipher db (items.map Prod.snd) =
      maintainedAnswers settings cipher db items := by
  cases items with
  | nil => rfl
  | cons item items =>
    obtain ⟨nows, call⟩ := item
    have hretention := hspan (nows, call) (by simp) (nows, call) (by simp)
    have hmaintained : (maintainAll settings cipher db nows).version = db.version ∧ _ :=
      maintainAll_empty (by omega) hempty
    obtain ⟨hversion, hrows⟩ := hmaintained
    have hbeside : Beside call.now call.now db (maintainAll settings cipher db nows) := by
      refine ⟨hversion.symm, ?_, ?_, ?_⟩ <;>
        simp [Ahead, KeyedTable.Related, Fresh, hempty, hrows]
    have htimes : times ((nows, call) :: items) = nows ++ times (([], call) :: items) := by
      simp [times]
    have hsorted' : (times (([], call) :: items)).Pairwise (· ≤ ·) := by
      rw [htimes] at hsorted
      exact (List.pairwise_append.mp hsorted).2.1
    have hfrom : (call.now :: times (([], call) :: items)).Pairwise (· ≤ ·) := by
      refine List.pairwise_cons.mpr ⟨fun m hm => ?_, hsorted'⟩
      rcases List.mem_cons.mp hm with rfl | hm
      · exact le_rfl
      · exact (List.pairwise_cons.mp hsorted').1 m hm
    refine @answers_beside _ _ _ _ _ _ (([], call) :: items) hbeside le_rfl hfrom fun m hm => ?_
    obtain ⟨item, hitem, hle⟩ := times_le hsorted' hm
    have hle' := Datetime.absolute_le_iff.mpr hle
    have hwithin : item.2.now.absolute - call.now.absolute ≤
        settings.tombstoneRetentionSeconds * 1000000 := by
      rcases List.mem_cons.mp hitem with rfl | hitem
      · exact hspan (nows, call) (by simp) (nows, call) (by simp)
      · exact hspan (nows, call) (by simp) item (by simp [hitem])
    exact spans_of (by omega)

/-- Admitted and dispatched at 17:00 and failed at 23:00, past its expiry, after maintenance. -/
def maintainedItems : List (List Datetime × StoreCall) :=
  let id := (sampleRequest false).requestId
  [([], .initializeStore (sampleNow 16)),
    ([], .admitRequest (sampleRequest false) (str "c1") (str "d1") (sampleNow 17)),
    ([], .markInProgress id (str "a1") (sampleNow 17)),
    ([sampleNow 19],
      .markFailed id (str "a1") (str "invalid_worker_output") false none (sampleNow 23)),
    ([], .getOwned id (str "c1") (some (str "d1")) (sampleNow 23))]

/-- The attempt fails in one run and finds the row expired in the other; the answers are the same. -/
theorem maintenance_transparent_sample :
    answers ⟨8, 4, 86400⟩ plainCipher Database.empty (maintainedItems.map Prod.snd) =
      maintainedAnswers ⟨8, 4, 86400⟩ plainCipher Database.empty maintainedItems :=
  maintenance_transparent rfl (by decide) (by decide)

end Gateway
