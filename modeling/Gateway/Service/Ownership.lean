import Gateway.Service.StoreCalls
import Gateway.Store.Moves

/-! What a call that has been admitted knows of its row, and what a row comes to answer. -/
namespace Gateway

variable {cipher : Cipher} {sha256 : Bytes → Str} {s t : GatewayService} {call : InferCall} {c : ℕ}
variable {pc pc' : Pc} {action : Action} {db : Database} {active : Option ActiveAttempt}
variable {now : Datetime} {row row' : Row} {k : Str} {r : Response} {e : Event}
variable {storeCall : StoreCall} {settings : StoreSettings}

/-- Whom a request belongs to, and the digest of what it says. -/
structure Identity where
  credentialHash : Str
  requestDigest : Str
deriving DecidableEq

def Row.identity (row : Row) : Identity := ⟨row.credentialHash, row.requestDigest⟩

def InferCall.identity (call : InferCall) : Identity := ⟨call.credential.identityHash, call.digest⟩

theorem SameIdentity.identity (h : SameIdentity row row') : row.identity = row'.identity := by
  rw [Row.identity, Row.identity, h.credentialHash, h.requestDigest]

/-- The store has given the call the record of its row; a call that has failed knows nothing. -/
def Pc.Admitted : Pc → Prop
  | .arrived => False
  | .policed _ => False
  | .done (.error _) => False
  | _ => True

/-- The completed response that a call returns or is about to. -/
def Pc.response? : Pc → Option Response
  | .leaving (.ok response) => some response
  | .done (.ok response) => some response
  | _ => none

theorem admitted_of_response (h : pc.response? = some r) : pc.Admitted := by
  cases pc with
  | done result => cases result <;> simp_all [Pc.response?, Pc.Admitted]
  | _ => first | exact trivial | simp [Pc.response?] at h

/-! One step of a call. -/

theorem response_ownerStep {α : Type} {attemptId : Str} {next : α → Pc} {result : Except Raised α}
    (h : (ownerStep attemptId next result).response? = some r) :
    ∃ a, result = .ok a ∧ (next a).response? = some r := by
  unfold ownerStep at h
  split at h
  · exact ⟨_, rfl, h⟩
  · split_ifs at h <;> cases h

theorem response_afterAdmission {settings : Settings} {result : Except Raised RequestRecord}
    (h : (afterAdmission settings cipher result).response? = some r) :
    ∃ record, result = .ok record ∧ existingResponse cipher record = .ok (some r) := by
  unfold afterAdmission at h
  repeat' split at h
  all_goals simp_all [Pc.response?]

theorem afterReload_eq_ok {settings : Settings} {result : Except Raised RequestRecord}
    (h : afterReload settings cipher result = .ok r) :
    ∃ record, result = .ok record ∧ existingResponse cipher record = .ok (some r) := by
  unfold afterReload at h
  repeat' split at h
  all_goals simp_all [failLater]

theorem afterFinish_eq_ok {record : RequestRecord} (h : afterFinish cipher record = .ok r) :
    existingResponse cipher record = .ok (some r) := by
  unfold afterFinish at h
  repeat' split at h
  all_goals simp_all [fail]

theorem response_afterPolicy {result : Except Escape Unit} :
    (afterPolicy now result).response? = none := by
  cases result <;> rfl

theorem response_afterLane {settings : Settings} {record : RequestRecord} {attemptId : Str} :
    (afterLane settings active c record attemptId).1.response? = none := by
  unfold afterLane
  repeat' split
  all_goals rfl

theorem response_closing {attemptId : Str} {nonce : Bytes}
    {outcome : Except WorkerRaised WorkerResult} :
    (call.closing cipher s attemptId now nonce outcome).1.response? = none := by
  have hnone : ∀ {α : Type} {next : α → Pc} {result : Except Raised α},
      (∀ a, (next a).response? = none) → (ownerStep attemptId next result).response? = none := by
    intro α next result hnext
    cases hr : (ownerStep attemptId next result).response? with
    | none => rfl
    | some r =>
      obtain ⟨a, -, ha⟩ := response_ownerStep hr
      rw [hnext a] at ha
      cases ha
  unfold InferCall.closing
  split
  · exact hnone fun done => by cases done <;> rfl
  all_goals exact hnone fun _ => rfl

/-- A read that returns returns the row of its own identity. -/
theorem getOwned_row {record : RequestRecord} (h : (call.getOwned s now).1 = .ok record) :
    ∃ row, (call.getOwned s now).2.requests.select call.request.requestId = some row ∧
      row.identity = call.identity ∧ record = row.record := by
  generalize hr : call.getOwned s now = result at h
  obtain ⟨r, db⟩ := result
  obtain rfl : r = .ok record := h
  obtain ⟨t', howned, rfl⟩ := transaction_ok hr
  obtain ⟨-, row, hrow, howner, hdigest, rfl⟩ := getOwned_ok howned
  refine ⟨row, hrow, ?_, rfl⟩
  rw [Row.identity, howner, hdigest _ rfl]
  rfl

/-- An admission that returns leaves a row of its own identity, the one it returns. -/
theorem admission_row {settings : StoreSettings} {record : RequestRecord} {db' : Database}
    (h : transaction (admitRequest settings now call.request call.credential.identityHash call.digest)
      db = (.ok record, db')) :
    ∃ row, db'.requests.select call.request.requestId = some row ∧ row.identity = call.identity ∧
      record = row.record := by
  obtain ⟨t', hok, rfl⟩ := transaction_ok h
  obtain ⟨t₁, hclean, ⟨row, hrow, howner, hdigest, rfl, rfl⟩ | ⟨-, -, rfl, hset⟩⟩ := admitRequest_ok hok
  · exact ⟨row, hrow, by rw [Row.identity, howner, hdigest]; rfl, rfl⟩
  · exact ⟨_, by rw [hset, if_pos rfl], rfl, rfl⟩

/-- A call is admitted by a row of its own identity. -/
theorem CallStep.admitted (h : CallStep cipher s call c pc action pc' db active) (hpc : pc'.Admitted) :
    pc.Admitted ∨ ∃ row, db.requests.select call.request.requestId = some row ∧
      row.identity = call.identity := by
  cases h with
  | policy now =>
    cases hp : validatePolicy s.settings call.credential call.request now <;>
      simp [hp, afterPolicy, Pc.Admitted] at hpc
  | admission now r hr =>
    obtain ⟨result, db⟩ := r
    cases result with
    | error e => exact hpc.elim
    | ok record =>
      obtain ⟨row, hrow, hid, -⟩ := admission_row hr
      exact .inr ⟨row, hrow, hid⟩
  | late attemptId now r hat hexpired hr =>
    rcases hat with ⟨rfl, -⟩ | ⟨rfl, -⟩ <;> exact .inl trivial
  | _ => exact .inl trivial

/-- A completed response is read from the row of the call's identity that is in the file then. -/
theorem CallStep.answers (h : CallStep cipher s call c pc action pc' db active)
    (hpc : pc'.response? = some r) :
    pc.response? = some r ∨ ∃ row, db.requests.select call.request.requestId = some row ∧
      row.identity = call.identity ∧ existingResponse cipher row.record = .ok (some r) := by
  cases h with
  | policy now =>
    rw [response_afterPolicy] at hpc
    cases hpc
  | admission now result hr =>
    obtain ⟨result, db⟩ := result
    obtain ⟨record, rfl, hanswer⟩ := response_afterAdmission hpc
    obtain ⟨row, hrow, hid, rfl⟩ := admission_row hr
    exact .inr ⟨row, hrow, hid, hanswer⟩
  | lane record attemptId =>
    rw [response_afterLane] at hpc
    cases hpc
  | timeout attempt => cases hpc
  | reload now result hr =>
    subst hr
    cases hreload : afterReload s.settings cipher (call.getOwned s now).1 with
    | error e =>
      rw [hreload] at hpc
      cases hpc
    | ok r' =>
      rw [hreload] at hpc
      obtain rfl := Option.some.inj hpc
      obtain ⟨record, hrecord, hanswer⟩ := afterReload_eq_ok hreload
      obtain ⟨row, hrow, hid, rfl⟩ := getOwned_row hrecord
      exact .inr ⟨row, hrow, hid, hanswer⟩
  | late attemptId now result hat hexpired hr =>
    obtain ⟨a, -, ha⟩ := response_ownerStep hpc
    cases ha
  | mark attemptId now result hlive hr =>
    obtain ⟨a, -, ha⟩ := response_ownerStep hpc
    cases ha
  | close attemptId outcome now nonce result hr =>
    subst hr
    rw [response_closing] at hpc
    cases hpc
  | finish attemptId now result hr =>
    subst hr
    obtain ⟨record, hrecord, hleaves⟩ := response_ownerStep hpc
    cases hfinish : afterFinish cipher record with
    | error e =>
      rw [hfinish] at hleaves
      cases hleaves
    | ok r' =>
      rw [hfinish] at hleaves
      obtain rfl := Option.some.inj hleaves
      obtain ⟨row, hrow, hid, rfl⟩ := getOwned_row hrecord
      exact .inr ⟨row, hrow, hid, afterFinish_eq_ok hfinish⟩
  | recover attemptId now result hr =>
    cases result with
    | mk result db => cases result <;> cases hpc
  | release result => cases result <;> exact .inl hpc
  | _ => cases hpc

/-! What a row answers. -/

theorem completed_of_answer {record : RequestRecord}
    (h : existingResponse cipher record = .ok (some r)) : record.state = .completed := by
  unfold existingResponse at h
  split at h
  · assumption
  all_goals cases h

/-- The row answers this response, or has been closed. -/
def Settled (cipher : Cipher) (r : Response) (row : Row) : Prop :=
  row.isClosed = true ∨ existingResponse cipher row.record = .ok (some r)

/-- No move changes what a row has come to answer. -/
theorem settled_move (h : RowMove cipher k row storeCall row') (hs : Settled cipher r row) :
    Settled cipher r row' := by
  rcases hs with hclosed | hanswer
  · rw [rowMove_closed h hclosed]
    exact .inl hclosed
  · have hstate : row.state = .completed := completed_of_answer hanswer
    cases h with
    | same => exact .inr hanswer
    | expire hcleans hopen hdue => exact .inl rfl
    | acknowledge h => exact .inl rfl
    | _ => simp_all

/-! One event of the service. -/

theorem storeCall_retention {e : Event} (h : s.storeCall e = some (settings, storeCall)) :
    0 ≤ settings.tombstoneRetentionSeconds := by
  have hsettings : ∃ settings' : Settings, settings'.store = settings := by
    cases e with
    | act c action =>
      obtain ⟨call, -, hcall⟩ := Option.bind_eq_some_iff.mp h
      obtain ⟨storeCall', -, he⟩ := Option.map_eq_some_iff.mp hcall
      exact ⟨s.settings, congrArg Prod.fst he⟩
    | acknowledge credential requestId disposition now =>
      exact ⟨s.settings, congrArg Prod.fst (Option.some.inj h)⟩
    | maintain now => exact ⟨s.settings, congrArg Prod.fst (Option.some.inj h)⟩
    | restart settings' version now => exact ⟨settings', congrArg Prod.fst (Option.some.inj h)⟩
    | _ => cases h
  obtain ⟨settings', rfl⟩ := hsettings
  exact le_trans zero_le_one settings'.retention_range.1

/-- The first process has nothing to do and no row. -/
theorem started_empty (h : Started s) :
    s.active = none ∧ (∀ c, s.calls c = none) ∧ ∀ k, s.db.requests.select k = none := by
  obtain ⟨settings, taskPolicyVersion, now, -, hinitial⟩ := h
  unfold GatewayService.initial at hinitial
  split at hinitial
  · rename_i db hopens
    obtain rfl := Option.some.inj hinitial
    refine ⟨rfl, fun _ => rfl, fun k => ?_⟩
    have hstatements := @statements_initializeStore settings.store now (fun _ => False) Database.empty
    rw [hopens] at hstatements
    have hnone : Rows (fun _ => False) db.requests :=
      rows_statements (fun _ _ _ h => h) hstatements fun k row hrow => by cases hrow
    cases hrow : db.requests.select k with
    | none => rfl
    | some row => exact (hnone k row hrow).elim
  · cases hinitial

/-- An event makes at most one move under a key, that of its call of the store. -/
theorem ServiceStep.keyMove (h : ServiceStep cipher sha256 s e t) (k : Str) :
    (s.storeCall e = none ∧ t.db = s.db) ∨
    ∃ settings storeCall, s.storeCall e = some (settings, storeCall) ∧
      KeyMove settings cipher k storeCall (s.db.requests.select k) (t.db.requests.select k) := by
  have hstores := h.stores
  cases hcall : s.storeCall e with
  | none =>
    rw [hcall] at hstores
    exact .inl ⟨rfl, hstores⟩
  | some call =>
    obtain ⟨settings, storeCall⟩ := call
    rw [hcall] at hstores
    refine .inr ⟨settings, storeCall, rfl, ?_⟩
    rw [hstores]
    exact run_keyMove storeCall s.db k

/-- A row that is kept makes the move of the call of the store, if there is one. -/
theorem move_event (h : ServiceStep cipher sha256 s e t) (hrow : s.db.requests.select k = some row)
    (hkept : row.isClosed = true → t.db.requests.select k = some row) :
    ∃ row', t.db.requests.select k = some row' ∧
      ((s.storeCall e = none ∧ row' = row) ∨ ∃ settings storeCall,
        s.storeCall e = some (settings, storeCall) ∧ RowMove cipher k row storeCall row') := by
  rcases h.keyMove k with ⟨hnone, hsame⟩ | ⟨settings, storeCall, hcall, hkey⟩
  · exact ⟨row, hsame ▸ hrow, .inl ⟨hnone, rfl⟩⟩
  · rw [hrow] at hkey
    generalize hrow' : t.db.requests.select k = o at hkey
    cases hkey with
    | moved hmove => exact ⟨_, rfl, .inr ⟨settings, storeCall, hcall, hmove⟩⟩
    | deleted h =>
      have hclosed := h.closed (storeCall_retention hcall)
      exact absurd (hrow'.symm.trans (hkept hclosed)) (by simp)
    | inserted _ hid hlive hgone =>
      have hclosed := (hgone row rfl).closed (storeCall_retention hcall)
      have hsame := hrow'.symm.trans (hkept hclosed)
      exact ⟨row, hsame, .inr ⟨settings, storeCall, hcall, .same⟩⟩

theorem clock_step (h : ServiceStep cipher sha256 s e t) : s.clock ≤ t.clock := by
  cases h with
  | tick hclock => exact hclock
  | _ => exact le_rfl

/-- What holds of every row, and of the rows that calls may add, holds of every row after an event. -/
theorem ServiceStep.rows {P : Row → Prop} (hP : ∀ row row', SameIdentity row row' → P row → P row')
    (h : ServiceStep cipher sha256 s e t)
    (hnew : ∀ c call now, s.calls c = some call →
      P (reservedRow call.request call.credential.identityHash call.digest now))
    (hs : Rows P s.db.requests) : Rows P t.db.requests := by
  cases h with
  | act hget hreads hstep => exact hstep.rows hP (fun now => hnew _ _ now hget) hs
  | acknowledge hclock => exact rows_statements hP (@statements_run _ cipher (.acknowledge _ _ _ _) s.db) hs
  | maintain hclock => exact rows_statements hP (@statements_run _ cipher (.maintain _) s.db) hs
  | restart hclock hopens =>
    rename_i settings version now db
    have hstatements := @statements_initializeStore settings.store now (fun _ => False) s.db
    rw [hopens] at hstatements
    exact rows_statements hP hstatements hs
  | _ => exact hs

/-- A call of the store is made at the time that was read for it, or the policy was checked at. -/
theorem InferCall.storeCall_now (h : call.storeCall s pc action = some storeCall) :
    action.now? = some storeCall.now ∨ pc = .policed storeCall.now := by
  unfold InferCall.storeCall at h
  split at h
  · obtain rfl := Option.some.inj h
    exact .inr rfl
  · obtain rfl := Option.some.inj h
    exact .inl rfl
  · obtain rfl := Option.some.inj h
    split_ifs <;> exact .inl rfl
  · split_ifs at h
    obtain rfl := Option.some.inj h
    exact .inl rfl
  · rename_i outcome now nonce
    obtain rfl := Option.some.inj h
    rcases outcome with (_ | _ | _) | _ <;> exact .inl rfl
  · obtain rfl := Option.some.inj h
    exact .inl rfl
  · obtain rfl := Option.some.inj h
    exact .inl rfl
  · cases h

/-- No call of the store is made at a time that has not come. -/
theorem storeCall_now (h : ServiceStep cipher sha256 s e t)
    (hpoliced : ∀ c call now, s.calls c = some call → call.pc = .policed now → now ≤ s.clock)
    (hcall : s.storeCall e = some (settings, storeCall)) : storeCall.now ≤ s.clock := by
  cases h with
  | act hget hreads hstep =>
    obtain ⟨call, hget', hcall⟩ := Option.bind_eq_some_iff.mp hcall
    obtain ⟨storeCall', hstore, he⟩ := Option.map_eq_some_iff.mp hcall
    obtain ⟨rfl, rfl⟩ := Prod.mk.inj he
    obtain rfl := Option.some.inj (hget.symm.trans hget')
    rcases InferCall.storeCall_now hstore with hnow | hpc
    · exact (hreads _ hnow).2
    · exact hpoliced _ _ _ hget hpc
  | acknowledge hclock =>
    obtain ⟨-, rfl⟩ := Prod.mk.inj (Option.some.inj hcall)
    exact hclock
  | maintain hclock =>
    obtain ⟨-, rfl⟩ := Prod.mk.inj (Option.some.inj hcall)
    exact hclock
  | restart hclock hopens =>
    obtain ⟨-, rfl⟩ := Prod.mk.inj (Option.some.inj hcall)
    exact hclock
  | _ => cases hcall

/-- One call takes its step in an event. -/
structure StepsTo (cipher : Cipher) (s t : GatewayService) (e : Event) (c : ℕ) (call : InferCall)
    (action : Action) (call' : InferCall) : Prop where
  event : e = .act c action
  before : s.calls c = some call
  request : call.request = call'.request
  identity : call.identity = call'.identity
  since : call'.since = s.clock
  clock : t.clock = s.clock
  reads : ∀ now, action.now? = some now → call.since ≤ now ∧ now ≤ s.clock
  step : CallStep cipher s call c call.pc action call'.pc t.db t.active

/-- After an event a call is as it was, has arrived, or has taken its step. -/
theorem ServiceStep.calls (h : ServiceStep cipher sha256 s e t) (hget : t.calls c = some call) :
    s.calls c = some call ∨ call.pc = .arrived ∨
      ∃ call₀ action, StepsTo cipher s t e c call₀ action call := by
  cases h with
  | tick hclock => exact .inl hget
  | arrive hfree hdigest =>
    simp only [Function.update_apply] at hget
    split_ifs at hget with hc
    · obtain rfl := Option.some.inj hget
      exact .inr (.inl rfl)
    · exact .inl hget
  | act hget' hreads hstep =>
    simp only [GatewayService.after, Function.update_apply] at hget
    split_ifs at hget with hc
    · obtain rfl := Option.some.inj hget
      subst hc
      exact .inr (.inr ⟨_, _, rfl, hget', rfl, rfl, rfl, rfl, hreads, hstep⟩)
    · exact .inl hget
  | acknowledge hclock => exact .inl hget
  | maintain hclock => exact .inl hget
  | restart hclock hopens => cases hget

theorem admitted_event (h : ServiceStep cipher sha256 s e t) (hget : t.calls c = some call)
    (hpc : call.pc.Admitted) :
    (∃ call₀, s.calls c = some call₀ ∧ call₀.request = call.request ∧
      call₀.identity = call.identity ∧ call₀.pc.Admitted) ∨
    ∃ row, t.db.requests.select call.request.requestId = some row ∧ row.identity = call.identity := by
  rcases h.calls hget with hsame | harrived | ⟨call₀, action, hsteps⟩
  · exact .inl ⟨call, hsame, rfl, rfl, hpc⟩
  · rw [harrived] at hpc
    exact hpc.elim
  · rcases hsteps.step.admitted hpc with hpc₀ | ⟨row, hrow, howner⟩
    · exact .inl ⟨call₀, hsteps.before, hsteps.request, hsteps.identity, hpc₀⟩
    · rw [hsteps.request] at hrow
      exact .inr ⟨row, hrow, howner.trans hsteps.identity⟩

theorem answers_event (h : ServiceStep cipher sha256 s e t) (hget : t.calls c = some call)
    (hpc : call.pc.response? = some r) :
    (∃ call₀, s.calls c = some call₀ ∧ call₀.request = call.request ∧
      call₀.identity = call.identity ∧ call₀.pc.response? = some r) ∨
    ∃ row, t.db.requests.select call.request.requestId = some row ∧ row.identity = call.identity ∧
      existingResponse cipher row.record = .ok (some r) := by
  rcases h.calls hget with hsame | harrived | ⟨call₀, action, hsteps⟩
  · exact .inl ⟨call, hsame, rfl, rfl, hpc⟩
  · rw [harrived] at hpc
    cases hpc
  · rcases hsteps.step.answers hpc with hpc₀ | ⟨row, hrow, hid, hanswer⟩
    · exact .inl ⟨call₀, hsteps.before, hsteps.request, hsteps.identity, hpc₀⟩
    · rw [hsteps.request] at hrow
      exact .inr ⟨row, hrow, hid.trans hsteps.identity, hanswer⟩

end Gateway
