import Gateway.Service.Ownership
import Gateway.Service.SharedResult

/-! One request from its admission on: whose it is, and the one result it answers with. -/
namespace Gateway

open Transition (Run Recording)

/-- What has happened to one request: whom its row was inserted for, what was supplied to the
completions that were stored, and what was returned to whom. -/
structure Ledger where
  admitted : List Identity
  completed : List Response
  returned : List (Identity × Response)

def Ledger.empty : Ledger := ⟨[], [], []⟩

section Record

variable (k : Str) (s : GatewayService) (e : Event) (t : GatewayService)

/-- The identity of a row that an event inserts. -/
def admittedBy : List Identity :=
  if (s.db.requests.select k).isNone then ((t.db.requests.select k).map Row.identity).toList else []

/-- The worker result a call is about to store. -/
def InferCall.accepted? (call : InferCall) : Option WorkerResult :=
  match call.pc with
  | .settling _ (.ok result) => some result
  | _ => none

def InferCall.hasStored (call : InferCall) : Bool :=
  match call.pc with
  | .stored _ => true
  | _ => false

/-- The worker's result with the provenance of the process that stores it. -/
def completedBy : List Response :=
  match e with
  | .act c (.close _ _) =>
    ((s.calls c).bind (fun call =>
      if call.request.requestId = k && (t.calls c).any InferCall.hasStored then
        call.accepted?.map (fun result =>
          ⟨k, some result.mediaType, result.content, s.taskPolicyVersion, s.settings.deploymentId⟩)
      else none)).toList
  | _ => []

/-- The completed response that a call ends in. -/
def InferCall.response? (call : InferCall) : Option Response := call.result?.bind Except.toOption

def returnedBy : List (Identity × Response) :=
  match e with
  | .act c _ =>
    ((t.calls c).bind (fun call =>
      if call.request.requestId = k then call.response?.map (fun r => (call.identity, r))
      else none)).toList
  | _ => []

end Record

def Ledger.record (k : Str) (l : Ledger) (s : GatewayService) (e : Event) (t : GatewayService) :
    Ledger :=
  ⟨l.admitted ++ admittedBy k s t, l.completed ++ completedBy k s e t,
    l.returned ++ returnedBy k e t⟩

variable {cipher : Cipher} {sha256 : Bytes → Str} {s t s₀ : GatewayService} {call : InferCall} {c : ℕ}
variable {row row' : Row} {k : Str} {r : Response} {e : Event} {l : Ledger} {who : Identity}
variable {settings : StoreSettings} {now : Datetime} {storeCall : StoreCall} {db : Database}

/-- The row of a request is not deleted: it is closed rows that a cleanup deletes. -/
def Kept (k : Str) (s t : GatewayService) : Prop :=
  ∀ row, s.db.requests.select k = some row → row.isClosed = true → t.db.requests.select k = some row

/-- Any event of the service that does not delete the row. -/
structure KeptStep (cipher : Cipher) (sha256 : Bytes → Str) (k : Str) (s : GatewayService) (e : Event)
    (t : GatewayService) : Prop where
  next : s.next cipher sha256 e = some t
  kept : Kept k s t

/-! The row. -/

/-- Whether a call is a completion. -/
def StoreCall.completes : StoreCall → Bool
  | .complete _ _ _ _ _ _ _ _ => true
  | _ => false

/-- Only a call of `infer` with an accepted result completes a request. -/
theorem storeCall_completes (h : s.storeCall e = some (settings, storeCall))
    (hcompletes : storeCall.completes = true) :
    ∃ c call attemptId result now nonce, e = .act c (.close now nonce) ∧ s.calls c = some call ∧
      call.pc = .settling attemptId (.ok result) ∧ settings = s.settings.store ∧
      storeCall = .complete nonce call.request.requestId attemptId result.mediaType result.content
        s.settings.deploymentId s.taskPolicyVersion now := by
  cases e with
  | act c action =>
    obtain ⟨call, hget, hcall⟩ := Option.bind_eq_some_iff.mp h
    obtain ⟨storeCall', hstore, he⟩ := Option.map_eq_some_iff.mp hcall
    obtain ⟨rfl, rfl⟩ := Prod.mk.inj he
    unfold InferCall.storeCall at hstore
    split at hstore
    · obtain rfl := Option.some.inj hstore
      cases hcompletes
    · obtain rfl := Option.some.inj hstore
      cases hcompletes
    · obtain rfl := Option.some.inj hstore
      split_ifs at hcompletes <;> cases hcompletes
    · split_ifs at hstore
      obtain rfl := Option.some.inj hstore
      cases hcompletes
    · rename_i attemptId outcome now nonce hpc
      obtain rfl := Option.some.inj hstore
      cases outcome with
      | ok result => exact ⟨c, call, attemptId, result, now, nonce, rfl, hget, hpc, rfl, rfl⟩
      | error e => cases e <;> cases hcompletes
    · obtain rfl := Option.some.inj hstore
      cases hcompletes
    · obtain rfl := Option.some.inj hstore
      cases hcompletes
    · cases hstore
  | acknowledge credential requestId disposition now =>
    obtain ⟨-, rfl⟩ := Prod.mk.inj (Option.some.inj h)
    cases hcompletes
  | maintain now =>
    obtain ⟨-, rfl⟩ := Prod.mk.inj (Option.some.inj h)
    cases hcompletes
  | restart settings' version now =>
    obtain ⟨-, rfl⟩ := Prod.mk.inj (Option.some.inj h)
    cases hcompletes
  | _ => cases h

/-- Without a completion no row becomes completed. -/
theorem rowMove_quiet (h : RowMove cipher k row storeCall row') (hquiet : storeCall.completes = false)
    (hstate : row'.state = .completed) : row' = row := by
  cases h with
  | same => rfl
  | complete => cases hquiet
  | mark => cases hstate
  | reset => cases hstate
  | expire => cases hstate
  | _ => cases hstate

theorem completedBy_quiet (h : ∀ settings storeCall, s.storeCall e = some (settings, storeCall) →
    storeCall.completes = false) : completedBy k s e t = [] := by
  unfold completedBy
  split
  · rename_i c now nonce
    cases hget : s.calls c with
    | none => rfl
    | some call =>
      simp only [Option.bind_some]
      split_ifs with hstored
      · unfold InferCall.accepted?
        split
        · rename_i attemptId result hpc
          have hcall : s.storeCall (.act c (.close now nonce)) = some (s.settings.store,
              call.closingCall s attemptId now nonce (.ok result)) := by
            simp only [GatewayService.storeCall, hget, Option.bind_some, hpc, InferCall.storeCall,
              Option.map_some]
          cases h _ _ hcall
        · rfl
      · rfl
  · rfl

section Completion

variable {attemptId : Str} {result : WorkerResult} {nonce : Bytes} {call' : InferCall}

theorem completedBy_close (hget : s.calls c = some call)
    (hpc : call.pc = .settling attemptId (.ok result)) (hget' : t.calls c = some call') :
    completedBy k s (.act c (.close now nonce)) t =
      if call.request.requestId = k ∧ call'.hasStored = true then
        [⟨k, some result.mediaType, result.content, s.taskPolicyVersion, s.settings.deploymentId⟩]
      else [] := by
  simp only [completedBy, hget, hget', Option.bind_some, Option.any_some, InferCall.accepted?, hpc,
    Option.map_some, Bool.and_eq_true, decide_eq_true_eq]
  split_ifs <;> rfl

/-- A completion is stored over the row in progress, or nothing becomes completed. -/
theorem completion_event (hcipher : cipher.Inverts) (hget : s.calls c = some call)
    (hpc : call.pc = .settling attemptId (.ok result))
    (h : ServiceStep cipher sha256 s (.act c (.close now nonce)) t) :
    (completedBy k s (.act c (.close now nonce)) t = [] ∧
      ∀ row', t.db.requests.select k = some row' → row'.state = .completed →
        s.db.requests.select k = some row') ∨
    ∃ r row row', completedBy k s (.act c (.close now nonce)) t = [r] ∧
      s.db.requests.select k = some row ∧ row.state = .inProgress ∧
      t.db.requests.select k = some row' ∧ Settled cipher r row' := by
  cases h with
  | act hget' hreads hstep =>
    rename_i call' pc db active
    obtain rfl := Option.some.inj (hget.symm.trans hget')
    have hnow : (s.after c call pc db active).calls c =
        some { call with since := s.clock, pc := pc } := by simp [GatewayService.after]
    rw [completedBy_close hget hpc hnow]
    rw [hpc] at hstep
    cases hstep with
    | late a now' r hat hexpired hr => rcases hat with ⟨he, -⟩ | ⟨he, -⟩ <;> cases he
    | close a outcome now' nonce' r hr =>
      subst hr
      generalize htrans : transaction (complete s.settings.store now cipher nonce
        call.request.requestId attemptId result.mediaType result.content s.settings.deploymentId
        s.taskPolicyVersion) s.db = r
      obtain ⟨stored, db⟩ := r
      simp only [InferCall.closing, htrans]
      cases stored with
      | error e =>
        have hsame := transaction_error (e := e) (congrArg Prod.fst htrans)
        rw [htrans] at hsame
        refine .inl ⟨if_neg ?_, fun row' hrow' _ => hsame ▸ hrow'⟩
        simp only [ownerStep, InferCall.hasStored]
        split_ifs <;> simp
      | ok done =>
        obtain ⟨t', hok, rfl⟩ := transaction_ok htrans
        obtain ⟨t₁, hclean, ⟨rfl, rfl, -⟩ | ⟨rfl, row, sealed, hrow, hstate, hattempt, hseal, -, -, hset⟩⟩ :=
          complete_ok hok
        · refine .inl ⟨if_neg (by simp [ownerStep, InferCall.hasStored]), fun row' hrow' hstate => ?_⟩
          have hmove := cleanMove_cleanup hclean k
          have hkept : db.requests.select k = some row' := hrow'
          rw [hkept] at hmove
          exact hmove.eq_of_open (by simp [Row.isClosed, hstate])
        · have hmove := cleanMove_cleanup hclean
          by_cases hk : call.request.requestId = k
          · subst hk
            have hsame := hmove call.request.requestId
            rw [hrow] at hsame
            have hanswer := @existingResponse_complete cipher row now nonce result.content
              result.mediaType s.settings.deploymentId s.taskPolicyVersion sealed hcipher hseal
            have hid : row.requestId = call.request.requestId := KeyedTable.key_of_select hrow
            rw [hid] at hanswer
            refine .inr ⟨_, row, _, if_pos ⟨rfl, rfl⟩, hsame.eq_of_open (by simp [Row.isClosed, hstate]),
              hstate, ?_, .inr hanswer⟩
            rw [GatewayService.after, hset, if_pos rfl]
          · refine .inl ⟨if_neg (fun h => hk h.1), fun row' hrow' hstate => ?_⟩
            have hother : t₁.select k = some row' := by
              rwa [GatewayService.after, hset, if_neg (fun h => hk h.symm)] at hrow'
            have hsame := hmove k
            rw [hother] at hsame
            exact hsame.eq_of_open (by simp [Row.isClosed, hstate])

end Completion

/-- What an event makes of a row that it keeps. -/
theorem row_event (hcipher : cipher.Inverts) (h : ServiceStep cipher sha256 s e t) (hkept : Kept k s t)
    (hrow : s.db.requests.select k = some row) :
    ∃ row', t.db.requests.select k = some row' ∧ row.identity = row'.identity ∧
      (∀ r, Settled cipher r row → Settled cipher r row') ∧
      ((completedBy k s e t = [] ∧ (row'.state = .completed → row.state = .completed)) ∨
        ∃ r, completedBy k s e t = [r] ∧ row.state = .inProgress ∧ Settled cipher r row') := by
  obtain ⟨row', hrow', ⟨hnone, rfl⟩ | ⟨settings, storeCall, hcall, hmove⟩⟩ := move_event h hrow (hkept row hrow)
  · have hquiet : completedBy k s e t = [] := completedBy_quiet fun settings storeCall he => by
      simp [hnone] at he
    exact ⟨row', hrow', rfl, fun _ hr => hr, .inl ⟨hquiet, id⟩⟩
  · refine ⟨row', hrow', (rowMove_identity hmove).identity, fun r => settled_move hmove, ?_⟩
    cases hcompletes : storeCall.completes with
    | false =>
      refine .inl ⟨completedBy_quiet fun settings' storeCall' he => ?_, fun hstate => ?_⟩
      · rw [hcall] at he
        obtain ⟨-, rfl⟩ := Prod.mk.inj (Option.some.inj he)
        exact hcompletes
      · rw [← rowMove_quiet hmove hcompletes hstate]
        exact hstate
    | true =>
      obtain ⟨c, call, attemptId, result, now, nonce, rfl, hget, hpc, -, -⟩ :=
        storeCall_completes hcall hcompletes
      rcases completion_event hcipher hget hpc h with ⟨hnone, hsame⟩ |
        ⟨r, row₁, row₁', hone, hrow₁, hstate, hrow₁', hsettled⟩
      · refine .inl ⟨hnone, fun hstate => ?_⟩
        rw [← Option.some.inj ((hsame row' hrow' hstate).symm.trans hrow)]
        exact hstate
      · obtain rfl := Option.some.inj (hrow.symm.trans hrow₁)
        obtain rfl := Option.some.inj (hrow'.symm.trans hrow₁')
        exact .inr ⟨r, hone, hstate, hsettled⟩

/-- A row appears as reserved, and nothing is completed without one. -/
theorem absent_event (hcipher : cipher.Inverts) (h : ServiceStep cipher sha256 s e t)
    (hnone : s.db.requests.select k = none) :
    completedBy k s e t = [] ∧ ∀ row, t.db.requests.select k = some row → row.state = .reserved := by
  constructor
  · cases hc : completedBy k s e t with
    | nil => rfl
    | cons r rest =>
      by_cases hcompletes : ∃ settings storeCall, s.storeCall e = some (settings, storeCall) ∧
          storeCall.completes = true
      · obtain ⟨settings, storeCall, hcall, hcompletes⟩ := hcompletes
        obtain ⟨c, call, attemptId, result, now, nonce, rfl, hget, hpc, -, -⟩ :=
          storeCall_completes hcall hcompletes
        rcases completion_event hcipher hget hpc h with ⟨hnil, -⟩ | ⟨r', row, row', -, hrow, -⟩
        · exact hc.symm.trans hnil
        · simp [hnone] at hrow
      · push Not at hcompletes
        have hnil : completedBy k s e t = [] := completedBy_quiet fun settings storeCall he => by
          simpa using hcompletes settings storeCall he
        exact hc.symm.trans hnil
  · intro row hrow
    rcases h.keyMove k with ⟨-, hsame⟩ | ⟨settings, storeCall, -, hkey⟩
    · rw [hsame, hnone] at hrow
      cases hrow
    · rw [hnone, hrow] at hkey
      cases hkey with
      | inserted => rfl

/-! The calls. -/

theorem mem_returnedBy (h : (who, r) ∈ returnedBy k e t) :
    ∃ c call, t.calls c = some call ∧ call.request.requestId = k ∧ call.pc.response? = some r ∧
      call.identity = who := by
  unfold returnedBy at h
  split at h
  · rename_i c action
    rw [Option.mem_toList, Option.bind_eq_some_iff] at h
    obtain ⟨call, hget, hreturned⟩ := h
    split_ifs at hreturned with hid
    obtain ⟨r', hr, he⟩ := Option.map_eq_some_iff.mp hreturned
    obtain ⟨rfl, rfl⟩ := Prod.mk.inj he
    refine ⟨c, call, hget, hid, ?_, rfl⟩
    obtain ⟨result, hresult, hok⟩ := Option.bind_eq_some_iff.mp hr
    rw [InferCall.result?_eq_some.mp hresult]
    cases result with
    | error e => cases hok
    | ok r'' => exact hok
  · simp at h

/-! What holds while the row is not deleted. -/

/-- The request is unknown: no row, no record, no call that has been admitted. -/
structure Unadmitted (k : Str) (s : GatewayService) (l : Ledger) : Prop where
  absent : s.db.requests.select k = none
  ledger : l = Ledger.empty
  calls : ∀ c call, s.calls c = some call → call.request.requestId = k → ¬ call.pc.Admitted

/-- The request has its row. -/
structure Replaying (cipher : Cipher) (k : Str) (row : Row) (s : GatewayService) (l : Ledger) :
    Prop where
  found : s.db.requests.select k = some row
  admitted : l.admitted = [row.identity]
  completed : l.completed = [] ∧ row.state ≠ .completed ∨
    ∃ r, l.completed = [r] ∧ Settled cipher r row
  calls : ∀ c call, s.calls c = some call → call.request.requestId = k → call.pc.Admitted →
    call.identity = row.identity
  answers : ∀ c call r, s.calls c = some call → call.request.requestId = k →
    call.pc.response? = some r → l.completed = [r]
  returned : ∀ who r, (who, r) ∈ l.returned → who = row.identity ∧ l.completed = [r]

theorem not_settled_inProgress (hstate : row.state = .inProgress) : ¬ Settled cipher r row := by
  rintro (hclosed | hanswer)
  · simp [Row.isClosed, hstate] at hclosed
  · cases hstate.symm.trans (completed_of_answer hanswer)

/-- A completed row answers what was supplied to its completion. -/
theorem completed_answer {completed : List Response}
    (h : completed = [] ∧ row.state ≠ .completed ∨ ∃ r, completed = [r] ∧ Settled cipher r row)
    (hanswer : existingResponse cipher row.record = .ok (some r)) : completed = [r] := by
  have hstate : row.state = .completed := completed_of_answer hanswer
  rcases h with ⟨-, hne⟩ | ⟨r', rfl, hclosed | hanswer'⟩
  · exact absurd hstate hne
  · simp [Row.isClosed, hstate] at hclosed
  · obtain rfl := Option.some.inj (Except.ok.inj (hanswer.symm.trans hanswer'))
    rfl

section Step

variable (hcipher : cipher.Inverts) (h : ServiceStep cipher sha256 s e t)
include hcipher h

theorem unadmitted_step (hs : Unadmitted k s l) :
    Unadmitted k t (l.record k s e t) ∨ ∃ row, Replaying cipher k row t (l.record k s e t) := by
  obtain ⟨hquiet, hreserved⟩ := absent_event hcipher h hs.absent
  have hisNone : (s.db.requests.select k).isNone = true := by simp [hs.absent]
  have hcalls : ∀ c call, t.calls c = some call → call.request.requestId = k → call.pc.Admitted →
      ∃ row, t.db.requests.select k = some row ∧ row.identity = call.identity := by
    intro c call hget hid hpc
    rcases admitted_event h hget hpc with ⟨call₀, hget₀, hrequest, -, hpc₀⟩ | ⟨row, hrow, howner⟩
    · exact (hs.calls c call₀ hget₀ (by rw [hrequest, hid]) hpc₀).elim
    · exact ⟨row, hid ▸ hrow, howner⟩
  have hanswers : ∀ c call r, t.calls c = some call → call.request.requestId = k →
      call.pc.response? ≠ some r := by
    intro c call r hget hid hpc
    rcases answers_event h hget hpc with ⟨call₀, hget₀, hrequest, -, hpc₀⟩ | ⟨row, hrow, -, hanswer⟩
    · exact hs.calls c call₀ hget₀ (by rw [hrequest, hid]) (admitted_of_response hpc₀)
    · have hstate : row.state = .completed := completed_of_answer hanswer
      rw [hreserved row (hid ▸ hrow)] at hstate
      cases hstate
  have hreturned : returnedBy k e t = [] := by
    refine List.eq_nil_iff_forall_not_mem.mpr fun p hp => ?_
    obtain ⟨c, call, hget, hid, hpc, -⟩ := mem_returnedBy hp
    exact hanswers c call p.2 hget hid hpc
  cases hrow : t.db.requests.select k with
  | none =>
    refine .inl ⟨hrow, ?_, fun c call hget hid hpc => ?_⟩
    · simp [hs.ledger, Ledger.record, Ledger.empty, admittedBy, hrow, hquiet, hreturned]
    · obtain ⟨row, hsome, -⟩ := hcalls c call hget hid hpc
      simp [hrow] at hsome
  | some row =>
    refine .inr ⟨row, hrow, ?_, .inl ⟨?_, by simp [hreserved row hrow]⟩, ?_, ?_, ?_⟩
    · simp [hs.ledger, Ledger.record, Ledger.empty, admittedBy, hisNone, hrow]
    · simp [hs.ledger, Ledger.record, Ledger.empty, hquiet]
    · intro c call hget hid hpc
      obtain ⟨row', hrow', howner⟩ := hcalls c call hget hid hpc
      obtain rfl := Option.some.inj (hrow.symm.trans hrow')
      exact howner.symm
    · exact fun c call r hget hid hpc => (hanswers c call r hget hid hpc).elim
    · intro who r hmem
      simp [hs.ledger, Ledger.record, Ledger.empty, hreturned] at hmem

theorem replaying_step (hkept : Kept k s t) (hs : Replaying cipher k row s l) :
    ∃ row', Replaying cipher k row' t (l.record k s e t) := by
  obtain ⟨row', hrow', hid, hsettled, hcompletes⟩ := row_event hcipher h hkept hs.found
  have hcompleted : (l.record k s e t).completed = [] ∧ row'.state ≠ .completed ∨
      ∃ r, (l.record k s e t).completed = [r] ∧ Settled cipher r row' := by
    rcases hcompletes with ⟨hnone, hstate⟩ | ⟨r, hone, hstate, hsettles⟩
    · rcases hs.completed with ⟨hnil, hne⟩ | ⟨r, hr, hrow⟩
      · exact .inl ⟨by simp [Ledger.record, hnil, hnone], fun he => hne (hstate he)⟩
      · exact .inr ⟨r, by simp [Ledger.record, hr, hnone], hsettled r hrow⟩
    · rcases hs.completed with ⟨hnil, -⟩ | ⟨r', -, hrow⟩
      · exact .inr ⟨r, by simp [Ledger.record, hnil, hone], hsettles⟩
      · exact (not_settled_inProgress hstate hrow).elim
  have hkeeps : ∀ r, l.completed = [r] → (l.record k s e t).completed = [r] := by
    intro r hr
    rcases hcompleted with ⟨hnil, -⟩ | ⟨r', hr', -⟩
    · simp [Ledger.record, hr] at hnil
    · have hlist : [r] ++ completedBy k s e t = [r'] := by rw [← hr']; simp [Ledger.record, hr]
      obtain ⟨rfl, -⟩ := List.cons.inj hlist
      exact hr'
  have hcalls : ∀ c call, t.calls c = some call → call.request.requestId = k → call.pc.Admitted →
      call.identity = row'.identity := by
    intro c call hget hcall hpc
    rcases admitted_event h hget hpc with ⟨call₀, hget₀, hrequest, howner, hpc₀⟩ | ⟨row₁, hrow₁, howner⟩
    · rw [← howner, ← hid]
      exact hs.calls c call₀ hget₀ (by rw [hrequest, hcall]) hpc₀
    · rw [hcall] at hrow₁
      obtain rfl := Option.some.inj (hrow'.symm.trans hrow₁)
      exact howner.symm
  have hanswers : ∀ c call r, t.calls c = some call → call.request.requestId = k →
      call.pc.response? = some r → (l.record k s e t).completed = [r] := by
    intro c call r hget hcall hpc
    rcases answers_event h hget hpc with ⟨call₀, hget₀, hrequest, -, hpc₀⟩ | ⟨row₁, hrow₁, -, hanswer⟩
    · exact hkeeps r (hs.answers c call₀ r hget₀ (by rw [hrequest, hcall]) hpc₀)
    · rw [hcall] at hrow₁
      obtain rfl := Option.some.inj (hrow'.symm.trans hrow₁)
      exact completed_answer hcompleted hanswer
  refine ⟨row', hrow', ?_, hcompleted, hcalls, hanswers, ?_⟩
  · simp [Ledger.record, hs.admitted, admittedBy, hs.found, hid]
  · intro who r hmem
    rcases List.mem_append.mp hmem with hbefore | hnow
    · obtain ⟨hwho, hr⟩ := hs.returned who r hbefore
      exact ⟨hwho.trans hid, hkeeps r hr⟩
    · obtain ⟨c, call, hget, hcall, hpc, rfl⟩ := mem_returnedBy hnow
      exact ⟨hcalls c call hget hcall (admitted_of_response hpc), hanswers c call r hget hcall hpc⟩

end Step

/-! Who else asks. -/

/-- What the store raises for another identity. -/
def Row.refusal (row : Row) (who : Identity) : Raised :=
  if row.credentialHash ≠ who.credentialHash then .requestForbidden else .requestIdentityConflict

theorem authorize_refused (h : who ≠ row.identity) :
    authorizeExisting row.record who.credentialHash (some who.requestDigest) =
      .error (row.refusal who) := by
  have howner : row.record.credentialHash = row.credentialHash := rfl
  have hdigest : row.record.requestDigest = row.requestDigest := rfl
  by_cases hcredential : row.credentialHash = who.credentialHash
  · have hne : row.requestDigest ≠ who.requestDigest := fun he => h (by
      rw [Row.identity, hcredential, he])
    simp [authorizeExisting, Row.refusal, howner, hdigest, hcredential, hne]
  · simp [authorizeExisting, Row.refusal, howner, hcredential]

/-- Another identity is refused, and the file stays as it is, in every call of the store whose own
cleanup does not delete the row. -/
structure RefusesOthers (k : Str) (row : Row) (db : Database) : Prop where
  admitRequest : ∀ settings now t₁ request who, cleanup settings now db.requests = .ok t₁ →
    (t₁.select k).isSome → request.requestId = k → who ≠ row.identity →
    transaction (admitRequest settings now request who.credentialHash who.requestDigest) db =
      (.error (row.refusal who), db)
  getOwned : ∀ settings now t₁ who, cleanup settings now db.requests = .ok t₁ →
    (t₁.select k).isSome → who ≠ row.identity →
    transaction (getOwned settings now k who.credentialHash (some who.requestDigest)) db =
      (.error (row.refusal who), db)
  acknowledge : ∀ settings now t₁ credentialHash disposition,
    cleanup settings now db.requests = .ok t₁ → (t₁.select k).isSome →
    credentialHash ≠ row.credentialHash →
    transaction (acknowledge settings now k credentialHash disposition) db =
      (.error .requestForbidden, db)

/-- A row that a cleanup leaves keeps its identity. -/
theorem cleanup_identity {t t₁ : Table} (hclean : cleanup settings now t = .ok t₁)
    (hrow : t.select k = some row) (hsome : (t₁.select k).isSome) :
    ∃ row', t₁.select k = some row' ∧ row.identity = row'.identity := by
  rcases cleanup_select hclean k with hnone | ⟨row₀, hrow₀, hrow'⟩
  · simp [hnone] at hsome
  · obtain rfl := Option.some.inj (hrow.symm.trans hrow₀)
    refine ⟨_, hrow', ?_⟩
    split_ifs <;> rfl

theorem refusal_congr (h : row.identity = row'.identity) : row'.refusal who = row.refusal who := by
  have howner : row.credentialHash = row'.credentialHash := congrArg Identity.credentialHash h
  rw [Row.refusal, Row.refusal, howner]

theorem refusesOthers (hrow : db.requests.select k = some row) : RefusesOthers k row db := by
  have hversion : ∃ version, db.version = some version := by
    refine Option.ne_none_iff_exists'.mp fun hnone => ?_
    rw [db.created hnone] at hrow
    simp at hrow
  obtain ⟨version, hversion⟩ := hversion
  constructor
  · intro settings now t₁ request who hclean hsome hid hwho
    subst hid
    obtain ⟨row', hrow', hsame⟩ := cleanup_identity hclean hrow hsome
    have hother : who ≠ row'.identity := hsame ▸ hwho
    have hrefused := authorize_refused hother
    refine transaction_of_error hversion ?_
    rw [admit_retained hclean hrow', hrefused, refusal_congr hsame]
    rfl
  · intro settings now t₁ who hclean hsome hwho
    obtain ⟨row', hrow', hsame⟩ := cleanup_identity hclean hrow hsome
    have hother : who ≠ row'.identity := hsame ▸ hwho
    have hrefused := authorize_refused hother
    refine transaction_of_error hversion ?_
    rw [getOwned_eq hclean, hrow']
    simp only [hrefused, refusal_congr hsame]
    rfl
  · intro settings now t₁ credentialHash disposition hclean hsome hne
    obtain ⟨row', hrow', hsame⟩ := cleanup_identity hclean hrow hsome
    have howner : row.credentialHash = row'.credentialHash := congrArg Identity.credentialHash hsame
    have hrefused : authorizeExisting row'.record credentialHash none = .error .requestForbidden := by
      have hrecord : row'.record.credentialHash = row'.credentialHash := rfl
      rw [authorizeExisting, hrecord, ← howner, if_pos hne.symm]
    refine transaction_of_error hversion ?_
    rw [acknowledge_eq hclean, hrow']
    simp only [hrefused]

/-- Every completed response that was returned went to the identity that was admitted and is the one
that was supplied; a call of another identity is never admitted, and is refused. -/
structure ReplayStable (cipher : Cipher) (k : Str) (s : GatewayService) (l : Ledger) : Prop where
  returned : ∀ who r, (who, r) ∈ l.returned → l.admitted = [who] ∧ l.completed = [r]
  admitted : ∀ c call, s.calls c = some call → call.request.requestId = k → call.pc.Admitted →
    l.admitted = [call.identity]
  refused : ∀ row, s.db.requests.select k = some row →
    l.admitted = [row.identity] ∧ RefusesOthers k row s.db

/-- In every run that does not delete the row of a request, restarts under other settings included,
all its completed responses are the one that was stored, for the identity it was admitted under. -/
theorem replay_stable (hcipher : cipher.Inverts) (hstart : Started s₀) {events : List Event}
    (hrun : Run (Recording (KeptStep cipher sha256 k) (Ledger.record k)) (s₀, .empty) events (s, l)) :
    ReplayStable cipher k s l := by
  have hinvariant : Unadmitted k s l ∨ ∃ row, Replaying cipher k row s l := by
    refine hrun.invariant (P := fun p : GatewayService × Ledger =>
      Unadmitted k p.1 p.2 ∨ ∃ row, Replaying cipher k row p.1 p.2) ?_ ?_
    · rintro ⟨s, l⟩ e ⟨t, l'⟩ ⟨hstep, hrecord⟩ hs
      obtain rfl : l' = l.record k s e t := hrecord
      have hnext := serviceStep_of_next hstep.next
      rcases hs with hs | ⟨row, hs⟩
      · exact unadmitted_step hcipher hnext hs
      · exact .inr (replaying_step hcipher hnext hstep.kept hs)
    · obtain ⟨-, hcalls, hrows⟩ := started_empty hstart
      exact .inl ⟨hrows k, rfl, fun c call hget => by simp [hcalls] at hget⟩
  rcases hinvariant with hs | ⟨row, hs⟩
  · refine ⟨fun who r hmem => ?_, fun c call hget hid hpc => (hs.calls c call hget hid hpc).elim,
      fun row hrow => ?_⟩
    · simp [hs.ledger, Ledger.empty] at hmem
    · simp [hs.absent] at hrow
  · refine ⟨fun who r hmem => ?_, fun c call hget hid hpc => ?_, fun row' hrow' => ?_⟩
    · obtain ⟨rfl, hr⟩ := hs.returned who r hmem
      exact ⟨hs.admitted, hr⟩
    · rw [hs.calls c call hget hid hpc]
      exact hs.admitted
    · obtain rfl := Option.some.inj (hs.found.symm.trans hrow')
      exact ⟨hs.admitted, refusesOthers hrow'⟩

/-! A request that is repeated after a restart. -/

theorem secondDeployment_length : 1 ≤ (str "gateway-2").length ∧ (str "gateway-2").length ≤ 128 := by
  decide

/-- The settings of the next process, another deployment. -/
def secondDeployment : Settings :=
  { shortRetention with
    deploymentId := str "gateway-2", deploymentId_length := secondDeployment_length }

/-- A call completes, the gateway restarts with another policy version, and the call is repeated. -/
def restartedEvents : List Event :=
  let six := sampleMoment 18 0 0 0
  let asked : List Event := [.arrive 0 sampleCredential (sampleRequest false), .act 0 (.policy six),
    .act 0 .admission]
  asked ++ [.act 0 (.lane (str "a0"))] ++ dispatchedEvents ++ [.restart secondDeployment 3 six] ++ asked

/-- The repeat returns the first result with the provenance of the first process. -/
theorem replay_stable_restarted : ∃ s₀ s l, startedAtSix = some s₀ ∧
    s.settings.deploymentId = str "gateway-2" ∧ s.taskPolicyVersion = 3 ∧
    (s.calls 0).bind InferCall.result? = some (.ok ⟨(sampleRequest false).requestId,
      some (str "application/json"), str "\x7b\x7d", 2, str "gateway-1"⟩) ∧
    ReplayStable plainCipher (sampleRequest false).requestId s l := by
  have hresult : (startedAtSix.bind (fun s => s.play plainCipher sampleSha256
      (fun s _ => (s.db.requests.select (sampleRequest false).requestId).all
        (fun row => !row.isClosed)) restartedEvents)).map
      (fun s => (s.settings.deploymentId, s.taskPolicyVersion, (s.calls 0).bind InferCall.result?)) =
      some (str "gateway-2", 3, some (.ok ⟨(sampleRequest false).requestId,
        some (str "application/json"), str "\x7b\x7d", 2, str "gateway-1"⟩)) := by
    decide +kernel
  obtain ⟨s, hplayed, hends⟩ := Option.map_eq_some_iff.mp hresult
  obtain ⟨s₀, hstart, hplay⟩ := Option.bind_eq_some_iff.mp hplayed
  obtain ⟨hdeployment, hrest⟩ := Prod.mk.inj hends
  obtain ⟨hversion, hreturned⟩ := Prod.mk.inj hrest
  have hrun : Run (KeptStep plainCipher sampleSha256 (sampleRequest false).requestId) s₀
      restartedEvents s := by
    refine run_of_play (fun s e t _ hnext hguard => ⟨hnext, fun row hrow hclosed => ?_⟩) hplay
    rw [hrow, Option.all_some, hclosed] at hguard
    cases hguard
  obtain ⟨l, hrecorded⟩ := hrun.recorded (Ledger.record (sampleRequest false).requestId) .empty
  have hstarted : Started s₀ := ⟨shortRetention, 2, sampleMoment 18 0 0 0, by norm_num, hstart⟩
  exact ⟨s₀, s, l, hstart, hdeployment, hversion, hreturned,
    replay_stable plainCipher_inverts hstarted hrecorded⟩

end Gateway
