import Gateway.Store.Capacity

/-! What each operation answers and does to each row, once its cleanup is done. -/
namespace Gateway

variable {settings : StoreSettings} {cipher : Cipher} {now : Datetime} {t t₁ : Table} {row : Row}
variable {requestId attemptId credentialHash k : Str}

/-! The assignments of the operations. -/

def Row.mark (row : Row) (attemptId : Str) (now : Datetime) : Row :=
  { row with state := .inProgress, attemptId := some attemptId, updatedAt := timestamp now }

def Row.reset (row : Row) (now : Datetime) : Row :=
  { row with state := .reserved, attemptId := none, updatedAt := timestamp now }

def Row.interrupt (row : Row) (now : Datetime) : Row :=
  { row with state := .ambiguous, updatedAt := timestamp now }

def Row.fail (row : Row) (code : Str) (retryable : Bool) (retryAfterSeconds : Option ℤ)
    (now : Datetime) : Row :=
  { row with state := .failed, errorCode := some code, errorRetryable := some retryable,
             errorRetryAfterSeconds := retryAfterSeconds, updatedAt := timestamp now }

def Row.complete (row : Row) (mediaType : Str) (nonce ciphertext : Bytes) (deploymentId : Str)
    (taskPolicyVersion : ℤ) (now : Datetime) : Row :=
  { row with state := .completed, outputMediaType := some mediaType, outputNonce := some nonce,
             outputCiphertext := some ciphertext, producingDeploymentId := some deploymentId,
             producingTaskPolicyVersion := some taskPolicyVersion, updatedAt := timestamp now }

/-- A row found under a key is matched by a condition on that key exactly when it meets the rest. -/
theorem matched_select (p : Row → Bool) :
    t.matched (fun row => row.requestId = k && p row) = if (t.select k).any p then 1 else 0 :=
  KeyedTable.matched_key k p

theorem select_keyed (p : Row → Bool) (f : Row → Row) (hf : ∀ row, (f row).requestId = row.requestId)
    (k' : Str) :
    (t.update (fun row => row.requestId = k && p row) f hf).select k' =
      if k' = k then (t.select k).map (fun row => if p row then f row else row)
      else t.select k' := by
  rw [KeyedTable.select_update]
  split_ifs with hk
  · subst hk
    cases hs : t.select k' with
    | none => rfl
    | some row => simp [KeyedTable.key_of_select hs]
  · cases hs : t.select k' with
    | none => rfl
    | some row =>
      have hne : row.requestId ≠ k := by
        rw [KeyedTable.key_of_select hs]
        exact hk
      simp [hne]

theorem select_updateAttempt (f : Row → Row) (hf : ∀ row, (f row).requestId = row.requestId)
    (k : Str) :
    (updateAttempt requestId attemptId f hf t).select k =
      if k = requestId then
        (t.select requestId).map (fun row =>
          if row.state = .inProgress ∧ row.attemptId = some attemptId then f row else row)
      else t.select k := by
  have h := select_keyed (t := t) (k := requestId)
    (fun row => row.state = .inProgress && row.attemptId = some attemptId) f hf k
  simpa only [updateAttempt, Row.isAttempt, Bool.and_eq_true, decide_eq_true_eq] using h

section Cleaned

variable (hclean : cleanup settings now t = .ok t₁)
include hclean

theorem maintain_eq : maintain settings now t = .ok ((), t₁) := by
  rw [maintain, hclean]
  rfl

theorem getOwned_eq (requestDigest : Option Str) :
    getOwned settings now requestId credentialHash requestDigest t =
      match t₁.select requestId with
      | none => .error .requestUnknown
      | some row => (authorizeExisting row.record credentialHash requestDigest).map
          (fun _ => (row.record, t₁)) := by
  rw [getOwned, hclean]
  simp only [bind, Except.bind]
  cases t₁.select requestId with
  | none => rfl
  | some row =>
    simp only
    cases authorizeExisting row.record credentialHash requestDigest <;> rfl

theorem markInProgress_eq :
    markInProgress settings now requestId attemptId t =
      if t₁.matched (fun row => row.requestId = requestId && row.state = .reserved) ≠ 1 then
        .error (.storeError "request is not reserved for dispatch")
      else
        match (t₁.update (fun row => row.requestId = requestId && row.state = .reserved)
          (fun row => row.mark attemptId now) (fun _ => rfl)).select requestId with
        | none => .error .requestUnknown
        | some row => .ok (row.record,
            t₁.update (fun row => row.requestId = requestId && row.state = .reserved)
              (fun row => row.mark attemptId now) (fun _ => rfl)) := by
  rw [markInProgress, hclean]
  rfl

theorem complete_eq {nonce : Bytes} {mediaType content deploymentId : Str} {taskPolicyVersion : ℤ} :
    complete settings now cipher nonce requestId attemptId mediaType content deploymentId
        taskPolicyVersion t =
      match t₁.select requestId with
      | none => .ok (false, t₁)
      | some row =>
        if row.state = .expired then .ok (false, t₁)
        else if row.state ≠ .inProgress ∨ row.attemptId ≠ some attemptId then
          .error (.storeError "worker completion does not own the active attempt")
        else
          match row.record.encrypt cipher nonce content with
          | .error e => .error e
          | .ok (nonce, ciphertext) =>
            if ¬ (Scalars mediaType ∧ Scalars deploymentId) then .error .unicodeError
            else if taskPolicyVersion < 1 then .error .integrityError
            else .ok (t₁.matched (fun row => row.isAttempt requestId attemptId) = 1,
              updateAttempt requestId attemptId (fun row =>
                row.complete mediaType nonce ciphertext deploymentId taskPolicyVersion now)
                (fun _ => rfl) t₁) := by
  rw [complete, hclean]
  simp only [bind, Except.bind]
  cases t₁.select requestId with
  | none => rfl
  | some row =>
    simp only
    split_ifs
    · rfl
    · rfl
    all_goals cases row.record.encrypt cipher nonce content <;> rfl

theorem acknowledge_eq {disposition : Str} :
    acknowledge settings now requestId credentialHash disposition t =
      match t₁.select requestId with
      | none => .error .requestUnknown
      | some row =>
        match authorizeExisting row.record credentialHash none with
        | .error e => .error e
        | .ok () =>
          match row.state with
          | .acknowledged =>
            if row.acknowledgementDisposition ≠ some disposition then
              .error .acknowledgementConflict
            else .ok (row.record, t₁)
          | .expired => .error .requestExpired
          | .completed =>
            match (t₁.update (fun row => row.requestId = requestId && row.state = .completed)
              (fun row => row.acknowledge disposition now) (fun _ => rfl)).select requestId with
            | none => .error .requestUnknown
            | some row => .ok (row.record,
                t₁.update (fun row => row.requestId = requestId && row.state = .completed)
                  (fun row => row.acknowledge disposition now) (fun _ => rfl))
          | _ => .error (.requestNotTerminal "request result is not terminal") := by
  rw [acknowledge, hclean]
  simp only [bind, Except.bind]
  cases t₁.select requestId with
  | none => rfl
  | some row =>
    simp only
    cases authorizeExisting row.record credentialHash none with
    | error e => rfl
    | ok u => rfl

/-- Only a reserved row is marked. -/
theorem markInProgress_reserved (hrow : t₁.select requestId = some row)
    (hstate : row.state = .reserved) :
    ∃ t', markInProgress settings now requestId attemptId t =
        .ok ((row.mark attemptId now).record, t') ∧
      ∀ k, t'.select k = if k = requestId then some (row.mark attemptId now) else t₁.select k := by
  have hselect := select_keyed (t := t₁) (k := requestId) (fun row => row.state = .reserved)
    (fun row => row.mark attemptId now) (fun _ => rfl)
  refine ⟨t₁.update (fun row => row.requestId = requestId && row.state = .reserved)
    (fun row => row.mark attemptId now) (fun _ => rfl), ?_, fun k => ?_⟩
  rotate_left
  · rw [hselect, hrow]
    simp [hstate]
  · have hself := hselect requestId
    rw [if_pos rfl, hrow] at hself
    simp only [Option.map_some, hstate, decide_true, if_true] at hself
    rw [markInProgress, hclean]
    simp only [bind, Except.bind]
    rw [matched_select, hrow]
    simp only [Option.any_some, hstate, decide_true, if_true, ne_eq, not_true_eq_false, if_false]
    split
    · rename_i hnone
      exact absurd (hself.symm.trans hnone) (by simp)
    · rename_i row' hsome
      obtain rfl := Option.some.inj (hself.symm.trans hsome)
      rfl

theorem markInProgress_other (h : ∀ row, t₁.select requestId = some row → row.state ≠ .reserved) :
    markInProgress settings now requestId attemptId t =
      .error (.storeError "request is not reserved for dispatch") := by
  rw [markInProgress, hclean]
  simp only [bind, Except.bind]
  rw [matched_select]
  cases hs : t₁.select requestId with
  | none => rfl
  | some row => simp [h row hs]

/-- A completion of the attempt in progress is stored. -/
theorem complete_attempt {nonce ciphertext : Bytes} {mediaType content deploymentId : Str}
    {taskPolicyVersion : ℤ} (hrow : t₁.select requestId = some row) (hstate : row.state = .inProgress)
    (hattempt : row.attemptId = some attemptId)
    (hseal : row.record.encrypt cipher nonce content = .ok (nonce, ciphertext))
    (hbinds : Scalars mediaType ∧ Scalars deploymentId) (hversion : 1 ≤ taskPolicyVersion) :
    ∃ t', complete settings now cipher nonce requestId attemptId mediaType content deploymentId
        taskPolicyVersion t = .ok (true, t') ∧
      ∀ k, t'.select k = if k = requestId then
        some (row.complete mediaType nonce ciphertext deploymentId taskPolicyVersion now)
        else t₁.select k := by
  have hmatched : t₁.matched (fun row => row.isAttempt requestId attemptId) = 1 := by
    have := matched_select (t := t₁) (k := requestId)
      (fun row => row.state = .inProgress && row.attemptId = some attemptId)
    rw [hrow] at this
    simpa [Row.isAttempt, hstate, hattempt] using this
  refine ⟨updateAttempt requestId attemptId (fun row =>
    row.complete mediaType nonce ciphertext deploymentId taskPolicyVersion now) (fun _ => rfl) t₁,
    ?_, fun k => ?_⟩
  rotate_left
  · rw [select_updateAttempt (fun row =>
      row.complete mediaType nonce ciphertext deploymentId taskPolicyVersion now) (fun _ => rfl), hrow]
    simp [hstate, hattempt]
  · rw [complete, hclean]
    simp only [bind, Except.bind, hrow]
    rw [if_neg (by simp [hstate]), if_neg (by simp [hstate, hattempt]), hseal]
    simp only
    rw [if_neg (not_not.mpr hbinds), if_neg (not_lt.mpr hversion), hmatched]
    rfl

/-- An acknowledgement of a completed row erases its output. -/
theorem acknowledge_completed {disposition : Str} (hrow : t₁.select requestId = some row)
    (howner : row.credentialHash = credentialHash) (hstate : row.state = .completed) :
    ∃ t', acknowledge settings now requestId credentialHash disposition t =
        .ok ((row.acknowledge disposition now).record, t') ∧
      ∀ k, t'.select k = if k = requestId then some (row.acknowledge disposition now)
        else t₁.select k := by
  have hselect := select_keyed (t := t₁) (k := requestId) (fun row => row.state = .completed)
    (fun row => row.acknowledge disposition now) (fun _ => rfl)
  have hself := hselect requestId
  rw [if_pos rfl, hrow] at hself
  simp only [Option.map_some, hstate, decide_true, if_true] at hself
  have hauth : authorizeExisting row.record credentialHash none = .ok () :=
    authorizeExisting_ok.mpr ⟨howner, by simp⟩
  refine ⟨t₁.update (fun row => row.requestId = requestId && row.state = .completed)
    (fun row => row.acknowledge disposition now) (fun _ => rfl), ?_, fun k => ?_⟩
  rotate_left
  · rw [hselect, hrow]
    simp [hstate]
  · rw [acknowledge, hclean]
    simp only [bind, Except.bind, hrow, hauth, hstate]
    split
    · rename_i hnone
      exact absurd (hself.symm.trans hnone) (by simp)
    · rename_i row' hsome
      obtain rfl := Option.some.inj (hself.symm.trans hsome)
      rfl

/-- A repeat with the recorded disposition answers what is recorded. -/
theorem acknowledge_repeated {disposition : Str} (hrow : t₁.select requestId = some row)
    (howner : row.credentialHash = credentialHash) (hstate : row.state = .acknowledged)
    (hdisposition : row.acknowledgementDisposition = some disposition) :
    acknowledge settings now requestId credentialHash disposition t = .ok (row.record, t₁) := by
  have hauth : authorizeExisting row.record credentialHash none = .ok () :=
    authorizeExisting_ok.mpr ⟨howner, by simp⟩
  rw [acknowledge, hclean]
  simp only [bind, Except.bind, hrow, hauth, hstate]
  exact if_neg (not_not.mpr hdisposition)

/-- Every success has one of these two origins. -/
theorem acknowledge_ok {disposition : Str} {record : RequestRecord} {t' : Table}
    (h : acknowledge settings now requestId credentialHash disposition t = .ok (record, t')) :
    ∃ row, t₁.select requestId = some row ∧ row.credentialHash = credentialHash ∧
      (row.state = .completed ∧ record = (row.acknowledge disposition now).record ∧
          (∀ k, t'.select k = if k = requestId then some (row.acknowledge disposition now)
            else t₁.select k) ∨
        row.state = .acknowledged ∧ row.acknowledgementDisposition = some disposition ∧
          record = row.record ∧ t' = t₁) := by
  have hspec := h
  rw [acknowledge, hclean] at h
  simp only [bind, Except.bind] at h
  split at h
  · cases h
  · rename_i row hrow
    cases hauth : authorizeExisting row.record credentialHash none with
    | error e =>
      rw [hauth] at h
      cases h
    | ok u =>
      rw [hauth] at h
      have howner : row.credentialHash = credentialHash := (authorizeExisting_ok.mp hauth).1
      refine ⟨row, hrow, howner, ?_⟩
      simp only at h
      split at h
      · rename_i hstate
        split_ifs at h with hdisposition
        obtain ⟨rfl, rfl⟩ := Prod.mk.inj (Except.ok.inj h)
        exact .inr ⟨hstate, not_not.mp hdisposition, rfl, rfl⟩
      · cases h
      · rename_i hstate
        obtain ⟨t'', hdone, hselect⟩ := acknowledge_completed hclean hrow howner hstate
        obtain ⟨rfl, rfl⟩ := Prod.mk.inj (Except.ok.inj (hspec.symm.trans hdone))
        exact .inl ⟨hstate, rfl, hselect⟩
      · cases h

end Cleaned

end Gateway
