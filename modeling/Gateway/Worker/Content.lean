import Gateway.Foundation.JsonGrammar
import Gateway.Worker.Capacity
import Gateway.Worker.Infer

/-! Accepted content as text: read from octets, released as characters. -/
namespace Gateway

open JsonText (Denotes UniqueNames)

variable {library : Library} {schema document : List (Str × Json)} {content : Str}

/-- The choice to read ended normally, and its message holds this content. -/
def Offers (document : List (Str × Json)) (content : Str) : Prop :=
  ∃ choice message, firstChoice document = .ok (choice, message) ∧ checkFinish choice = .ok () ∧
    messageContent message = some content

/-- The octets of the content hold an object that is valid under the schema. -/
structure Accepts (library : Library) (schema : List (Str × Json)) (content : Str) : Prop where
  scalars : Scalars content
  size : (utf8 content).length ≤ maxOutputContentBytes
  valid : ∃ generated, loads library.recursionLimit (utf8 content) = .ok (.dict generated) ∧
    library.validates schema generated = true

/-- Both texts of the result can be encoded in UTF-8. -/
structure WorkerResult.Encodes (result : WorkerResult) : Prop where
  mediaType : Scalars result.mediaType
  content : Scalars result.content

/-- The content itself is the JSON text of one object without repeated names, and that object is
the one that was validated. -/
def TextOf (library : Library) (schema : List (Str × Json)) (content : Str) : Prop :=
  ∃ members generated, Denotes content (.object members) ∧ UniqueNames (.object members) ∧
    (JsonText.object members).eval jsonHooks = .ok (.dict generated) ∧
    loads library.recursionLimit (utf8 content) = .ok (.dict generated) ∧
    library.validates schema generated = true

/-- The content starts with a byte order mark, or has a NUL among its first two characters. -/
def MarksEncoding (content : Str) : Prop := content.head? = some 0xFEFF ∨ 0 ∈ content.take 2

/-! What is accepted. -/

theorem generatedDocument_eq_ok {generated : List (Str × Json)} :
    generatedDocument library content = .ok generated ↔
      Scalars content ∧ (utf8 content).length ≤ maxOutputContentBytes ∧
        loads library.recursionLimit (utf8 content) = .ok (.dict generated) := by
  unfold generatedDocument
  by_cases hscalars : Scalars content
  · rw [if_neg (not_not.mpr hscalars)]
    by_cases hsize : (utf8 content).length ≤ maxOutputContentBytes
    · rw [if_neg (not_lt.mpr hsize)]
      cases hloads : loads library.recursionLimit (utf8 content) with
      | error e => simp
      | ok v => cases v <;> simp [hscalars, hsize]
    · rw [if_pos (not_le.mp hsize)]
      simp [hsize]
  · rw [if_pos hscalars]
    simp [hscalars]

theorem validatedResult_eq_ok {result : WorkerResult} :
    validatedResult library schema document = .ok result ↔
      result.mediaType = str "application/json" ∧ Offers document result.content ∧
        Accepts library schema result.content := by
  constructor
  · intro h
    obtain ⟨⟨choice, message⟩, hchoice, hrest⟩ := bind_eq_ok.mp h
    obtain ⟨u, hfinish, hrest⟩ := bind_eq_ok.mp hrest
    split at hrest
    · cases hrest
    · rename_i content hcontent
      obtain ⟨generated, hgenerated, hvalid⟩ := bind_eq_ok.mp hrest
      split_ifs at hvalid with hv
      obtain rfl := Except.ok.inj hvalid
      obtain ⟨hscalars, hsize, hloads⟩ := generatedDocument_eq_ok.mp hgenerated
      exact ⟨rfl, ⟨choice, message, hchoice, hfinish, hcontent⟩, hscalars, hsize, generated, hloads, hv⟩
  · rintro ⟨hmedia, ⟨choice, message, hchoice, hfinish, hcontent⟩, hscalars, hsize, generated,
      hloads, hv⟩
    have hgenerated := generatedDocument_eq_ok.mpr ⟨hscalars, hsize, hloads⟩
    obtain ⟨mediaType, content⟩ := result
    obtain rfl : mediaType = str "application/json" := hmedia
    simp only [validatedResult, hchoice, hfinish, hcontent, hgenerated, hv, bind, Except.bind, if_true,
      pure, Except.pure]

theorem validatedResult_encodes {result : WorkerResult}
    (h : validatedResult library schema document = .ok result) : result.Encodes := by
  obtain ⟨hmedia, -, haccepts⟩ := validatedResult_eq_ok.mp h
  exact ⟨hmedia ▸ by decide, haccepts.scalars⟩

/-! The two readings. -/

theorem jsonHooks_constant (s : Str) (v : Json) : jsonHooks.constant s ≠ .ok v := by
  simp [jsonHooks, rejectJsonConstant]

theorem jsonHooks_objectPairs (kvs : List (Str × Json)) (v : Json)
    (h : jsonHooks.objectPairs kvs = .ok v) : (kvs.map Prod.fst).Nodup := by
  simp only [jsonHooks, parseJsonObjectPairs] at h
  split_ifs at h with hnodup
  exact hnodup

theorem eval_dict {u : JsonText} {generated : List (Str × Json)}
    (h : u.eval jsonHooks = .ok (.dict generated)) : ∃ members, u = .object members := by
  cases u with
  | object members => exact ⟨members, rfl⟩
  | number t =>
    rw [JsonText.eval] at h
    split_ifs at h
    · obtain ⟨d, -, hd⟩ := map_eq_ok.mp h
      cases hd
    · obtain ⟨n, -, hn⟩ := map_eq_ok.mp h
      cases hn
  | array items =>
    obtain ⟨vs, -, hvs⟩ := bind_eq_ok.mp h
    cases hvs
  | _ => cases h

/-- Read as UTF-8, the octets of the content are the content. -/
theorem textOf_of_utf8 (h : Accepts library schema content)
    (hutf8 : detectEncoding (utf8 content) = .utf8) : TextOf library schema content := by
  obtain ⟨hscalars, -, generated, hloads, hvalid⟩ := h
  have hdecode : JsonText.decode jsonHooks library.recursionLimit content = .ok (.dict generated) := by
    rw [loads, jsonLoads, hutf8] at hloads
    simpa only [decodeBytes, decodeUtf8_utf8 (fun c hc => (hscalars c hc).1)] using hloads
  obtain ⟨u, hdenotes, heval⟩ := JsonText.decode_sound jsonHooks_constant hdecode
  obtain ⟨members, rfl⟩ := eval_dict heval
  exact ⟨members, generated, hdenotes, JsonText.uniqueNames_of_eval jsonHooks_objectPairs _ heval,
    heval, hloads, hvalid⟩

/-- No text of the grammar marks an encoding. -/
theorem denotes_unmarked {u : JsonText} (h : Denotes content u) : ¬ MarksEncoding content := by
  have hnul := h.nul
  obtain ⟨c, t, rfl, hpos, hascii⟩ := h.head
  rintro (hbom | hzero)
  · have : c = 0xFEFF := by simpa using hbom
    omega
  · exact hnul (List.mem_of_mem_take hzero)

/-- Neither of the first two octets is a sign of another encoding, nor do three make a mark. -/
theorem detectEncoding_eq_utf8 {b : Bytes} (h : ∀ x ∈ b.take 2, x ≠ 0 ∧ x < 0xFE)
    (hmark : [0xEF, 0xBB, 0xBF].isPrefixOf b = false) : detectEncoding b = .utf8 := by
  unfold detectEncoding
  rw [hmark]
  match b with
  | [] => rfl
  | [a] =>
    have ha := h a (by simp)
    have hne : (0xFF == a) = false ∧ (0xFE == a) = false ∧ (0 == a) = false := by
      simp only [beq_eq_false_iff_ne]
      omega
    simp [List.isPrefixOf, hne]
  | a :: b :: t =>
    have ha := h a (by simp)
    have hb := h b (by simp)
    have hne : (0xFF == a) = false ∧ (0xFE == a) = false ∧ (0 == a) = false := by
      simp only [beq_eq_false_iff_ne]
      omega
    simp only [List.isPrefixOf, hne, Bool.false_and, Bool.or_self, Bool.false_eq_true, if_false]
    split
    · rename_i heq
      obtain ⟨rfl, rfl, -⟩ := by simpa only [List.cons.injEq] using heq.symm
      rw [if_neg ha.1, if_neg hb.1]
    · rename_i heq
      obtain ⟨rfl, rfl, -⟩ := by simpa only [List.cons.injEq] using heq.symm
      rw [if_neg ha.1, if_neg hb.1]
    · rfl

theorem utf8Char_lt_mark {c : ℕ} (hc : c < 0x110000) : ∀ x ∈ utf8Char c, x < 0xFE := by
  intro x hx
  unfold utf8Char at hx
  split_ifs at hx <;> simp at hx <;> omega

/-- Content in Unicode that does not mark another encoding is read as UTF-8. -/
theorem detectEncoding_of_unmarked (hscalars : Scalars content) (h : ¬ MarksEncoding content) :
    detectEncoding (utf8 content) = .utf8 := by
  have hbelow : ∀ x ∈ utf8 content, x < 0xFE := by
    intro x hx
    obtain ⟨c, hc, hx⟩ := List.mem_flatMap.mp hx
    exact utf8Char_lt_mark (hscalars c hc).1 x hx
  obtain ⟨hbom, hzero⟩ := not_or.mp h
  cases content with
  | nil => rfl
  | cons c rest =>
    have hc : c ≠ 0 := fun hc => hzero (by simp [hc])
    have hmark : c ≠ 0xFEFF := fun hc => hbom (by simp [hc])
    refine detectEncoding_eq_utf8 (fun x hx => ⟨?_, hbelow x (List.mem_of_mem_take hx)⟩) ?_
    · -- An ASCII character is one octet, and the next is the first of the next character.
      by_cases hascii : c < 0x80
      · cases rest with
        | nil =>
          rintro rfl
          simp [utf8, utf8Char, hascii, hc.symm] at hx
        | cons d rest =>
          have hd : d ≠ 0 := fun hd => hzero (by simp [hd])
          have hmem : x ∈ utf8Char c ++ utf8Char d := by
            rw [utf8_cons, utf8_cons] at hx
            simp only [utf8Char, hascii, if_true, List.singleton_append, List.take_succ_cons,
              List.mem_cons] at hx ⊢
            rcases hx with rfl | hx
            · exact .inl rfl
            · right
              split_ifs at hx ⊢ <;> simp at hx <;> simp [hx]
          rcases List.mem_append.mp hmem with hx | hx
          · exact utf8Char_ne_zero hc x hx
          · exact utf8Char_ne_zero hd x hx
      · have hmem : x ∈ utf8Char c := by
          rw [utf8_cons] at hx
          unfold utf8Char at hx ⊢
          split_ifs at hx ⊢ <;> simp at hx ⊢ <;> omega
        exact utf8Char_ne_zero hc x hmem
    · rw [utf8_cons]
      by_contra hprefix
      simp only [Bool.not_eq_false, List.isPrefixOf_iff_prefix] at hprefix
      obtain ⟨t, ht⟩ := hprefix
      unfold utf8Char at ht
      split_ifs at ht <;> simp at ht <;> omega

/-- What is accepted is a JSON text of what was validated exactly where nothing is read in another
encoding than UTF-8: no offered content that marks one holds, read so, a valid object. -/
theorem content_text (library : Library) (schema document : List (Str × Json)) :
    (∀ result, validatedResult library schema document = .ok result →
      TextOf library schema result.content) ↔
    ∀ content, Offers document content → MarksEncoding content → ¬ Accepts library schema content := by
  constructor
  · intro h content hoffers hmarks haccepts
    have hok : validatedResult library schema document = .ok ⟨str "application/json", content⟩ :=
      validatedResult_eq_ok.mpr ⟨rfl, hoffers, haccepts⟩
    obtain ⟨members, -, hdenotes, -⟩ := h _ hok
    exact denotes_unmarked hdenotes hmarks
  · intro h result hok
    obtain ⟨-, hoffers, haccepts⟩ := validatedResult_eq_ok.mp hok
    exact textOf_of_utf8 haccepts (detectEncoding_of_unmarked haccepts.scalars
      fun hmarks => h _ hoffers hmarks haccepts)

/-- A completion with this content. -/
def completionDocument (content : Str) : List (Str × Json) :=
  [(str "choices", .list [.dict [(str "message", .dict [(str "content", .string content)])]])]

/-- A byte order mark before an empty object is released with the object, and is no JSON text. -/
theorem content_text_marked :
    ¬ ∀ result, validatedResult ⟨100, fun _ _ => true⟩ []
        (completionDocument (0xFEFF :: str "\x7b\x7d")) = .ok result →
      TextOf ⟨100, fun _ _ => true⟩ [] result.content := by
  intro h
  have hok : validatedResult ⟨100, fun _ _ => true⟩ []
      (completionDocument (0xFEFF :: str "\x7b\x7d")) =
        .ok ⟨str "application/json", 0xFEFF :: str "\x7b\x7d"⟩ := by
    decide +kernel
  obtain ⟨members, -, hdenotes, -⟩ := h _ hok
  exact denotes_unmarked hdenotes (.inl rfl)

end Gateway
