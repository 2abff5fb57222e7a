import Gateway.Foundation.Results
import Gateway.Foundation.Lines
import Gateway.Service.Policy
import Gateway.Contracts.Admission

/-! The credential file: what it may say, and whom a token authenticates. -/
namespace Gateway

open Json (get keys)

def maxConfigBytes : ℕ := 128 * 1024
def maxCredentials : ℕ := 100
def tokenDigestLength : ℕ := 64

/-- What leaves the reading of a configuration file. -/
inductive ConfigRaised where
  | configuration (message : String)
  | unicodeEncode
deriving DecidableEq

/-- `raise ConfigurationError(message)` unless the condition holds. -/
def ensureConfig (b : Bool) (message : String) : Except ConfigRaised Unit :=
  if b then .ok () else .error (.configuration message)

def demandConfig {α : Type} (value : Option α) (message : String) : Except ConfigRaised α :=
  match value with
  | some a => .ok a
  | none => .error (.configuration message)

theorem ensureConfig_eq_ok {b : Bool} {message : String} {u : Unit} :
    ensureConfig b message = .ok u ↔ b = true := by
  cases b <;> simp [ensureConfig]

theorem demandConfig_eq_ok {α : Type} {value : Option α} {message : String} {a : α} :
    demandConfig value message = .ok a ↔ value = some a := by
  cases value <;> simp [demandConfig]

/-! The file. -/

/-- A file as `fstat` and `read` show it; `none` is a read that fails. -/
structure PrivateFile where
  regular : Bool
  mode : ℕ
  size : ℕ
  content : Option Bytes

/-- `dict[key] = value`: the place of the first such key, the value of the last. -/
def setItem (fields : List (Str × Json)) (key : Str) (value : Json) : List (Str × Json) :=
  if key ∈ keys fields then fields.map (fun f => if f.1 = key then (key, value) else f)
  else fields ++ [(key, value)]

/-- `json.loads` without hooks. No check below asks for the value of a float or a constant, only
for its type; they stand here as decimals. -/
def plainHooks : JsonHooks Json JsonError where
  null := .null
  bool := .bool
  string := .string
  array := .list
  integer := fun t =>
    if intMaxStrDigits < t.integer.length then .error .libraryValueError else .ok (.int t.toInt)
  float := fun t => .ok (.decimal t.toDecimal)
  constant := fun _ => .ok (.decimal ⟨false, 0, 0⟩)
  objectPairs := fun pairs => .ok (.dict (pairs.foldl (fun fs p => setItem fs p.1 p.2) []))
  decodeError := .libraryValueError
  recursionError := .recursionError

section File

variable (posix : Bool) (recursionLimit : ℕ) (label : String)

/-- `_read_private_json`; `none` is a path that does not open. -/
def readPrivateJson : Option PrivateFile → Except ConfigRaised (List (Str × Json))
  | none => .error (.configuration (label ++ " file is unavailable or invalid"))
  | some file => do
    ensureConfig (file.regular && 0 < file.size && file.size ≤ maxConfigBytes)
      (label ++ " file is invalid")
    ensureConfig (!(posix && (file.mode &&& 0o7777) &&& 0o077 ≠ 0))
      (label ++ " file must be owner-private")
    let content ← demandConfig file.content (label ++ " file is unavailable or invalid")
    let encoded := content.take (maxConfigBytes + 1)
    ensureConfig (encoded ≠ [] && encoded.length ≤ maxConfigBytes) (label ++ " file is invalid")
    let document ← demandConfig (jsonLoads plainHooks .libraryValueError recursionLimit encoded).toOption
      (label ++ " file is unavailable or invalid")
    demandConfig document.asDict? (label ++ " file must contain a JSON object")

end File

/-! Its entries. -/

/-- `Credential`, with the digest of the token it is claimed by. -/
structure CredentialEntry extends Credential where
  tokenDigest : Str

/-- Credentials as `from_file` collects them. -/
structure CredentialStore where
  credentials : List CredentialEntry
  identities : (credentials.map (fun c => c.identityHash)).Nodup
  digests : (credentials.map CredentialEntry.tokenDigest).Nodup

def CredentialStore.empty : CredentialStore := ⟨[], List.nodup_nil, List.nodup_nil⟩

theorem nodup_map_concat {α β : Type*} {f : α → β} {xs : List α} {x : α} (h : (xs.map f).Nodup)
    (hx : f x ∉ xs.map f) : ((xs ++ [x]).map f).Nodup := by
  rw [List.map_append, List.nodup_append]
  refine ⟨h, List.nodup_singleton _, ?_⟩
  rintro y hy z hz rfl
  obtain rfl := List.mem_singleton.mp hz
  exact hx hy

/-- `identities.add`, `token_digests.add` and `credentials.append`, after the check on both. -/
def CredentialStore.add (store : CredentialStore) (entry : CredentialEntry) :
    Except ConfigRaised CredentialStore :=
  if h : entry.identityHash ∉ store.credentials.map (fun c => c.identityHash) ∧
      entry.tokenDigest ∉ store.credentials.map CredentialEntry.tokenDigest then
    .ok ⟨store.credentials ++ [entry], nodup_map_concat store.identities h.1,
      nodup_map_concat store.digests h.2⟩
  else .error (.configuration "credential identities and token digests must be unique")

section Parsing

variable (sha256 : Bytes → Str)

/-- One entry of `_parse_tasks`. -/
def parseTask (item : Json) : Except ConfigRaised Task := do
  let fields ← demandConfig item.asDict? "credential task entries are invalid"
  ensureConfig (keysAre fields [str "id", str "version"]) "credential task entries are invalid"
  let id ← demandConfig ((get fields (str "id")).bind Json.asString?)
    "credential task identity is invalid"
  let version ← demandConfig ((get fields (str "version")).bind Json.asInt?)
    "credential task identity is invalid"
  ensureConfig (id ≠ [] && 1 ≤ version) "credential task identity is invalid"
  return (id, version)

/-- `_parse_tasks`. -/
def parseTasks (value : Option Json) : Except ConfigRaised (List Task) := do
  let items ← demandConfig (value.bind Json.asList?) "credential tasks must be a non-empty list"
  ensureConfig (items ≠ []) "credential tasks must be a non-empty list"
  let parsed ← items.mapM parseTask
  ensureConfig parsed.Nodup "credential task entries must be unique"
  return parsed

/-- One entry of `credentials`. -/
def parseCredential (raw : Json) : Except ConfigRaised CredentialEntry := do
  let fields ← demandConfig raw.asDict? "credential entries contain invalid fields"
  ensureConfig (keysAre fields [str "id", str "token_sha256", str "tasks"])
    "credential entries contain invalid fields"
  let identity ← demandConfig ((get fields (str "id")).bind Json.asString?)
    "credential id is invalid"
  ensureConfig (1 ≤ identity.length && identity.length ≤ 128) "credential id is invalid"
  let tokenDigest ← demandConfig ((get fields (str "token_sha256")).bind Json.asString?)
    "credential token digest is invalid"
  ensureConfig (tokenDigest.length = tokenDigestLength && tokenDigest.all isLowerHex)
    "credential token digest is invalid"
  let tasks ← parseTasks (get fields (str "tasks"))
  -- A lone surrogate in the identity is not a configuration error.
  if Scalars identity then return ⟨⟨sha256 (utf8 identity), tasks⟩, tokenDigest⟩
  else .error .unicodeEncode

/-- `from_file`, on the document of the file. -/
def CredentialStore.fromDocument (document : List (Str × Json)) :
    Except ConfigRaised CredentialStore := do
  ensureConfig (keysAre document [str "version", str "credentials"] &&
    get document (str "version") = some (.int 1)) "credential file must use schema version 1"
  let raws ← demandConfig ((get document (str "credentials")).bind Json.asList?)
    "credential file must contain a bounded non-empty list"
  ensureConfig (1 ≤ raws.length && raws.length ≤ maxCredentials)
    "credential file must contain a bounded non-empty list"
  raws.foldlM (fun store raw => (parseCredential sha256 raw).bind store.add) .empty

/-- `CredentialStore.from_file`. -/
def CredentialStore.fromFile (posix : Bool) (recursionLimit : ℕ) (file : Option PrivateFile) :
    Except ConfigRaised CredentialStore := do
  let document ← readPrivateJson posix recursionLimit "credential" file
  fromDocument sha256 document

/-! Tokens. -/

def tokenAccepted (token : Str) : Bool :=
  32 ≤ token.length && token.length ≤ 512 && token.all (· < 128) && !token.any isWhite

/-- `CredentialStore.authenticate`: the loop keeps the last entry whose digest compares equal. -/
def CredentialStore.authenticate (store : CredentialStore) (token : Str) : Option CredentialEntry :=
  if !tokenAccepted token then none
  else
    store.credentials.foldl (fun matched credential =>
      if sha256 token = credential.tokenDigest then some credential else matched) none

end Parsing

/-! What a file declares. -/

/-- An entry as its author means it. -/
structure DeclaredCredential where
  id : Str
  tokenSha256 : Str
  tasks : List Task

/-- What the gateway keeps of it. -/
def DeclaredCredential.entry (sha256 : Bytes → Str) (d : DeclaredCredential) : CredentialEntry :=
  ⟨⟨sha256 (utf8 d.id), d.tasks⟩, d.tokenSha256⟩

structure DeclaredCredential.WellFormed (d : DeclaredCredential) : Prop where
  id_length : 1 ≤ d.id.length ∧ d.id.length ≤ 128
  id_scalars : Scalars d.id
  digest_length : d.tokenSha256.length = tokenDigestLength
  digest_hex : ∀ c ∈ d.tokenSha256, isLowerHex c = true
  tasks_ne : d.tasks ≠ []
  tasks_nodup : d.tasks.Nodup
  tasks_valid : ∀ task ∈ d.tasks, task.1 ≠ [] ∧ 1 ≤ task.2

/-- An object with these fields and no others, in any order. -/
def SaysTask (item : Json) (task : Task) : Prop :=
  ∃ fields, item = .dict fields ∧ (∀ k, k ∈ keys fields ↔ k ∈ [str "id", str "version"]) ∧
    get fields (str "id") = some (.string task.1) ∧ get fields (str "version") = some (.int task.2)

def SaysCredential (raw : Json) (d : DeclaredCredential) : Prop :=
  ∃ fields items, raw = .dict fields ∧
    (∀ k, k ∈ keys fields ↔ k ∈ [str "id", str "token_sha256", str "tasks"]) ∧
    get fields (str "id") = some (.string d.id) ∧
    get fields (str "token_sha256") = some (.string d.tokenSha256) ∧
    get fields (str "tasks") = some (.list items) ∧ List.Forall₂ SaysTask items d.tasks

def SaysCredentials (document : List (Str × Json)) (ds : List DeclaredCredential) : Prop :=
  ∃ raws, (∀ k, k ∈ keys document ↔ k ∈ [str "version", str "credentials"]) ∧
    get document (str "version") = some (.int 1) ∧
    get document (str "credentials") = some (.list raws) ∧ List.Forall₂ SaysCredential raws ds

/-- A field of a wanted type. -/
theorem bind_get_eq_some {α : Type} {read : Json → Option α} {make : α → Json} {a : α}
    {fields : List (Str × Json)} {key : Str} (hread : ∀ v, read v = some a ↔ v = make a) :
    (get fields key).bind read = some a ↔ get fields key = some (make a) := by
  simp [Option.bind_eq_some_iff, hread]

section Declared

variable {sha256 : Bytes → Str} {item raw : Json} {task : Task}
variable {entry : CredentialEntry} {document : List (Str × Json)} {ds ds' : List DeclaredCredential}
variable {store store' : CredentialStore} {token : Str}

theorem parseTask_eq_ok :
    parseTask item = .ok task ↔ SaysTask item task ∧ task.1 ≠ [] ∧ 1 ≤ task.2 := by
  obtain ⟨id, version⟩ := task
  constructor
  · intro h
    obtain ⟨fields, hfields, h⟩ := bind_eq_ok.mp h
    obtain ⟨_, hkeys, h⟩ := bind_eq_ok.mp h
    obtain ⟨id', hid, h⟩ := bind_eq_ok.mp h
    obtain ⟨version', hversion, h⟩ := bind_eq_ok.mp h
    obtain ⟨_, hvalid, h⟩ := bind_eq_ok.mp h
    obtain ⟨rfl, rfl⟩ := Prod.mk.inj (Except.ok.inj h)
    rw [demandConfig_eq_ok] at hfields hid hversion
    rw [ensureConfig_eq_ok] at hkeys hvalid
    rw [bind_get_eq_some fun v => asString?_eq_some] at hid
    rw [bind_get_eq_some fun v => asInt?_eq_some] at hversion
    exact ⟨⟨fields, asDict?_eq_some.mp hfields, keysAre_iff.mp hkeys, hid, hversion⟩, by
      simpa using hvalid⟩
  · rintro ⟨⟨fields, rfl, hkeys, hid, hversion⟩, hne, hle⟩
    refine bind_eq_ok.mpr ⟨(), ?_, bind_eq_ok.mpr ⟨id, ?_, bind_eq_ok.mpr ⟨version, ?_,
      bind_eq_ok.mpr ⟨(), ?_, rfl⟩⟩⟩⟩
    · exact ensureConfig_eq_ok.mpr (keysAre_iff.mpr hkeys)
    · exact demandConfig_eq_ok.mpr ((bind_get_eq_some fun v => asString?_eq_some).mpr hid)
    · exact demandConfig_eq_ok.mpr ((bind_get_eq_some fun v => asInt?_eq_some).mpr hversion)
    · exact ensureConfig_eq_ok.mpr (by simpa using ⟨hne, hle⟩)

theorem parseTasks_eq_ok {value : Option Json} {tasks : List Task} :
    parseTasks value = .ok tasks ↔ tasks ≠ [] ∧ tasks.Nodup ∧
      (∀ task ∈ tasks, task.1 ≠ [] ∧ 1 ≤ task.2) ∧
      ∃ items, value = some (.list items) ∧ List.Forall₂ SaysTask items tasks := by
  have hmap : ∀ items, items.mapM parseTask = .ok tasks ↔
      List.Forall₂ SaysTask items tasks ∧ ∀ task ∈ tasks, task.1 ≠ [] ∧ 1 ≤ task.2 := by
    intro items
    rw [mapM_eq_ok, ← forall₂_and_right]
    simp only [parseTask_eq_ok]
  have hitems : ∀ items, value.bind Json.asList? = some items ↔ value = some (.list items) := by
    intro items
    simp [Option.bind_eq_some_iff, asList?_eq_some]
  have hempty : ∀ items, List.Forall₂ SaysTask items tasks → (items ≠ [] ↔ tasks ≠ []) := by
    intro items h
    cases h <;> simp
  constructor
  · intro h
    obtain ⟨items, hvalue, h⟩ := bind_eq_ok.mp h
    obtain ⟨_, hne, h⟩ := bind_eq_ok.mp h
    obtain ⟨parsed, hparsed, h⟩ := bind_eq_ok.mp h
    obtain ⟨_, hnodup, h⟩ := bind_eq_ok.mp h
    obtain rfl := Except.ok.inj h
    rw [demandConfig_eq_ok, hitems] at hvalue
    rw [ensureConfig_eq_ok, decide_eq_true_eq] at hne hnodup
    obtain ⟨hdeclared, hvalid⟩ := (hmap items).mp hparsed
    exact ⟨(hempty items hdeclared).mp hne, hnodup, hvalid, items, hvalue, hdeclared⟩
  · rintro ⟨hne, hnodup, hvalid, items, hvalue, hdeclared⟩
    refine bind_eq_ok.mpr ⟨items, demandConfig_eq_ok.mpr ((hitems items).mpr hvalue),
      bind_eq_ok.mpr ⟨(), ?_, bind_eq_ok.mpr ⟨tasks, (hmap items).mpr ⟨hdeclared, hvalid⟩,
        bind_eq_ok.mpr ⟨(), ?_, rfl⟩⟩⟩⟩
    · exact ensureConfig_eq_ok.mpr (decide_eq_true ((hempty items hdeclared).mpr hne))
    · exact ensureConfig_eq_ok.mpr (decide_eq_true hnodup)

theorem parseCredential_eq_ok : parseCredential sha256 raw = .ok entry ↔
    ∃ d, SaysCredential raw d ∧ d.WellFormed ∧ entry = d.entry sha256 := by
  constructor
  · intro h
    obtain ⟨fields, hfields, h⟩ := bind_eq_ok.mp h
    obtain ⟨_, hkeys, h⟩ := bind_eq_ok.mp h
    obtain ⟨identity, hid, h⟩ := bind_eq_ok.mp h
    obtain ⟨_, hlength, h⟩ := bind_eq_ok.mp h
    obtain ⟨tokenDigest, hdigest, h⟩ := bind_eq_ok.mp h
    obtain ⟨_, hhex, h⟩ := bind_eq_ok.mp h
    obtain ⟨tasks, htasks, h⟩ := bind_eq_ok.mp h
    rw [demandConfig_eq_ok] at hfields hid hdigest
    rw [ensureConfig_eq_ok] at hkeys hlength hhex
    rw [bind_get_eq_some fun v => asString?_eq_some] at hid hdigest
    obtain ⟨hne, hnodup, hvalid, items, hitems, hdeclared⟩ := parseTasks_eq_ok.mp htasks
    split_ifs at h with hscalars
    · obtain rfl := Except.ok.inj h
      simp only [Bool.and_eq_true, decide_eq_true_eq, List.all_eq_true] at hlength hhex
      exact ⟨⟨identity, tokenDigest, tasks⟩, ⟨fields, items, asDict?_eq_some.mp hfields,
        keysAre_iff.mp hkeys, hid, hdigest, hitems, hdeclared⟩,
        ⟨hlength, hscalars, hhex.1, hhex.2, hne, hnodup, hvalid⟩, rfl⟩
  · rintro ⟨d, ⟨fields, items, rfl, hkeys, hid, hdigest, hitems, hdeclared⟩, hd, rfl⟩
    refine bind_eq_ok.mpr ⟨(), ?_, bind_eq_ok.mpr ⟨d.id, ?_, bind_eq_ok.mpr ⟨(), ?_,
      bind_eq_ok.mpr ⟨d.tokenSha256, ?_, bind_eq_ok.mpr ⟨(), ?_, bind_eq_ok.mpr ⟨d.tasks, ?_, ?_⟩⟩⟩⟩⟩⟩
    · exact ensureConfig_eq_ok.mpr (keysAre_iff.mpr hkeys)
    · exact demandConfig_eq_ok.mpr ((bind_get_eq_some fun v => asString?_eq_some).mpr hid)
    · exact ensureConfig_eq_ok.mpr (by simpa using hd.id_length)
    · exact demandConfig_eq_ok.mpr ((bind_get_eq_some fun v => asString?_eq_some).mpr hdigest)
    · exact ensureConfig_eq_ok.mpr (by simpa using ⟨hd.digest_length, hd.digest_hex⟩)
    · exact parseTasks_eq_ok.mpr ⟨hd.tasks_ne, hd.tasks_nodup, hd.tasks_valid, items, hitems, hdeclared⟩
    · exact if_pos hd.id_scalars

/-- What is added comes last, and is not there yet. -/
theorem CredentialStore.add_eq_ok :
    store.add entry = .ok store' ↔ store'.credentials = store.credentials ++ [entry] := by
  unfold add
  constructor
  · intro h
    split_ifs at h
    obtain rfl := Except.ok.inj h
    rfl
  · intro h
    obtain ⟨credentials, identities, digests⟩ := store'
    obtain rfl : credentials = _ := h
    rw [List.map_append, List.nodup_append] at identities digests
    rw [dif_pos]
    exact ⟨fun hmem => identities.2.2 _ hmem _ (by simp) rfl,
      fun hmem => digests.2.2 _ hmem _ (by simp) rfl⟩

theorem CredentialStore.foldlM_add {entries : List CredentialEntry} :
    entries.foldlM CredentialStore.add store = .ok store' ↔
      store'.credentials = store.credentials ++ entries := by
  induction entries generalizing store with
  | nil =>
    obtain ⟨credentials, _, _⟩ := store
    obtain ⟨credentials', _, _⟩ := store'
    rw [List.foldlM_nil, List.append_nil]
    change Except.ok _ = _ ↔ credentials' = credentials
    rw [Except.ok.injEq, mk.injEq, eq_comm]
  | cons entry entries ih =>
    rw [List.foldlM_cons]
    constructor
    · intro h
      obtain ⟨u, hadd, h⟩ := bind_eq_ok.mp h
      rw [ih.mp h, add_eq_ok.mp hadd, List.append_assoc, List.singleton_append]
    · intro h
      rw [← List.singleton_append, ← List.append_assoc] at h
      have hids := store'.identities
      have hdigests := store'.digests
      rw [h, List.map_append] at hids hdigests
      refine bind_eq_ok.mpr ⟨⟨store.credentials ++ [entry], (List.nodup_append.mp hids).1,
        (List.nodup_append.mp hdigests).1⟩, add_eq_ok.mpr rfl, ih.mpr h⟩

theorem saysTask_functional : Relator.RightUnique SaysTask := by
  intro item task task' h h'
  obtain ⟨fields, rfl, -, hid, hversion⟩ := h
  obtain ⟨_, hfields, -, hid', hversion'⟩ := h'
  obtain rfl := Json.dict.inj hfields
  have he := Json.string.inj (Option.some.inj (hid.symm.trans hid'))
  have hv := Json.int.inj (Option.some.inj (hversion.symm.trans hversion'))
  exact Prod.ext he hv

theorem saysCredential_functional : Relator.RightUnique SaysCredential := by
  intro raw d d' h h'
  obtain ⟨fields, items, rfl, -, hid, hdigest, hitems, htasks⟩ := h
  obtain ⟨_, items', hfields, -, hid', hdigest', hitems', htasks'⟩ := h'
  obtain rfl := Json.dict.inj hfields
  obtain rfl := Json.list.inj (Option.some.inj (hitems.symm.trans hitems'))
  have he := Json.string.inj (Option.some.inj (hid.symm.trans hid'))
  have hd := Json.string.inj (Option.some.inj (hdigest.symm.trans hdigest'))
  have ht := List.right_unique_forall₂' saysTask_functional htasks htasks'
  obtain ⟨id, tokenSha256, tasks⟩ := d
  obtain ⟨id', tokenSha256', tasks'⟩ := d'
  simp_all

/-- A document says one list of entries. -/
theorem saysCredentials_functional (h : SaysCredentials document ds)
    (h' : SaysCredentials document ds') : ds = ds' := by
  obtain ⟨raws, -, -, hraws, hdeclared⟩ := h
  obtain ⟨raws', -, -, hraws', hdeclared'⟩ := h'
  obtain rfl := Json.list.inj (Option.some.inj (hraws.symm.trans hraws'))
  exact List.right_unique_forall₂' saysCredential_functional hdeclared hdeclared'

/-- The document is accepted when it says well-formed entries, and they are what is kept. -/
theorem CredentialStore.fromDocument_eq_ok : fromDocument sha256 document = .ok store ↔
    ∃ ds, SaysCredentials document ds ∧ (∀ d ∈ ds, d.WellFormed) ∧
      (1 ≤ ds.length ∧ ds.length ≤ maxCredentials) ∧
      store.credentials = ds.map (DeclaredCredential.entry sha256) := by
  have hentries : ∀ raws entries, List.Forall₂ (fun raw entry => parseCredential sha256 raw = .ok entry)
      raws entries ↔ ∃ ds, List.Forall₂ SaysCredential raws ds ∧ (∀ d ∈ ds, d.WellFormed) ∧
        entries = ds.map (DeclaredCredential.entry sha256) := by
    intro raws entries
    simp only [parseCredential_eq_ok, ← and_assoc]
    simp only [forall₂_map_exists, forall₂_and_right]
  constructor
  · intro h
    obtain ⟨_, hversion, h⟩ := bind_eq_ok.mp h
    obtain ⟨raws, hraws, h⟩ := bind_eq_ok.mp h
    obtain ⟨_, hlength, h⟩ := bind_eq_ok.mp h
    rw [ensureConfig_eq_ok, Bool.and_eq_true, decide_eq_true_eq] at hversion
    rw [demandConfig_eq_ok, bind_get_eq_some fun v => asList?_eq_some] at hraws
    obtain ⟨entries, hread, hadd⟩ := foldlM_eq_ok.mp h
    obtain ⟨ds, hdeclared, hwell, rfl⟩ := (hentries raws entries).mp hread
    refine ⟨ds, ⟨raws, keysAre_iff.mp hversion.1, hversion.2, hraws, hdeclared⟩, hwell, ?_,
      foldlM_add.mp hadd⟩
    simpa [ensureConfig_eq_ok, hdeclared.length_eq] using hlength
  · rintro ⟨ds, ⟨raws, hkeys, hversion, hraws, hdeclared⟩, hwell, hlength, hstore⟩
    refine bind_eq_ok.mpr ⟨(), ?_, bind_eq_ok.mpr ⟨raws, ?_, bind_eq_ok.mpr ⟨(), ?_, ?_⟩⟩⟩
    · rw [ensureConfig_eq_ok, Bool.and_eq_true, decide_eq_true_eq]
      exact ⟨keysAre_iff.mpr hkeys, hversion⟩
    · rwa [demandConfig_eq_ok, bind_get_eq_some fun v => asList?_eq_some]
    · simpa [ensureConfig_eq_ok, hdeclared.length_eq] using hlength
    · exact foldlM_eq_ok.mpr ⟨_, (hentries raws _).mpr ⟨ds, hdeclared, hwell, rfl⟩,
        foldlM_add.mpr hstore⟩

/-- The last entry with the digest is the only one. -/
theorem foldl_matched {digest : Str} {entries : List CredentialEntry} {matched : Option CredentialEntry}
    (hdigests : (entries.map CredentialEntry.tokenDigest).Nodup)
    (hmatched : ∀ m ∈ matched, m.tokenDigest = digest ∧ m.tokenDigest ∉
      entries.map CredentialEntry.tokenDigest) :
    entries.foldl (fun matched credential =>
        if digest = credential.tokenDigest then some credential else matched) matched = some entry ↔
      matched = some entry ∨ entry ∈ entries ∧ entry.tokenDigest = digest := by
  induction entries generalizing matched with
  | nil => simp
  | cons e entries ih =>
    rw [List.map_cons, List.nodup_cons] at hdigests
    rw [List.foldl_cons]
    by_cases he : digest = e.tokenDigest
    · have hnone : matched = none := by
        refine Option.eq_none_iff_forall_not_mem.mpr fun m hm => ?_
        obtain ⟨hd, hnot⟩ := hmatched m hm
        exact hnot (by simp [hd, he])
      rw [if_pos he, ih hdigests.2 (by simpa [he] using hdigests.1), hnone]
      constructor
      · rintro (h | ⟨hmem, hd⟩)
        · obtain rfl := Option.some.inj h
          exact .inr ⟨List.mem_cons_self .., he.symm⟩
        · exact .inr ⟨List.mem_cons_of_mem _ hmem, hd⟩
      · rintro (h | ⟨hmem, hd⟩)
        · cases h
        · rcases List.mem_cons.mp hmem with rfl | hmem
          · exact .inl rfl
          · exact (hdigests.1 (List.mem_map.mpr ⟨entry, hmem, hd.trans he⟩)).elim
    · rw [if_neg he, ih hdigests.2]
      · constructor
        · rintro (h | ⟨hmem, hd⟩)
          · exact .inl h
          · exact .inr ⟨List.mem_cons_of_mem _ hmem, hd⟩
        · rintro (h | ⟨hmem, hd⟩)
          · exact .inl h
          · rcases List.mem_cons.mp hmem with rfl | hmem
            · exact (he hd.symm).elim
            · exact .inr ⟨hmem, hd⟩
      · intro m hm
        obtain ⟨hd, hnot⟩ := hmatched m hm
        exact ⟨hd, fun hmem => hnot (List.mem_cons_of_mem _ hmem)⟩

theorem CredentialStore.authenticate_eq_some : store.authenticate sha256 token = some entry ↔
    tokenAccepted token = true ∧ entry ∈ store.credentials ∧ entry.tokenDigest = sha256 token := by
  have hmatch := @foldl_matched entry (sha256 token) store.credentials none store.digests (by simp)
  unfold authenticate
  cases h : tokenAccepted token <;> simp_all

/-- Entries that a file may declare together. -/
structure Registered (ds : List DeclaredCredential) : Prop where
  wellFormed : ∀ d ∈ ds, d.WellFormed
  bounded : 1 ≤ ds.length ∧ ds.length ≤ maxCredentials
  ids : (ds.map DeclaredCredential.id).Nodup
  digests : (ds.map DeclaredCredential.tokenSha256).Nodup

/-- The entries are kept under one hash each, so they are distinct as declared. -/
theorem store_of_registered (hinjective : Function.Injective sha256) :
    (∃ store : CredentialStore, store.credentials = ds.map (DeclaredCredential.entry sha256)) ↔
      (ds.map DeclaredCredential.id).Nodup ∧ (ds.map DeclaredCredential.tokenSha256).Nodup := by
  have hids : ((ds.map (DeclaredCredential.entry sha256)).map (fun c => c.identityHash)).Nodup ↔
      (ds.map DeclaredCredential.id).Nodup := by
    have hmap : (ds.map (DeclaredCredential.entry sha256)).map (fun c => c.identityHash) =
        (ds.map DeclaredCredential.id).map (fun id => sha256 (utf8 id)) := by
      simp [DeclaredCredential.entry, Function.comp_def]
    have hhash : Function.Injective (fun id => sha256 (utf8 id)) := fun _ _ h =>
      utf8_injective (hinjective h)
    rw [hmap, List.nodup_map_iff hhash]
  have hdigests : (ds.map (DeclaredCredential.entry sha256)).map CredentialEntry.tokenDigest =
      ds.map DeclaredCredential.tokenSha256 := by
    simp [DeclaredCredential.entry, Function.comp_def]
  constructor
  · rintro ⟨store, h⟩
    have hi := store.identities
    have hd := store.digests
    rw [h] at hi hd
    exact ⟨hids.mp hi, hdigests ▸ hd⟩
  · rintro ⟨hi, hd⟩
    exact ⟨⟨_, hids.mpr hi, hdigests ▸ hd⟩, rfl⟩

/-- What a store does for the document it was read from: a token is a credential's when its hash was
declared, tokens and identities are one to one, and the order of the entries tells nothing. -/
structure Authenticates (sha256 : Bytes → Str) (document : List (Str × Json))
    (store : CredentialStore) : Prop where
  exact : ∀ ds, SaysCredentials document ds → ∀ token entry,
    store.authenticate sha256 token = some entry ↔ tokenAccepted token = true ∧
      ∃ d ∈ ds, d.tokenSha256 = sha256 token ∧ entry = d.entry sha256
  single : ∀ token token' entry entry', store.authenticate sha256 token = some entry →
    store.authenticate sha256 token' = some entry' → entry.identityHash = entry'.identityHash →
      token = token'
  reordered : ∀ document' ds ds' store', SaysCredentials document ds → ds'.Perm ds →
    SaysCredentials document' ds' → CredentialStore.fromDocument sha256 document' = .ok store' →
      ∀ token, store'.authenticate sha256 token = store.authenticate sha256 token

/-- A token is claimed by the entry that declares its hash. -/
theorem authenticate_declared (hdeclared : SaysCredentials document ds)
    (h : CredentialStore.fromDocument sha256 document = .ok store) :
    store.authenticate sha256 token = some entry ↔ tokenAccepted token = true ∧
      ∃ d ∈ ds, d.tokenSha256 = sha256 token ∧ entry = d.entry sha256 := by
  obtain ⟨ds', hdeclared', -, -, hstore⟩ := CredentialStore.fromDocument_eq_ok.mp h
  obtain rfl := saysCredentials_functional hdeclared hdeclared'
  rw [CredentialStore.authenticate_eq_some, hstore]
  constructor
  · rintro ⟨htoken, hmem, hdigest⟩
    obtain ⟨d, hd, rfl⟩ := List.mem_map.mp hmem
    exact ⟨htoken, d, hd, hdigest, rfl⟩
  · rintro ⟨htoken, d, hd, hdigest, rfl⟩
    exact ⟨htoken, List.mem_map.mpr ⟨d, hd, rfl⟩, hdigest⟩

theorem CredentialStore.authenticate_single (hinjective : Function.Injective sha256)
    {token' : Str} {entry' : CredentialEntry} (h : store.authenticate sha256 token = some entry)
    (h' : store.authenticate sha256 token' = some entry')
    (hidentity : entry.identityHash = entry'.identityHash) : token = token' := by
  obtain ⟨-, hmem, hdigest⟩ := authenticate_eq_some.mp h
  obtain ⟨-, hmem', hdigest'⟩ := authenticate_eq_some.mp h'
  obtain rfl : entry = entry' := List.inj_on_of_nodup_map store.identities hmem hmem' hidentity
  exact hinjective (hdigest.symm.trans hdigest')

/-- A file is accepted exactly when it declares entries that may stand together, in any order of its
entries and their fields; then a token is authenticated exactly as it was declared. -/
theorem credentials_exact (hinjective : Function.Injective sha256) {posix : Bool}
    {recursionLimit : ℕ} {file : Option PrivateFile}
    (hread : readPrivateJson posix recursionLimit "credential" file = .ok document) :
    ((∃ store, CredentialStore.fromFile sha256 posix recursionLimit file = .ok store) ↔
        ∃ ds, SaysCredentials document ds ∧ Registered ds) ∧
      ∀ store, CredentialStore.fromFile sha256 posix recursionLimit file = .ok store →
        Authenticates sha256 document store := by
  have hfile : ∀ store, CredentialStore.fromFile sha256 posix recursionLimit file = .ok store ↔
      CredentialStore.fromDocument sha256 document = .ok store := by
    intro store
    constructor
    · intro h
      obtain ⟨document', hread', h⟩ := bind_eq_ok.mp h
      obtain rfl := Except.ok.inj (hread.symm.trans hread')
      exact h
    · exact fun h => bind_eq_ok.mpr ⟨document, hread, h⟩
  simp only [hfile]
  refine ⟨?_, fun store h => ⟨fun ds hdeclared token entry => authenticate_declared hdeclared h,
    fun _ _ _ _ => store.authenticate_single hinjective, ?_⟩⟩
  · constructor
    · rintro ⟨store, h⟩
      obtain ⟨ds, hdeclared, hwell, hbounded, hstore⟩ := CredentialStore.fromDocument_eq_ok.mp h
      obtain ⟨hids, hdigests⟩ := (store_of_registered hinjective).mp ⟨store, hstore⟩
      exact ⟨ds, hdeclared, hwell, hbounded, hids, hdigests⟩
    · rintro ⟨ds, hdeclared, hds⟩
      obtain ⟨store, hstore⟩ := (store_of_registered hinjective).mpr ⟨hds.ids, hds.digests⟩
      exact ⟨store, CredentialStore.fromDocument_eq_ok.mpr
        ⟨ds, hdeclared, hds.wellFormed, hds.bounded, hstore⟩⟩
  · intro document' ds ds' store' hdeclared hperm hdeclared' h' token
    refine Option.ext fun entry => ?_
    rw [authenticate_declared hdeclared' h', authenticate_declared hdeclared h]
    simp only [hperm.mem_iff]

end Declared

/-! A file of one credential, by the hashes that SHA-256 gives its token and its identity. -/

def sampleToken : Str := str "email-watcher-token-0123456789abcdef"

def sampleTokenSha256 : Str := str "8d1d12de99456e8f382080484ed66884a8d15c4101af17a72a90cad14f8695ea"

def sampleIdentitySha256 : Str :=
  str "e3d43e335d9d11c2e98709be0add069f424b372c0ae5e462c69808e1c8a6681b"

/-- A hash without collisions that agrees with the real one on both. -/
def swappedSha256 : Bytes → Str :=
  (Equiv.swap sampleToken sampleTokenSha256).trans
    (Equiv.swap (str "email-watcher") sampleIdentitySha256)

def sampleCredentialFile : PrivateFile where
  regular := true
  mode := 0o100600
  size := 179
  content := some (str "\x7b\"version\":1,\"credentials\":[\x7b\"id\":\"email-watcher\",\"token_sha256\":\"" ++
    sampleTokenSha256 ++
    str "\",\"tasks\":[\x7b\"id\":\"email.analyze\",\"version\":1\x7d]\x7d]\x7d")

/-- The document of the file. -/
def sampleCredentialDocument : List (Str × Json) :=
  [(str "version", .int 1), (str "credentials", .list [.dict [(str "id", .string (str "email-watcher")),
    (str "token_sha256", .string sampleTokenSha256),
    (str "tasks", .list [.dict [(str "id", .string (str "email.analyze")), (str "version", .int 1)]])]])]

theorem sampleCredentialFile_reads :
    readPrivateJson true 100 "credential" (some sampleCredentialFile) =
      .ok sampleCredentialDocument := by
  decide +kernel

def sampleDeclared : DeclaredCredential :=
  ⟨str "email-watcher", sampleTokenSha256, [(str "email.analyze", 1)]⟩

theorem sampleDeclared_wellFormed : sampleDeclared.WellFormed :=
  ⟨by decide, by decide, by decide, by decide, by decide, by decide, by decide⟩

theorem sampleCredentialDocument_says :
    SaysCredentials sampleCredentialDocument [sampleDeclared] := by
  refine ⟨_, fun k => by simp [sampleCredentialDocument, keys], rfl, rfl, .cons ?_ .nil⟩
  refine ⟨_, _, rfl, fun k => by simp [keys], rfl, rfl, rfl, .cons ?_ .nil⟩
  exact ⟨_, rfl, fun k => by simp [keys], rfl, rfl⟩

/-- The file of the sample is accepted, and authenticates what it declares. -/
theorem credentials_exact_sample : ∃ store,
    CredentialStore.fromFile swappedSha256 true 100 (some sampleCredentialFile) = .ok store ∧
      Authenticates swappedSha256 sampleCredentialDocument store := by
  obtain ⟨hiff, hall⟩ := @credentials_exact swappedSha256 _ (Equiv.injective _) _ _ _
    sampleCredentialFile_reads
  have hregistered : Registered [sampleDeclared] :=
    ⟨by simpa using sampleDeclared_wellFormed, by decide, by simp, by simp⟩
  obtain ⟨store, hstore⟩ := hiff.mpr ⟨_, sampleCredentialDocument_says, hregistered⟩
  exact ⟨store, hstore, hall store hstore⟩

end Gateway
