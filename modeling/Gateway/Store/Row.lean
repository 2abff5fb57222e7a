import Gateway.Foundation.KeyedTable
import Gateway.Contracts.Request

/-! The rows of `inference_requests`, what a read returns of them, and what the store raises. -/
namespace Gateway

/-- `RequestState`, with the column's own check that there is no other value. -/
inductive RequestState where
  | reserved
  | inProgress
  | completed
  | failed
  | ambiguous
  | expired
  | acknowledged
deriving DecidableEq

/-- One row; the columns of both indexes and all timestamps as their texts. -/
structure Row where
  requestId : Str
  credentialHash : Str
  requestDigest : Str
  taskId : Str
  taskVersion : ℤ
  expiresAt : Expiry
  state : RequestState
  attemptId : Option Str
  outputMediaType : Option Str
  outputNonce : Option Bytes
  outputCiphertext : Option Bytes
  producingDeploymentId : Option Str
  producingTaskPolicyVersion : Option ℤ
  errorCode : Option Str
  errorRetryable : Option Bool
  errorRetryAfterSeconds : Option ℤ
  acknowledgementDisposition : Option Str
  createdAt : Str
  updatedAt : Str
  acknowledgedAt : Option Str

abbrev Table := KeyedTable Row.requestId

/-- What `_select` returns of a row. -/
structure RequestRecord where
  requestId : Str
  credentialHash : Str
  requestDigest : Str
  taskId : Str
  taskVersion : ℤ
  expiresAt : Datetime
  state : RequestState
  attemptId : Option Str
  outputMediaType : Option Str
  outputNonce : Option Bytes
  outputCiphertext : Option Bytes
  producingDeploymentId : Option Str
  producingTaskPolicyVersion : Option ℤ
  errorCode : Option Str
  errorRetryable : Option Bool
  errorRetryAfterSeconds : Option ℤ
  acknowledgementDisposition : Option Str

def Row.record (row : Row) : RequestRecord where
  requestId := row.requestId
  credentialHash := row.credentialHash
  requestDigest := row.requestDigest
  taskId := row.taskId
  taskVersion := row.taskVersion
  expiresAt := row.expiresAt.time
  state := row.state
  attemptId := row.attemptId
  outputMediaType := row.outputMediaType
  outputNonce := row.outputNonce
  outputCiphertext := row.outputCiphertext
  producingDeploymentId := row.producingDeploymentId
  producingTaskPolicyVersion := row.producingTaskPolicyVersion
  errorCode := row.errorCode
  errorRetryable := row.errorRetryable
  errorRetryAfterSeconds := row.errorRetryAfterSeconds
  acknowledgementDisposition := row.acknowledgementDisposition

/-- What a store operation raises: `StoreError` and its subclasses, or what they do not cover. -/
inductive Raised where
  | storeError (message : String)
  | requestForbidden
  | requestIdentityConflict
  | requestCapacityLimited
  | requestExpired
  | requestUnknown
  | requestNotTerminal (message : String)
  | acknowledgementConflict
  | overflowError
  | unicodeError
  | integrityError
  | operationalError
deriving DecidableEq

namespace Raised

/-- `except StoreError` takes the class and its subclasses. -/
def isStoreError : Raised → Bool
  | overflowError => false
  | unicodeError => false
  | integrityError => false
  | operationalError => false
  | _ => true

/-- The text this program gives the exception. -/
def message : Raised → Option String
  | storeError message => some message
  | requestForbidden => some "request belongs to another credential"
  | requestIdentityConflict => some "request identity was reused with different content"
  | requestCapacityLimited => some "durable admission capacity is full"
  | requestExpired => some "request has expired"
  | requestUnknown => some "request is unknown"
  | requestNotTerminal message => some message
  | acknowledgementConflict => some "acknowledgement disposition conflicts"
  | _ => none

end Raised

/-- `AESGCM` under the store's key: nonce, text, associated data. -/
structure Cipher where
  encrypt : Bytes → Bytes → Bytes → Bytes
  decrypt : Bytes → Bytes → Bytes → Option Bytes

/-- `bytes.decode("utf-8")`, which takes no surrogate. -/
def decodeStrict (b : Bytes) : Option Str := (decodeUtf8 b).filter (fun s => Scalars s)

theorem decodeStrict_utf8 {s : Str} (h : Scalars s) : decodeStrict (utf8 s) = some s := by
  rw [decodeStrict, decodeUtf8_utf8 (fun c hc => (h c hc).1)]
  simp [h]

/-- `str.encode("ascii")`. -/
def encodeAscii (s : Str) : Option Bytes := if ∀ c ∈ s, c < 128 then some s else none

namespace RequestRecord

/-- `ResultCipher._aad`. -/
def aad (record : RequestRecord) : Option Bytes :=
  encodeAscii (record.requestId ++ [10] ++ record.credentialHash ++ [10] ++ record.requestDigest)

/-- `ResultCipher.encrypt`, for the nonce that was drawn. -/
def encrypt (cipher : Cipher) (nonce : Bytes) (record : RequestRecord) (plaintext : Str) :
    Except Raised (Bytes × Bytes) :=
  match encodeUtf8 plaintext, record.aad with
  | .ok text, some aad => .ok (nonce, cipher.encrypt nonce text aad)
  | _, _ => .error .unicodeError

/-- `ResultCipher.decrypt`. -/
def decrypt (cipher : Cipher) (record : RequestRecord) : Except Raised Str :=
  match record.outputNonce, record.outputCiphertext with
  | some nonce, some ciphertext =>
    match (record.aad.bind (cipher.decrypt nonce ciphertext)).bind decodeStrict with
    | some plaintext => .ok plaintext
    | none => .error (.storeError "encrypted output failed integrity verification")
  | _, _ => .error (.storeError "completed result has no encrypted output")

end RequestRecord

end Gateway
