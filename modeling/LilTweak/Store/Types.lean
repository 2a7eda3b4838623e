import LilTweak.Core.State
import LilTweak.Core.Json

/-!
# Job-store records

The records both store adapters exchange with their callers, the errors they
raise, and the validation every audit event passes before it is stored.
-/

namespace LilTweak.Store

open LilTweak.Lib LilTweak.Core

/-- What a store operation can raise. The `StoreError` subclasses come first;
`policy` is a `StatePolicyError`, `keyError` a missing dict key and `database`
an error of the database driver. -/
inductive StoreFault
  | idempotencyConflict
  | staleRevision
  | staleLease
  | approvalError
  | jobNotFound
  | valueError (message : String)
  | policy (e : StatePolicyError)
  | keyError
  | database
  deriving DecidableEq

/-- The fault is a subclass of `StoreError`. -/
def StoreFault.isStoreError : StoreFault → Bool
  | idempotencyConflict | staleRevision | staleLease | approvalError | jobNotFound => true
  | _ => false

structure SourceSpec where
  sourceId : String
  filename : String
  mediaType : String
  sizeBytes : Int
  objectKey : String
  sha256 : Option String := none
  deriving DecidableEq

structure GitSourceSpec where
  repositoryUrl : String
  commit : String
  deriving DecidableEq

structure JobLease where
  jobId : JobId
  ownerId : OwnerId
  workerId : String
  generation : Nat
  expiresAt : Time
  deriving DecidableEq

structure Job where
  id : JobId
  ownerId : OwnerId
  mode : JobMode
  prompt : String
  state : JobState := .draft
  revision : Nat := 0
  proposalDigest : Option String := none
  evidenceManifest : Option JsonObj := none
  evidenceCreatedAt : Dict String Time := ∅
  summary : String := ""
  sources : List SourceSpec := []
  sourceDigest : Option String := none
  approvalProposal : Option JsonObj := none
  approvalConsumed : Bool := false
  projectContext : Option JsonObj := none
  gitSource : Option GitSourceSpec := none
  createdAt : Time := 0
  updatedAt : Time := 0
  cancelRequested : Bool := false
  leaseOwner : Option String := none
  leaseGeneration : Nat := 0
  leaseExpiresAt : Option Time := none

structure JobEvent where
  jobId : JobId
  sequence : Nat
  kind : String
  data : JsonObj
  createdAt : Time

structure Approval where
  tokenHash : String
  jobId : JobId
  ownerId : OwnerId
  revision : Nat
  proposalDigest : String
  sourceDigest : String
  action : String
  target : String
  policyVersion : String
  resourceProfile : JsonFields
  expiresAt : Time
  consumed : Bool := false
  consumedAt : Option Time := none

/-- The two digests the store takes: SHA-256 of the canonical JSON of a create
request, and SHA-256 of an ASCII token, both in hexadecimal. -/
structure Hashes where
  requestFingerprint :
    JobMode → String → List SourceSpec → Option JsonObj → Option GitSourceSpec → String
  sha256Hex : String → String

/-! ## Audit events -/

/-- `_EMPTY_EVENTS`. -/
def emptyEvents : List String :=
  ["queued", "ingesting", "planning", "executing", "testing", "collecting",
    "awaiting_approval", "rejected", "failed", "timed_out"]

/-- `_CODE_EVENTS`. -/
def codeEvents : List String :=
  ["admission_unavailable", "source_intake_failed", "galor_unavailable", "engineering_failed"]

/-- Membership in `"0123456789abcdef"`. -/
def hexDigit (c : Char) : Bool := "0123456789abcdef".toList.contains c

/-- `_valid_sha256` of a string. -/
def validSha256 (value : String) : Bool :=
  decide (value.length = 64) && value.toList.all hexDigit

/-- The field holds a string that satisfies a predicate. -/
def stringField (value : JsonObj) (name : String) (p : String → Bool) : Bool :=
  match value.get? name with
  | some (.str s) => p s
  | _ => false

/-- `value == {name: text}`. -/
def isSingleton (value : JsonObj) (name text : String) : Bool :=
  value.keysAre [name] && Json.isStr text (value.get? name)

/-- The condition `_validated_event_data` imposes on an event of a kind. -/
def eventDataValid (kind : String) (value : JsonObj) : Bool :=
  if emptyEvents.contains kind then value.entries.isEmpty
  else if codeEvents.contains kind then isSingleton value "code" kind
  else if kind = "cancel_requested" then
    value.keysAre ["revision"] && Json.isInt (value.get? "revision")
  else if kind = "cancelled" then
    value.entries.isEmpty || (value.keysAre ["revision"] && Json.isInt (value.get? "revision")) ||
      isSingleton value "code" "cancelled"
  else if kind = "applying" then isSingleton value "action" "export_patch"
  else if kind = "completed" then
    value.entries.isEmpty || isSingleton value "action" "export_patch"
  else if kind = "approval_required" then
    Json.isStr "export_patch" (value.get? "action") &&
      value.keysAre ["action", "proposal_digest", "source_digest", "revision"] &&
      Json.isInt (value.get? "revision") &&
      stringField value "proposal_digest" validSha256 && stringField value "source_digest" validSha256
  else if kind = "approved" then
    value.keysAre ["revision", "proposal_digest", "source_digest", "expires_at"] &&
      Json.isInt (value.get? "revision") && Json.isNumber (value.get? "expires_at") &&
      stringField value "proposal_digest" (fun s => s.length = 64) &&
      stringField value "source_digest" (fun s => s.length = 64)
  else false

/-- `_validated_event_data`. -/
def validatedEventData (kind : String) (data : Option JsonObj) : Except StoreFault JsonObj :=
  if eventDataValid kind (data.getD ∅) then .ok (data.getD ∅)
  else .error (.valueError "invalid audit event")

theorem validatedEventData_ok {kind : String} {data : Option JsonObj} {v : JsonObj}
    (h : validatedEventData kind data = .ok v) : v = data.getD ∅ ∧ eventDataValid kind v = true := by
  unfold validatedEventData at h
  split at h
  · obtain rfl := Except.ok.inj h
    exact ⟨rfl, ‹_›⟩
  · cases h

end LilTweak.Store
