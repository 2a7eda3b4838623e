import LilTweak.Lib.Utf16
import Mathlib

/-!
# Engineering jobs in the Worker

Job states, the moves the Worker lets the core make, approval proposals and evidence
descriptors. Strings are ECMAScript strings. A number is a rational; what is not a safe
integer is refused wherever the Worker asks for one.
-/

namespace LilTweak.Worker

open LilTweak.Lib

/-- `JOB_STATES`. -/
inductive JobState
  | draft | uploading | queued | ingesting | planning | executing | testing | collecting
  | awaitingApproval | applying | completed | rejected | cancelled | failed | timedOut
  deriving DecidableEq, Repr

/-- The text of a state. -/
def JobState.text : JobState → String
  | .draft => "draft"
  | .uploading => "uploading"
  | .queued => "queued"
  | .ingesting => "ingesting"
  | .planning => "planning"
  | .executing => "executing"
  | .testing => "testing"
  | .collecting => "collecting"
  | .awaitingApproval => "awaiting_approval"
  | .applying => "applying"
  | .completed => "completed"
  | .rejected => "rejected"
  | .cancelled => "cancelled"
  | .failed => "failed"
  | .timedOut => "timed_out"

/-- `TRANSITIONS`. -/
def JobState.transitions : JobState → List JobState
  | .draft => [.uploading, .queued, .cancelled]
  | .uploading => [.queued, .cancelled, .failed]
  | .queued => [.ingesting, .cancelled, .failed]
  | .ingesting => [.planning, .cancelled, .failed, .timedOut]
  | .planning => [.executing, .cancelled, .failed, .timedOut]
  | .executing => [.testing, .cancelled, .failed, .timedOut]
  | .testing => [.collecting, .cancelled, .failed, .timedOut]
  | .collecting => [.awaitingApproval, .completed, .cancelled, .failed, .timedOut]
  | .awaitingApproval => [.applying, .rejected, .cancelled, .failed]
  | .applying => [.completed, .cancelled, .failed, .timedOut]
  | .completed | .rejected | .cancelled | .failed | .timedOut => []

/-- `transitionAllowed`. -/
def transitionAllowed (source target : JobState) : Bool := target ∈ source.transitions

/-- `CORE_PROGRESS`. -/
def coreProgress : List JobState :=
  [.queued, .ingesting, .planning, .executing, .testing, .collecting, .completed]

/-- `TERMINAL_STATES`. -/
def terminalStates : List JobState := [.completed, .rejected, .cancelled, .failed, .timedOut]

def JobState.terminal (s : JobState) : Bool := s ∈ terminalStates

/-- `coreSnapshotTransitionAllowed`. -/
def coreSnapshotTransitionAllowed (source target : JobState) (authorizedDecision : Bool) : Bool :=
  if source.terminal then false
  else if source = target then true
  else
    let progressed := match coreProgress.idxOf? source with
      | none => false
      | some i =>
        (match coreProgress.idxOf? target with
          | some j => decide (i < j)
          | none => false) ||
        (decide (i < coreProgress.length - 1) &&
          decide (target ∈ [JobState.awaitingApproval, .cancelled, .failed, .timedOut]))
    if progressed then true
    else if source = .awaitingApproval then
      decide (target ∈ [JobState.cancelled, .failed, .timedOut]) ||
        (authorizedDecision && decide (target ∈ [JobState.applying, .completed, .rejected]))
    else if source = .applying then
      decide (target ∈ [JobState.completed, .cancelled, .failed, .timedOut])
    else false

inductive Decision
  | approve | reject
  deriving DecidableEq, Repr

structure DecisionIntent where
  decision : Decision
  proposalDigest : JsString
  deriving DecidableEq

/-- `decisionAuthorizesCoreState`. -/
def decisionAuthorizesCoreState (intent : Option DecisionIntent) (currentProposalDigest : Option JsString)
    (next : JobState) : Bool :=
  match intent, currentProposalDigest with
  | some intent, some digest =>
    if digest = [] ∨ intent.proposalDigest ≠ digest then false
    else match intent.decision with
      | .approve => next = .applying || next = .completed
      | .reject => next = .rejected
  | _, _ => false

/-! ## Approval proposals -/

/-- A value of a resource profile. -/
inductive Scalar
  | str (s : JsString)
  | num (x : ℚ)
  | bool (b : Bool)
  deriving DecidableEq

/-- `ApprovalProposal`, less the action and the target, which are constants. The profile holds
its entries in insertion order. -/
structure ApprovalProposal where
  policyVersion : JsString
  resourceProfile : List (JsString × Scalar)
  sourceDigest : JsString
  proposalDigest : JsString
  expiresAt : JsString
  deriving DecidableEq

/-- What the Worker's runtime does with dates and numbers: `Date.parse` in milliseconds, `none`
where it is not a number, `toISOString`, and the text of a number. -/
structure Runtime where
  dateParse : JsString → Option Int
  toISOString : Int → JsString
  numberText : ℚ → JsString

/-- `POLICY_VERSION`. -/
def validPolicyVersion (s : JsString) : Bool :=
  decide (1 ≤ s.length ∧ s.length ≤ 64) && s.all fun u =>
    u.between 'A' 'Z' || u.between 'a' 'z' || u.between '0' '9' || u.is '.' || u.is '_' || u.is '-'

/-- `RESOURCE_KEY`. -/
def validResourceKey : JsString → Bool
  | [] => false
  | u :: rest => (u.between 'A' 'Z' || u.between 'a' 'z') && decide (rest.length ≤ 63) && rest.all fun u =>
    u.between 'A' 'Z' || u.between 'a' 'z' || u.between '0' '9' || u.is '.' || u.is '_' || u.is '-'

/-- How many code units `JSON.stringify` writes for one code unit of a string that is not part of
a surrogate pair, or for one half of a pair. -/
def escapedLength (paired : Bool) (u : CodeUnit) : Nat :=
  if u.is '"' || u.is '\\' then 2
  else if u.val = 8 ∨ u.val = 9 ∨ u.val = 10 ∨ u.val = 12 ∨ u.val = 13 then 2
  else if u.val < 32 then 6
  else if 0xD800 ≤ u.val ∧ u.val ≤ 0xDFFF ∧ ¬paired then 6
  else 1

/-- `JSON.stringify(s).length`. -/
def stringifiedLength : JsString → Nat
  | [] => 2
  | u :: v :: rest =>
    if 0xD800 ≤ u.val ∧ u.val < 0xDC00 ∧ 0xDC00 ≤ v.val ∧ v.val < 0xE000 then
      2 + stringifiedLength rest
    else escapedLength false u + stringifiedLength (v :: rest)
  | [u] => escapedLength false u + 2

/-- `JSON.stringify(item).length`. -/
def Scalar.stringifiedLength (r : Runtime) : Scalar → Nat
  | .str s => Worker.stringifiedLength s
  | .num x => (r.numberText x).length
  | .bool true => 4
  | .bool false => 5

/-- `JSON.stringify(resourceProfile).length`. -/
def profileLength (r : Runtime) (profile : List (JsString × Scalar)) : Nat :=
  1 + profile.foldl (fun n e => n + stringifiedLength e.1 + 1 + e.2.stringifiedLength r + 1) 0

/-- `parseApprovalProposal` accepts the proposal; it then returns it as it is. -/
def ApprovalProposal.admits (r : Runtime) (p : ApprovalProposal) : Bool :=
  validPolicyVersion p.policyVersion && JsString.hexOf 64 p.sourceDigest &&
    JsString.hexOf 64 p.proposalDigest && decide (p.expiresAt.length ≤ 64) &&
    (r.dateParse p.expiresAt).isSome &&
    decide (1 ≤ p.resourceProfile.length ∧ p.resourceProfile.length ≤ 16) &&
    (p.resourceProfile.all fun e => validResourceKey e.1 && match e.2 with
      | .str s => decide (s.length ≤ 128)
      | _ => true) &&
    decide (profileLength r p.resourceProfile ≤ 2048)

/-- The order the entries of a profile are compared in. Which linear order of the keys
`localeCompare` is does not matter to the comparison of two profiles. -/
def entryBefore (a b : JsString × Scalar) : Prop := a.1 ≤ b.1

instance : DecidableRel entryBefore := fun a b => inferInstanceAs (Decidable (a.1 ≤ b.1))

/-- `approvalProposalFingerprint`, before it is written as JSON. -/
def ApprovalProposal.fingerprint (p : ApprovalProposal) : ApprovalProposal :=
  { p with resourceProfile := p.resourceProfile.insertionSort entryBefore }

/-- `approvalProposalsEqual`. -/
def approvalProposalsEqual (left right : Option ApprovalProposal) : Bool :=
  left.map ApprovalProposal.fingerprint = right.map ApprovalProposal.fingerprint

/-! ## Evidence -/

/-- `safeSourceFilename`, `none` where it throws. -/
def safeSourceFilename (value : JsString) : Option JsString :=
  let filename := value.trim
  if filename = [] ∨ filename = JsString.ofText "." ∨ filename = JsString.ofText ".." ∨
      filename.length > 255 ∨ filename.any (fun u => u.is '/' || u.is '\\') ∨
      filename.any (fun u => u.val < 32 || u.val == 127) then none
  else some filename

/-- The media type in lower case, `none` where it is not valid; empty means octets. -/
def sourceMediaType (value : JsString) : Option JsString :=
  let lowered := value.trim.map CodeUnit.lower
  let mediaType := if lowered = [] then JsString.ofText "application/octet-stream" else lowered
  let part (s : JsString) : Bool := s ≠ [] && s.all fun u =>
    u.between 'a' 'z' || u.between '0' '9' || u.is '.' || u.is '+' || u.is '-'
  if mediaType.length ≤ 120 ∧ part (mediaType.takeWhile fun u => !u.is '/') ∧
      mediaType.any (·.is '/') ∧ part ((mediaType.dropWhile fun u => !u.is '/').drop 1) then
    some mediaType
  else none

/-- The categories of evidence. -/
inductive EvidenceCategory
  | plan | patch | tests | manifest | summary | log
  deriving DecidableEq, Repr

/-- `EngineeringEvidence`, less the job it belongs to. -/
structure Evidence where
  id : JsString
  category : EvidenceCategory
  filename : JsString
  mediaType : JsString
  sizeBytes : Int
  sha256 : JsString
  createdAt : JsString
  deriving DecidableEq

/-- `MAX_ENGINEERING_EVIDENCE_BYTES`. -/
def maxEngineeringEvidenceBytes : Int := 2 * 1024 * 1024

/-- `Number.MAX_SAFE_INTEGER`. -/
def maxSafeInteger : Int := 9007199254740991

/-- `Number.isSafeInteger`. -/
def isSafeInteger (i : Int) : Bool := decide (-maxSafeInteger ≤ i ∧ i ≤ maxSafeInteger)

/-- `/^evidence:[0-9a-f]{32}$/`. -/
def validEvidenceId (id : JsString) : Bool :=
  id.startsWith "evidence:" && JsString.hexOf 32 (id.drop 9)

end LilTweak.Worker
