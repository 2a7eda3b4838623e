import LilTweak.Store.Types
import Mathlib.Data.List.Sort

/-!
# The in-memory job store

`MemoryJobStore` as nine dicts, and every operation as a function from the store
to its answer and the store it leaves. An operation that raises returns the
fault together with whatever it had already written, so that atomicity is a
theorem about these functions and not a feature of the embedding. Each call runs
under the store's lock. `clk k` is the k-th reading of the store's clock during
the call.
-/

namespace LilTweak.Store

open LilTweak.Lib LilTweak.Core

structure MemoryJobStore where
  nonces : Dict (String × String) Time := ∅
  jobs : Dict JobId Job := ∅
  idempotency : Dict (OwnerId × String) (JobId × String) := ∅
  events : Dict JobId (List JobEvent) := ∅
  approvals : Dict String Approval := ∅
  approvalIndex : Dict (JobId × Nat × String) String := ∅
  decisions : Dict (OwnerId × String) (String × JobId) := ∅
  claims : Dict JobId JobLease := ∅
  leaseGenerations : Dict JobId Nat := ∅

/-- The readings of the clock during one call, in order. -/
abbrev Clock := Nat → Time

/-- What a call answers or raises, and the store it leaves. -/
abbrev Outcome (α : Type) := Except StoreFault α × MemoryJobStore

/-- Continue after a call that did not raise. -/
def Outcome.andThen {α β : Type} (x : Outcome α) (f : α → MemoryJobStore → Outcome β) : Outcome β :=
  match x with
  | (.ok a, s) => f a s
  | (.error e, s) => (.error e, s)

namespace MemoryJobStore

/-- `consume_nonce`. -/
def consumeNonce (s : MemoryJobStore) (keyId nonce : String) (clk : Clock) : Outcome Bool :=
  if keyId = "" ∨ nonce = "" then (.ok false, s)
  else if (s.nonces.filter fun _ t => decide (clk 0 - 600 < t)).contains (keyId, nonce) then
    (.ok false, { s with nonces := s.nonces.filter fun _ t => decide (clk 0 - 600 < t) })
  else
    (.ok true, { s with
      nonces := (s.nonces.filter fun _ t => decide (clk 0 - 600 < t)).set (keyId, nonce) (clk 1) })

/-- The states `claim_job` never leases: the terminal ones and `awaiting_approval`. -/
def unclaimable (state : JobState) : Bool := state.terminal || state == .awaitingApproval

/-- A claim on the job that has not expired. -/
def leased (s : MemoryJobStore) (jobId : JobId) (t : Time) : Bool :=
  match s.claims.get? jobId with
  | some c => decide (t < c.expiresAt)
  | none => false

/-- `claim_job`. -/
def claimJob (s : MemoryJobStore) (jobId : JobId) (ownerId : OwnerId) (workerId : String)
    (leaseSeconds : Int) (now : Option Time) (clk : Clock) : Outcome (Option JobLease) :=
  if workerId = "" ∨ leaseSeconds ≤ 0 then (.error (.valueError "invalid lease"), s)
  else match s.jobs.get? jobId with
    | none => (.ok none, s)
    | some job =>
      if job.ownerId ≠ ownerId ∨ unclaimable job.state then (.ok none, s)
      else if s.leased jobId (now.getD (clk 0)) then (.ok none, s)
      else
        let claimed : JobLease :=
          { jobId, ownerId, workerId
            generation := (s.leaseGenerations.get? jobId).getD 0 + 1
            expiresAt := now.getD (clk 0) + leaseSeconds }
        (.ok (some claimed), { s with
          leaseGenerations := s.leaseGenerations.set jobId claimed.generation
          claims := s.claims.set jobId claimed })

/-- The stored claim carries the lease's owner, worker and generation. -/
def sameLease (c l : JobLease) : Bool :=
  c.ownerId == l.ownerId && c.workerId == l.workerId && c.generation == l.generation

/-- `renew_claim`. -/
def renewClaim (s : MemoryJobStore) (lease : JobLease) (leaseSeconds : Int) (now : Option Time)
    (clk : Clock) : Outcome JobLease :=
  if leaseSeconds ≤ 0 then (.error (.valueError "invalid lease"), s)
  else match s.claims.get? lease.jobId with
    | none => (.error .staleLease, s)
    | some current =>
      if sameLease current lease = false ∨ current.expiresAt ≤ now.getD (clk 0) then
        (.error .staleLease, s)
      else
        let renewed := { current with expiresAt := now.getD (clk 0) + leaseSeconds }
        (.ok renewed, { s with claims := s.claims.set lease.jobId renewed })

/-- `release_claim`. -/
def releaseClaim (s : MemoryJobStore) (lease : JobLease) : Outcome Unit :=
  match s.claims.get? lease.jobId with
  | none => (.ok (), s)
  | some current =>
    if sameLease current lease then (.ok (), { s with claims := s.claims.erase lease.jobId })
    else (.ok (), s)

/-- The sort key `(created_at, id)`. -/
def jobBefore (a b : Job) : Prop :=
  a.createdAt < b.createdAt ∨ (a.createdAt = b.createdAt ∧ a.id ≤ b.id)

instance : DecidableRel jobBefore := fun _ _ => inferInstanceAs (Decidable (_ ∨ _))

/-- `sorted(self._jobs.values(), key=…)`. -/
def sortedJobs (s : MemoryJobStore) : List Job := s.jobs.values.insertionSort jobBefore

/-- `list_schedulable_jobs`. -/
def listSchedulableJobs (s : MemoryJobStore) (now : Option Time) (limit : Int) (clk : Clock) :
    Outcome (List Job) :=
  if ¬(1 ≤ limit ∧ limit ≤ 1000) then (.error (.valueError "invalid scheduler limit"), s)
  else
    (.ok ((s.sortedJobs.filter fun job =>
      job.state == .queued && !s.leased job.id (now.getD (clk 0))).take limit.toNat), s)

/-- `_append_event_locked`. -/
def appendEventLocked (s : MemoryJobStore) (jobId : JobId) (kind : String) (data : JsonObj)
    (at_ : Time) : Outcome JobEvent :=
  match s.events.get? jobId with
  | none => (.error .keyError, s)
  | some events =>
    let event : JobEvent := { jobId, sequence := events.length + 1, kind, data, createdAt := at_ }
    (.ok event, { s with events := s.events.set jobId (events ++ [event]) })

/-- The states `reconcile_active_jobs` recovers. -/
def active (state : JobState) : Bool :=
  [JobState.ingesting, .planning, .executing, .testing, .collecting, .applying].contains state

/-- The first recorded approval of the job's own proposal. -/
def jobApproval (s : MemoryJobStore) (job : Job) : Option Approval :=
  s.approvals.values.find? fun a =>
    a.jobId == job.id && a.ownerId == job.ownerId && some a.proposalDigest == job.proposalDigest

/-- Where reconciliation moves an active job whose lease is gone; an `applying`
job with a live approval stays. -/
def reconcileTarget (s : MemoryJobStore) (job : Job) (t : Time) : Option JobState :=
  if job.state = .applying then
    match s.jobApproval job with
    | some a =>
      if a.consumed then some .completed
      else if t < a.expiresAt then none else some .timedOut
    | none => some .timedOut
  else some .queued

/-- The data of the event reconciliation appends. -/
def reconcileData (target : JobState) : JsonObj :=
  if target = .completed then JsonObj.ofFields [("action", .str "export_patch")] else ∅

/-- The job one revision later, in another state. -/
def advance (job : Job) (target : JobState) (t : Time) : Job :=
  { job with state := target, revision := job.revision + 1, updatedAt := t }

/-- The loop of `reconcile_active_jobs` over the remaining jobs. -/
def reconcileLoop (limit : Int) (t : Time) (clk : Clock) :
    List Job → List Job → Nat → MemoryJobStore → Outcome (List Job)
  | [], recovered, _, s => (.ok recovered, s)
  | job :: rest, recovered, n, s =>
    if limit ≤ recovered.length ∨ active job.state = false then
      reconcileLoop limit t clk rest recovered n s
    else if s.leased job.id t then reconcileLoop limit t clk rest recovered n s
    else match s.reconcileTarget job t with
      | none => reconcileLoop limit t clk rest recovered n s
      | some target =>
        (appendEventLocked { s with
            jobs := s.jobs.set job.id (advance job target t)
            claims := s.claims.erase job.id }
          job.id target.value (reconcileData target) (clk n)).andThen fun _ s =>
            reconcileLoop limit t clk rest
              (if target = .queued then recovered ++ [advance job target t] else recovered)
              (n + 1) s

/-- `reconcile_active_jobs`. -/
def reconcileActiveJobs (s : MemoryJobStore) (now : Option Time) (limit : Int) (clk : Clock) :
    Outcome (List Job) :=
  reconcileLoop limit (now.getD (clk 0)) clk s.sortedJobs [] 1 s

end MemoryJobStore

/-- The arguments of `create_job`. -/
structure CreateCall where
  ownerId : OwnerId
  idempotencyKey : String
  mode : JobMode
  prompt : String
  sources : List SourceSpec := []
  projectContext : Option JsonObj := none
  gitSource : Option GitSourceSpec := none

/-- `_request_fingerprint`. -/
def CreateCall.fingerprint (H : Hashes) (c : CreateCall) : String :=
  H.requestFingerprint c.mode c.prompt c.sources c.projectContext c.gitSource

/-- The job `create_job` stores under a new id. -/
def CreateCall.newJob (c : CreateCall) (uuid : JobId) (t : Time) : Job where
  id := uuid
  ownerId := c.ownerId
  mode := c.mode
  prompt := c.prompt
  createdAt := t
  updatedAt := t
  sources := c.sources
  projectContext := c.projectContext
  gitSource := c.gitSource

/-- `not text.strip()`. -/
def blank (text : String) : Bool := text.toList.all fun c =>
  c.isWhitespace || (0x1c ≤ c.toNat && c.toNat ≤ 0x1f) || c.toNat == 0x0b || c.toNat == 0x0c ||
    c.toNat == 0x85 || c.toNat == 0xa0 || c.toNat == 0x1680 ||
    (0x2000 ≤ c.toNat && c.toNat ≤ 0x200a) || c.toNat == 0x2028 || c.toNat == 0x2029 ||
    c.toNat == 0x202f || c.toNat == 0x205f || c.toNat == 0x3000

/-- The arguments of `update_job`. -/
structure JobUpdate where
  jobId : JobId
  ownerId : OwnerId
  expectedRevision : Int
  state : JobState
  proposalDigest : Option String := none
  evidenceManifest : Option JsonObj := none
  approvedDigest : Option String := none
  approvalConsumed : Bool := false
  summary : Option String := none
  sourceDigest : Option String := none
  approvalProposal : Option JsonObj := none
  lease : Option JobLease := none

/-- What `update_job` hands to `transition`. -/
def JobUpdate.evidence (u : JobUpdate) : TransitionEvidence where
  proposalDigest := u.proposalDigest
  hasManifest := match u.evidenceManifest with
    | some m => !m.entries.isEmpty
    | none => false
  approvedDigest := u.approvedDigest
  approvalConsumed := u.approvalConsumed

/-- `new or old` for optional strings. -/
def orElse (new old : Option String) : Option String := if truthy new then new else old

/-- `setdefault(name, now)` for every name of the manifest. -/
def stampEvidence (created : Dict String Time) (manifest : Option JsonObj) (t : Time) :
    Dict String Time :=
  match manifest with
  | none => created
  | some m => m.keys.foldl (fun d name => if d.contains name then d else d.set name t) created

/-- The job `update_job` stores. -/
def JobUpdate.apply (u : JobUpdate) (current : Job) (target : JobState) (t : Time) : Job :=
  { current with
    state := target
    revision := current.revision + 1
    proposalDigest := orElse u.proposalDigest current.proposalDigest
    evidenceManifest := u.evidenceManifest.or current.evidenceManifest
    evidenceCreatedAt := stampEvidence current.evidenceCreatedAt u.evidenceManifest t
    updatedAt := t
    summary := u.summary.getD current.summary
    sourceDigest := orElse u.sourceDigest current.sourceDigest
    approvalProposal := u.approvalProposal.or current.approvalProposal
    approvalConsumed := current.approvalConsumed || u.approvalConsumed }

/-- The arguments of `request_cancel_idempotent`. -/
structure CancelCall where
  jobId : JobId
  ownerId : OwnerId
  expectedRevision : Int
  idempotencyKey : String
  requestHash : String

/-- The state a cancellation leaves the job in. -/
def cancelTarget (state : JobState) : JobState :=
  if state = .awaitingApproval ∨ state = .applying then .cancelled else state

/-- The job a cancellation stores. -/
def cancelled (current : Job) (t : Time) : Job :=
  { current with
    state := cancelTarget current.state
    cancelRequested := true
    revision := current.revision + 1
    updatedAt := t }

/-- The event kind of a cancellation. -/
def cancelEvent (state : JobState) : String :=
  if cancelTarget state = .cancelled then "cancelled" else "cancel_requested"

/-- `decision` of a decision request. -/
inductive Decision
  | approve
  | reject
  | other
  deriving DecidableEq

/-- The arguments of `decide_job_idempotent`. -/
structure DecideCall where
  jobId : JobId
  ownerId : OwnerId
  expectedRevision : Int
  idempotencyKey : String
  requestHash : String
  decision : Decision
  proposalDigest : String
  approvalProposal : Option JsonObj := none
  approvalTokenHash : Option String := none
  expiresAt : Option Time := none
  now : Option Time := none

/-- The approval an `approve` decision records, when its terms match the job. -/
def DecideCall.approval (c : DecideCall) (current : Job) (t : Time) : Option Approval :=
  match c.decision, c.approvalProposal, current.approvalProposal, current.sourceDigest,
      c.approvalTokenHash, c.expiresAt with
  | .approve, some proposal, some held, some sourceDigest, some tokenHash, some expiresAt =>
    match proposal.get? "policyVersion", proposal.get? "resourceProfile" with
    | some (.str policyVersion), some (.obj resourceProfile) =>
      if jsonTypeEqual proposal held ∧ Json.isStr "export_patch" (proposal.get? "action") ∧
          Json.isStr "owner_download" (proposal.get? "target") ∧
          Json.isStr c.proposalDigest (proposal.get? "proposalDigest") ∧
          Json.isStr sourceDigest (proposal.get? "sourceDigest") ∧
          validSha256 tokenHash ∧ t < expiresAt then
        some { tokenHash, jobId := c.jobId, ownerId := c.ownerId, revision := current.revision
               proposalDigest := c.proposalDigest, sourceDigest, action := "export_patch"
               target := "owner_download", policyVersion, resourceProfile, expiresAt }
      else none
    | _, _ => none
  | _, _, _, _, _, _ => none

/-- What `decide_job_idempotent` hands to `transition` for an approval. -/
def DecideCall.evidence (c : DecideCall) : TransitionEvidence where
  proposalDigest := some c.proposalDigest
  approvedDigest := some c.proposalDigest
  approvalRecorded := true

/-- The data of the `approved` event. -/
def approvedData (a : Approval) : JsonObj :=
  JsonObj.ofFields
    [("revision", .int a.revision), ("proposal_digest", .str a.proposalDigest),
      ("source_digest", .str a.sourceDigest), ("expires_at", .float a.expiresAt)]

/-- `{"action": "export_patch"}`. -/
def exportAction : JsonObj := JsonObj.ofFields [("action", .str "export_patch")]

/-- The arguments of `consume_export_idempotent`. -/
structure ExportCall where
  jobId : JobId
  ownerId : OwnerId
  expectedRevision : Int
  idempotencyKey : String
  requestHash : String
  approvalToken : String
  proposalDigest : String
  sourceDigest : String
  policyVersion : String
  resourceProfile : JsonFields
  evidenceName : String
  evidenceSha256 : String
  evidenceSizeBytes : Int
  now : Option Time := none

/-- The key a consumed export is recorded under. -/
def ExportCall.storedKey (c : ExportCall) : String := "export:" ++ c.idempotencyKey

/-- A character of the URL-safe Base64 alphabet. -/
def base64UrlChar (c : Char) : Bool :=
  ('A' ≤ c && c ≤ 'Z') || ('a' ≤ c && c ≤ 'z') || ('0' ≤ c && c ≤ '9') || c == '-' || c == '_'

/-- `_CANONICAL_APPROVAL_TOKEN.fullmatch`. -/
def canonicalApprovalToken (token : String) : Bool :=
  decide (token.length = 43) && (token.toList.take 42).all base64UrlChar &&
    (token.toList.drop 42).all fun c => "AEIMQUYcgkosw048".toList.contains c

/-- The manifest entry of the exported file carries its digest and size. -/
def evidenceMatches (current : Job) (c : ExportCall) : Bool :=
  match (current.evidenceManifest.getD ∅).get? c.evidenceName with
  | some (.obj descriptor) =>
    Json.isStr c.evidenceSha256 (Entries.lookup "sha256" descriptor) &&
      Json.eqInt c.evidenceSizeBytes (Entries.lookup "bytes" descriptor)
  | _ => false

/-- The approval is unconsumed, unexpired and was recorded for exactly this export. -/
def approvalCovers (a : Approval) (c : ExportCall) (t : Time) : Bool :=
  !a.consumed && a.ownerId == c.ownerId && a.jobId == c.jobId &&
    a.proposalDigest == c.proposalDigest && a.sourceDigest == c.sourceDigest &&
    a.action == "export_patch" && a.target == "owner_download" &&
    a.policyVersion == c.policyVersion &&
    Json.typeEqual (.obj a.resourceProfile) (.obj c.resourceProfile) && decide (t < a.expiresAt)

/-- The job is `applying` this proposal at the expected revision. -/
def exportable (current : Job) (c : ExportCall) : Bool :=
  current.ownerId == c.ownerId && current.state == .applying &&
    decide ((current.revision : Int) = c.expectedRevision) &&
    current.proposalDigest == some c.proposalDigest &&
    current.sourceDigest == some c.sourceDigest && !current.approvalConsumed &&
    c.evidenceName == "changes.patch" && evidenceMatches current c

/-- The job a consumed export stores. -/
def exported (current : Job) (t : Time) : Job :=
  { current with
    state := .completed
    revision := current.revision + 1
    approvalConsumed := true
    updatedAt := t }

/-- The arguments of `create_approval` past the job id. -/
structure ApprovalCall where
  jobId : JobId
  ownerId : OwnerId
  revision : Int
  proposalDigest : String
  sourceDigest : String
  action : String
  target : String
  policyVersion : String
  resourceProfile : JsonFields
  approvalTokenHash : String
  expiresAt : Time
  now : Option Time := none

/-- The approval `create_approval` records for a job. -/
def ApprovalCall.approval (c : ApprovalCall) (job : Job) : Approval where
  tokenHash := c.approvalTokenHash
  jobId := c.jobId
  ownerId := c.ownerId
  revision := job.revision
  proposalDigest := c.proposalDigest
  sourceDigest := c.sourceDigest
  action := c.action
  target := c.target
  policyVersion := c.policyVersion
  resourceProfile := c.resourceProfile
  expiresAt := c.expiresAt

/-- The approval once its token is spent. -/
def consumedAt (a : Approval) (t : Time) : Approval :=
  { a with consumed := true, consumedAt := some t }

/-- The arguments of `consume_approval`. -/
structure ConsumeCall where
  token : String
  ownerId : OwnerId
  jobId : JobId
  revision : Int
  proposalDigest : String
  sourceDigest : String
  policyVersion : String
  resourceProfile : JsonFields
  now : Option Time := none

end LilTweak.Store
