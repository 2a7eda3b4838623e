import LilTweak.Store.Memory

/-!
# The job operations of the in-memory store

Creation, transitions, cancellation, decisions, exports, events and approvals,
with the checks in the order the source makes them. `StoreOp` names one call
with its arguments and `exec` runs it.
-/

namespace LilTweak.Store

open LilTweak.Lib LilTweak.Core

namespace MemoryJobStore

/-- `create_job`; `uuid` is what `uuid.uuid4()` returns. -/
def createJob (s : MemoryJobStore) (H : Hashes) (c : CreateCall) (uuid : JobId) (clk : Clock) :
    Outcome Job :=
  if c.ownerId = "" ∨ c.idempotencyKey = "" ∨ blank c.prompt then
    (.error (.valueError "owner, idempotency key, and prompt are required"), s)
  else match s.idempotency.get? (c.ownerId, c.idempotencyKey) with
    | some (jobId, previous) =>
      if previous ≠ c.fingerprint H then (.error .idempotencyConflict, s)
      else match s.jobs.get? jobId with
        | some job => (.ok job, s)
        | none => (.error .keyError, s)
    | none =>
      (.ok (c.newJob uuid (clk 0)), { s with
        jobs := s.jobs.set uuid (c.newJob uuid (clk 0))
        idempotency := s.idempotency.set (c.ownerId, c.idempotencyKey) (uuid, c.fingerprint H)
        events := s.events.set uuid [] })

/-- The job, when it exists and belongs to the owner. -/
def ownedJob (s : MemoryJobStore) (jobId : JobId) (ownerId : OwnerId) : Option Job :=
  (s.jobs.get? jobId).filter fun job => job.ownerId = ownerId

/-- `get_job`. -/
def getJob (s : MemoryJobStore) (jobId : JobId) (ownerId : OwnerId) : Outcome (Option Job) :=
  (.ok (s.ownedJob jobId ownerId), s)

/-- The lease check of `update_job`: a lease must be the current unexpired claim,
and without a lease no unexpired claim may exist. -/
def leaseAdmits (s : MemoryJobStore) (u : JobUpdate) (t : Time) : Bool :=
  match u.lease with
  | some l =>
    match s.claims.get? u.jobId with
    | some c =>
      l.jobId == u.jobId && l.ownerId == u.ownerId && l.workerId == c.workerId &&
        l.generation == c.generation && decide (t < c.expiresAt)
    | none => false
  | none => !s.leased u.jobId t

/-- `update_job`. -/
def updateJob (s : MemoryJobStore) (u : JobUpdate) (clk : Clock) : Outcome Job :=
  match s.ownedJob u.jobId u.ownerId with
  | none => (.error .jobNotFound, s)
  | some current =>
    if (current.revision : Int) ≠ u.expectedRevision then (.error .staleRevision, s)
    else if s.leaseAdmits u (clk 0) = false then (.error .staleLease, s)
    else match transition current.state u.state u.evidence with
      | .error e => (.error (.policy e), s)
      | .ok target =>
        (.ok (u.apply current target (clk 0)),
          { s with jobs := s.jobs.set u.jobId (u.apply current target (clk 0)) })

/-- `transition_job`. -/
def transitionJob (s : MemoryJobStore) (u : JobUpdate) (eventKind : String)
    (eventData : Option JsonObj) (clk : Clock) : Outcome Job :=
  match validatedEventData eventKind eventData with
  | .error e => (.error e, s)
  | .ok validated =>
    (s.updateJob u clk).andThen fun moved s =>
      (s.appendEventLocked u.jobId eventKind validated (clk 1)).andThen fun _ s => (.ok moved, s)

/-- `request_cancel`. -/
def requestCancel (s : MemoryJobStore) (jobId : JobId) (ownerId : OwnerId) (expectedRevision : Int)
    (clk : Clock) : Outcome Job :=
  match s.ownedJob jobId ownerId with
  | none => (.error .jobNotFound, s)
  | some current =>
    if (current.revision : Int) ≠ expectedRevision then (.error .staleRevision, s)
    else match transition current.state .cancelled with
      | .error e => (.error (.policy e), s)
      | .ok _ =>
        (.ok (cancelled current (clk 0)),
          { s with jobs := s.jobs.set jobId (cancelled current (clk 0)) })

/-- `{"revision": n}`. -/
def revisionData (revision : Nat) : JsonObj := JsonObj.ofFields [("revision", .int revision)]

/-- `request_cancel_idempotent`. -/
def requestCancelIdempotent (s : MemoryJobStore) (c : CancelCall) (clk : Clock) : Outcome Job :=
  match s.decisions.get? (c.ownerId, c.idempotencyKey) with
  | some existing =>
    if existing ≠ (c.requestHash, c.jobId) then (.error .idempotencyConflict, s)
    else match s.jobs.get? c.jobId with
      | some job => (.ok job, s)
      | none => (.error .keyError, s)
  | none =>
    match s.ownedJob c.jobId c.ownerId with
    | none => (.error .jobNotFound, s)
    | some current =>
      if (current.revision : Int) ≠ c.expectedRevision then (.error .staleRevision, s)
      else match transition current.state .cancelled with
        | .error e => (.error (.policy e), s)
        | .ok _ =>
          match validatedEventData (cancelEvent current.state)
              (some (revisionData (current.revision + 1))) with
          | .error e => (.error e, s)
          | .ok eventData =>
            (appendEventLocked { s with
                jobs := s.jobs.set c.jobId (cancelled current (clk 0))
                decisions := s.decisions.set (c.ownerId, c.idempotencyKey)
                  (c.requestHash, c.jobId) }
              c.jobId (cancelEvent current.state) eventData (clk 1)).andThen fun _ s =>
                (.ok (cancelled current (clk 0)), s)

/-- The job after an approval, which also clears `approval_consumed`. -/
def approved (current : Job) (t : Time) : Job :=
  { advance current .applying t with approvalConsumed := false }

/-- The `reject` branch of `decide_job_idempotent`. -/
def rejectJob (s : MemoryJobStore) (c : DecideCall) (current : Job) (t : Time) (clk : Clock) :
    Outcome Job :=
  match transition current.state .rejected with
  | .error e => (.error (.policy e), s)
  | .ok target =>
    match validatedEventData "rejected" (some ∅) with
    | .error e => (.error e, s)
    | .ok eventData =>
      (appendEventLocked { s with
          jobs := s.jobs.set c.jobId (advance current target t)
          decisions := s.decisions.set (c.ownerId, c.idempotencyKey) (c.requestHash, c.jobId) }
        c.jobId "rejected" eventData (clk 1)).andThen fun _ s =>
          (.ok (advance current target t), s)

/-- The `approve` branch of `decide_job_idempotent`. -/
def approveJob (s : MemoryJobStore) (c : DecideCall) (current : Job) (t : Time) (clk : Clock) :
    Outcome Job :=
  match c.approval current t with
  | none => (.error .approvalError, s)
  | some approval =>
    match transition current.state .applying c.evidence with
    | .error e => (.error (.policy e), s)
    | .ok _ =>
      if s.approvalIndex.contains (c.jobId, current.revision, c.proposalDigest) then
        (.error .approvalError, s)
      else match validatedEventData "approved" (some (approvedData approval)) with
        | .error e => (.error e, s)
        | .ok approvedEvent =>
          match validatedEventData "applying" (some exportAction) with
          | .error e => (.error e, s)
          | .ok applyingEvent =>
            (appendEventLocked { s with
                jobs := s.jobs.set c.jobId (approved current t)
                approvals := s.approvals.set approval.tokenHash approval
                approvalIndex := s.approvalIndex.set
                  (c.jobId, current.revision, c.proposalDigest) approval.tokenHash
                decisions := s.decisions.set (c.ownerId, c.idempotencyKey)
                  (c.requestHash, c.jobId) }
              c.jobId "approved" approvedEvent (clk 1)).andThen fun _ s =>
              (s.appendEventLocked c.jobId "applying" applyingEvent (clk 2)).andThen fun _ s =>
                (.ok (approved current t), s)

/-- `decide_job_idempotent`. -/
def decideJobIdempotent (s : MemoryJobStore) (c : DecideCall) (clk : Clock) : Outcome Job :=
  match s.decisions.get? (c.ownerId, c.idempotencyKey) with
  | some existing =>
    if existing ≠ (c.requestHash, c.jobId) then (.error .idempotencyConflict, s)
    else match s.jobs.get? c.jobId with
      | some job => (.ok job, s)
      | none => (.error .keyError, s)
  | none =>
    match s.ownedJob c.jobId c.ownerId with
    | none => (.error .jobNotFound, s)
    | some current =>
      if current.state ≠ .awaitingApproval ∨ (current.revision : Int) ≠ c.expectedRevision ∨
          current.proposalDigest ≠ some c.proposalDigest then (.error .staleRevision, s)
      else if c.decision = .reject then s.rejectJob c current (c.now.getD (clk 0)) clk
      else s.approveJob c current (c.now.getD (clk 0)) clk

/-- `consume_export_idempotent`. -/
def consumeExportIdempotent (s : MemoryJobStore) (H : Hashes) (c : ExportCall) (clk : Clock) :
    Outcome Job :=
  if canonicalApprovalToken c.approvalToken = false then (.error .approvalError, s)
  else match s.decisions.get? (c.ownerId, c.storedKey) with
    | some existing =>
      if existing ≠ (c.requestHash, c.jobId) then (.error .idempotencyConflict, s)
      else match s.approvals.get? (H.sha256Hex c.approvalToken), s.jobs.get? c.jobId with
        | some approval, some current =>
          if approval.expiresAt ≤ c.now.getD (clk 0) ∨ current.ownerId ≠ c.ownerId ∨
              current.state ≠ .completed ∨ current.approvalConsumed = false then
            (.error .approvalError, s)
          else (.ok current, s)
        | _, _ => (.error .approvalError, s)
    | none =>
      match s.approvals.get? (H.sha256Hex c.approvalToken), s.jobs.get? c.jobId with
      | some approval, some current =>
        if approvalCovers approval c (c.now.getD (clk 0)) = false ∨ exportable current c = false then
          (.error .approvalError, s)
        else match transition current.state .completed with
          | .error e => (.error (.policy e), s)
          | .ok _ =>
            -- The event is validated only after the three writes below.
            let t := c.now.getD (clk 0)
            let written := { s with
              approvals := s.approvals.set (H.sha256Hex c.approvalToken) (consumedAt approval t)
              jobs := s.jobs.set c.jobId (exported current t)
              decisions := s.decisions.set (c.ownerId, c.storedKey) (c.requestHash, c.jobId) }
            match validatedEventData "completed" (some exportAction) with
            | .error e => (.error e, written)
            | .ok eventData =>
              (written.appendEventLocked c.jobId "completed" eventData (clk 1)).andThen fun _ s =>
                (.ok (exported current t), s)
      | _, _ => (.error .approvalError, s)

/-- `append_event`. -/
def appendEvent (s : MemoryJobStore) (jobId : JobId) (ownerId : OwnerId) (kind : String)
    (data : Option JsonObj) (clk : Clock) : Outcome JobEvent :=
  if kind = "" then (.error (.valueError "event kind is required"), s)
  else match validatedEventData kind data with
    | .error e => (.error e, s)
    | .ok eventData =>
      match s.ownedJob jobId ownerId with
      | none => (.error .jobNotFound, s)
      | some _ => s.appendEventLocked jobId kind eventData (clk 0)

/-- `list_events`. -/
def listEvents (s : MemoryJobStore) (jobId : JobId) (ownerId : OwnerId) : Outcome (List JobEvent) :=
  match s.ownedJob jobId ownerId with
  | none => (.error .jobNotFound, s)
  | some _ =>
    match s.events.get? jobId with
    | none => (.error .keyError, s)
    | some events => (.ok events, s)

/-- `create_approval`. -/
def createApproval (s : MemoryJobStore) (c : ApprovalCall) (clk : Clock) : Outcome Approval :=
  match s.ownedJob c.jobId c.ownerId with
  | none => (.error .approvalError, s)
  | some job =>
    if (job.revision : Int) ≠ c.revision ∨ job.proposalDigest ≠ some c.proposalDigest ∨
        job.sourceDigest ≠ some c.sourceDigest ∨ c.expiresAt ≤ c.now.getD (clk 0) ∨
        validSha256 c.approvalTokenHash = false then (.error .approvalError, s)
    else if s.approvalIndex.contains (c.jobId, job.revision, c.proposalDigest) then
      (.error .approvalError, s)
    else
      (.ok (c.approval job), { s with
        approvals := s.approvals.set c.approvalTokenHash (c.approval job)
        approvalIndex := s.approvalIndex.set (c.jobId, job.revision, c.proposalDigest)
          c.approvalTokenHash })

/-- `consume_approval`. -/
def consumeApproval (s : MemoryJobStore) (H : Hashes) (c : ConsumeCall) (clk : Clock) :
    Outcome Approval :=
  match s.approvals.get? (H.sha256Hex c.token), s.ownedJob c.jobId c.ownerId with
  | some approval, some job =>
    if approval.consumed = true ∨ approval.ownerId ≠ c.ownerId ∨ approval.jobId ≠ c.jobId ∨
        (approval.revision : Int) ≠ c.revision ∨ approval.proposalDigest ≠ c.proposalDigest ∨
        approval.sourceDigest ≠ c.sourceDigest ∨ approval.policyVersion ≠ c.policyVersion ∨
        Json.typeEqual (.obj approval.resourceProfile) (.obj c.resourceProfile) = false ∨
        approval.expiresAt ≤ c.now.getD (clk 0) ∨ (job.revision : Int) ≠ c.revision ∨
        job.proposalDigest ≠ some c.proposalDigest ∨ job.sourceDigest ≠ some c.sourceDigest then
      (.error .approvalError, s)
    else
      (.ok (consumedAt approval (c.now.getD (clk 0))), { s with
        approvals := s.approvals.set (H.sha256Hex c.token)
          (consumedAt approval (c.now.getD (clk 0))) })
  | _, _ => (.error .approvalError, s)

/-- `get_decision`. -/
def getDecision (s : MemoryJobStore) (ownerId : OwnerId) (idempotencyKey requestHash : String) :
    Outcome (Option Job) :=
  match s.decisions.get? (ownerId, idempotencyKey) with
  | none => (.ok none, s)
  | some (storedHash, jobId) =>
    if storedHash ≠ requestHash then (.error .idempotencyConflict, s)
    else match s.jobs.get? jobId with
      | some job => (.ok (some job), s)
      | none => (.error .keyError, s)

/-- `record_decision`. -/
def recordDecision (s : MemoryJobStore) (ownerId : OwnerId) (idempotencyKey requestHash : String)
    (jobId : JobId) : Outcome Job :=
  match s.ownedJob jobId ownerId with
  | none => (.error .jobNotFound, s)
  | some job =>
    let written := { s with
      decisions := s.decisions.set (ownerId, idempotencyKey) (requestHash, jobId) }
    match s.decisions.get? (ownerId, idempotencyKey) with
    | some existing =>
      if existing ≠ (requestHash, jobId) then (.error .idempotencyConflict, s)
      else (.ok job, written)
    | none => (.ok job, written)

end MemoryJobStore

/-- One call of the store's interface with its arguments. -/
inductive StoreOp
  | consumeNonce (keyId nonce : String)
  | claimJob (jobId : JobId) (ownerId : OwnerId) (workerId : String) (leaseSeconds : Int)
      (now : Option Time)
  | renewClaim (lease : JobLease) (leaseSeconds : Int) (now : Option Time)
  | releaseClaim (lease : JobLease)
  | listSchedulableJobs (now : Option Time) (limit : Int)
  | reconcileActiveJobs (now : Option Time) (limit : Int)
  | createJob (call : CreateCall) (uuid : JobId)
  | getJob (jobId : JobId) (ownerId : OwnerId)
  | updateJob (update : JobUpdate)
  | transitionJob (update : JobUpdate) (eventKind : String) (eventData : Option JsonObj)
  | requestCancel (jobId : JobId) (ownerId : OwnerId) (expectedRevision : Int)
  | requestCancelIdempotent (call : CancelCall)
  | decideJobIdempotent (call : DecideCall)
  | consumeExportIdempotent (call : ExportCall)
  | appendEvent (jobId : JobId) (ownerId : OwnerId) (kind : String) (data : Option JsonObj)
  | listEvents (jobId : JobId) (ownerId : OwnerId)
  | createApproval (call : ApprovalCall)
  | consumeApproval (call : ConsumeCall)
  | getDecision (ownerId : OwnerId) (idempotencyKey requestHash : String)
  | recordDecision (ownerId : OwnerId) (idempotencyKey requestHash : String) (jobId : JobId)

/-- What a call answers. -/
inductive Reply
  | unit
  | bool (b : Bool)
  | job (j : Job)
  | jobOption (j : Option Job)
  | jobs (l : List Job)
  | lease (l : JobLease)
  | leaseOption (l : Option JobLease)
  | event (e : JobEvent)
  | events (l : List JobEvent)
  | approval (a : Approval)

/-- An outcome with its answer wrapped as a `Reply`. -/
def Outcome.reply {α : Type} (x : Outcome α) (f : α → Reply) : Outcome Reply := (x.1.map f, x.2)

/-- Run one call. -/
def exec (H : Hashes) (s : MemoryJobStore) (op : StoreOp) (clk : Clock) : Outcome Reply :=
  match op with
  | .consumeNonce keyId nonce => (s.consumeNonce keyId nonce clk).reply .bool
  | .claimJob jobId ownerId workerId leaseSeconds now =>
    (s.claimJob jobId ownerId workerId leaseSeconds now clk).reply .leaseOption
  | .renewClaim lease leaseSeconds now => (s.renewClaim lease leaseSeconds now clk).reply .lease
  | .releaseClaim lease => (s.releaseClaim lease).reply fun _ => .unit
  | .listSchedulableJobs now limit => (s.listSchedulableJobs now limit clk).reply .jobs
  | .reconcileActiveJobs now limit => (s.reconcileActiveJobs now limit clk).reply .jobs
  | .createJob call uuid => (s.createJob H call uuid clk).reply .job
  | .getJob jobId ownerId => (s.getJob jobId ownerId).reply .jobOption
  | .updateJob update => (s.updateJob update clk).reply .job
  | .transitionJob update kind data => (s.transitionJob update kind data clk).reply .job
  | .requestCancel jobId ownerId revision =>
    (s.requestCancel jobId ownerId revision clk).reply .job
  | .requestCancelIdempotent call => (s.requestCancelIdempotent call clk).reply .job
  | .decideJobIdempotent call => (s.decideJobIdempotent call clk).reply .job
  | .consumeExportIdempotent call => (s.consumeExportIdempotent H call clk).reply .job
  | .appendEvent jobId ownerId kind data => (s.appendEvent jobId ownerId kind data clk).reply .event
  | .listEvents jobId ownerId => (s.listEvents jobId ownerId).reply .events
  | .createApproval call => (s.createApproval call clk).reply .approval
  | .consumeApproval call => (s.consumeApproval H call clk).reply .approval
  | .getDecision ownerId key hash => (s.getDecision ownerId key hash).reply .jobOption
  | .recordDecision ownerId key hash jobId => (s.recordDecision ownerId key hash jobId).reply .job

end LilTweak.Store
