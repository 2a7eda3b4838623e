import LilTweak.Store.Operations

/-!
# The PostgreSQL job store

`PostgresJobStore` as its tables, one call a serialisable transaction: an
operation returns the job and the tables it commits, or it raises and nothing is
written. Keys and checks of the schema are enforced where a row is inserted;
what a column holds of a value is the database's, so it is a parameter. A row of
`lil_tweak_jobs` is a `Job` without the stamps of its evidence, which
`_fetch_job` reads from `lil_tweak_evidence`.
-/

namespace LilTweak.Store

open LilTweak.Lib LilTweak.Core
open MemoryJobStore (advance approved revisionData)

/-- What a column of a type holds of a value written to it or compared with it;
`none` when the database refuses the value. -/
structure Columns where
  uuid : JobId → Option JobId
  text : String → Option String
  char64 : String → Option String
  jsonb : JsonObj → Option JsonObj
  jsonbFields : JsonFields → Option JsonFields
  jsonbSources : List SourceSpec → Option (List SourceSpec)
  jsonbGitSource : GitSourceSpec → Option GitSourceSpec
  timestamptz : Time → Option Time

/-- A row of `lil_tweak_approvals`, less its key. -/
structure ApprovalRow where
  jobId : JobId
  ownerId : OwnerId
  revision : Nat
  proposalDigest : String
  sourceDigest : String
  action : String
  target : String
  policyVersion : String
  resourceProfile : JsonFields
  expiresAt : Time
  consumedAt : Option Time := none

/-- A row of `lil_tweak_sources`, less its key. -/
structure SourceRow where
  ownerId : OwnerId
  kind : String
  filename : String
  mediaType : String
  objectKey : Option String := none
  sourceDigest : Option String := none
  frozenReference : Option String := none
  sizeBytes : Int

/-- A row of `lil_tweak_evidence`, less its key. -/
structure EvidenceRow where
  ownerId : OwnerId
  objectKey : String
  sha256 : String
  sizeBytes : Int
  createdAt : Time

/-- A row of `lil_tweak_events`. -/
structure EventRow where
  jobId : JobId
  sequence : Nat
  ownerId : OwnerId
  kind : String
  redactedData : JsonObj

/-- The tables. -/
structure PostgresJobStore where
  jobs : Dict JobId Job := ∅
  idempotency : Dict (OwnerId × String) (String × JobId) := ∅
  decisions : Dict (OwnerId × String) (String × JobId) := ∅
  approvals : Dict String ApprovalRow := ∅
  sources : Dict (JobId × String) SourceRow := ∅
  evidence : Dict (JobId × String) EvidenceRow := ∅
  events : List EventRow := []

/-- The value a column holds, or the error of the driver. -/
def column {α : Type} : Option α → Except StoreFault α
  | some a => .ok a
  | none => .error .database

/-- A nullable column. -/
def nullable {α : Type} (col : α → Option α) : Option α → Except StoreFault (Option α)
  | none => .ok none
  | some a => (column (col a)).map some

/-- `COALESCE(new, old)`. -/
def coalesce {α : Type} (new old : Option α) : Option α := new.or old

namespace PostgresJobStore

variable (cols : Columns) (H : Hashes) (T : PostgresJobStore)

/-! ## Statements -/

/-- The stamps of the job's evidence. -/
def evidenceCreatedAt (jobId : JobId) (ownerId : OwnerId) : Dict String Time :=
  (T.evidence.entries.filter fun e => e.1.1 = jobId ∧ e.2.ownerId = ownerId).foldl
    (fun created e => created.set e.1.2 e.2.createdAt) ∅

/-- `_fetch_job`. -/
def fetchJob (jobId : JobId) (ownerId : OwnerId) : Except StoreFault Job := do
  let id ← column (cols.uuid jobId)
  let owner ← column (cols.text ownerId)
  match T.jobs.get? id with
  | none => .error .jobNotFound
  | some row =>
    if row.ownerId = owner then
      .ok { row with evidenceCreatedAt := T.evidenceCreatedAt id owner }
    else .error .jobNotFound

/-- `UPDATE lil_tweak_jobs SET … WHERE id=%s`, on the row that was just read. -/
def updateRow (id : JobId) (f : Job → Job) : PostgresJobStore :=
  match T.jobs.get? id with
  | some row => { T with jobs := T.jobs.set id (f row) }
  | none => T

/-- `_insert_event_cursor`. -/
def insertEvent (jobId : JobId) (ownerId : OwnerId) (kind : String) (data : JsonObj) :
    Except StoreFault PostgresJobStore := do
  let redactedData ← column (cols.jsonb data)
  let sequence := ((T.events.filter fun e => e.jobId = jobId).map EventRow.sequence).foldl max 0 + 1
  .ok { T with events := T.events ++ [{ jobId, sequence, ownerId, kind, redactedData }] }

/-- `_ensure_event_cursor`. -/
def ensureEvent (jobId : JobId) (ownerId : OwnerId) (kind : String) (data : JsonObj) :
    Except StoreFault PostgresJobStore := do
  let validated ← validatedEventData kind (some data)
  let redactedData ← column (cols.jsonb validated)
  if T.events.any fun e => e.jobId == jobId && e.ownerId == ownerId && e.kind == kind &&
      jsonTypeEqual e.redactedData redactedData then .ok T
  else T.insertEvent cols jobId ownerId kind validated

/-- `INSERT INTO lil_tweak_decisions`. -/
def insertDecision (owner key requestHash : String) (jobId : JobId) :
    Except StoreFault PostgresJobStore := do
  let hash ← column (cols.char64 requestHash)
  if T.decisions.contains (owner, key) then .error .database
  else .ok { T with decisions := T.decisions.set (owner, key) (hash, jobId) }

/-- The decision is recorded unless a record of it was found. -/
def recordDecision (existing : Bool) (owner key requestHash : String) (jobId : JobId) :
    Except StoreFault PostgresJobStore :=
  if existing then .ok T else T.insertDecision cols owner key requestHash jobId

/-! ## `create_job` -/

/-- `size_bytes bigint CHECK (size_bytes >= 0)`. -/
def sizeAdmitted (size : Int) : Bool := decide (0 ≤ size ∧ size < 2 ^ 63)

/-- `INSERT INTO lil_tweak_sources`, whose `(job_id, source_id)` is unique. -/
def insertSource (jobId : JobId) (sourceId : String) (row : SourceRow) :
    Except StoreFault PostgresJobStore :=
  if T.sources.contains (jobId, sourceId) ∨ sizeAdmitted row.sizeBytes = false then .error .database
  else .ok { T with sources := T.sources.set (jobId, sourceId) row }

/-- The loop over the sources. -/
def insertSources (jobId : JobId) (owner : OwnerId) :
    List SourceSpec → PostgresJobStore → Except StoreFault PostgresJobStore
  | [], T => .ok T
  | source :: rest, T => do
    let sourceId ← column (cols.text source.sourceId)
    let filename ← column (cols.text source.filename)
    let mediaType ← column (cols.text source.mediaType)
    let objectKey ← column (cols.text source.objectKey)
    let sourceDigest ← nullable cols.char64 source.sha256
    let T ← T.insertSource jobId sourceId
      { ownerId := owner, kind := "upload", filename, mediaType, objectKey := some objectKey
        sourceDigest, sizeBytes := source.sizeBytes }
    insertSources jobId owner rest T

/-- The row of the Git source. -/
def insertGitSource (jobId : JobId) (owner : OwnerId) :
    Option GitSourceSpec → PostgresJobStore → Except StoreFault PostgresJobStore
  | none, T => .ok T
  | some git, T => do
    let commit ← column (cols.text git.commit)
    T.insertSource jobId "git"
      { ownerId := owner, kind := "git", filename := "repository", mediaType := "application/x-git"
        frozenReference := some commit, sizeBytes := 0 }

/-- `INSERT INTO lil_tweak_jobs` and `INSERT INTO lil_tweak_idempotency`. -/
def insertJob (c : CreateCall) (owner key : String) (uuid : JobId) (t : Time) :
    Except StoreFault PostgresJobStore := do
  let prompt ← column (cols.text c.prompt)
  let sources ← column (cols.jsonbSources c.sources)
  let projectContext ← nullable cols.jsonb c.projectContext
  let gitSource ← nullable cols.jsonbGitSource c.gitSource
  let hash ← column (cols.char64 (c.fingerprint H))
  if T.jobs.contains uuid then .error .database
  else .ok { T with
    jobs := T.jobs.set uuid
      { id := uuid, ownerId := owner, mode := c.mode, prompt, sources, projectContext, gitSource
        createdAt := t, updatedAt := t }
    idempotency := T.idempotency.set (owner, key) (hash, uuid) }

/-- `create_job`; `uuid` is what `uuid.uuid4()` returns. -/
def createJob (c : CreateCall) (uuid : JobId) (clk : Clock) :
    Except StoreFault (Job × PostgresJobStore) := do
  let owner ← column (cols.text c.ownerId)
  let key ← column (cols.text c.idempotencyKey)
  match T.idempotency.get? (owner, key) with
  | some (hash, jobId) =>
    if hash ≠ c.fingerprint H then .error .idempotencyConflict
    else do
      let job ← T.fetchJob cols jobId c.ownerId
      .ok (job, T)
  | none => do
    let T ← T.insertJob cols H c owner key uuid (clk 0)
    let T ← insertSources cols uuid owner c.sources T
    let T ← insertGitSource cols uuid owner c.gitSource T
    let job ← T.fetchJob cols uuid c.ownerId
    .ok (job, T)

/-! ## `transition_job` -/

/-- The lease check, on the columns of the row. -/
def leaseAdmits (current : Job) (u : JobUpdate) (t : Time) : Bool :=
  match u.lease, current.leaseOwner, current.leaseExpiresAt with
  | some l, some worker, some expiresAt =>
    l.jobId == u.jobId && l.ownerId == u.ownerId && l.workerId == worker &&
      l.generation == current.leaseGeneration && decide (t < expiresAt)
  | some _, _, _ => false
  | none, some _, some expiresAt => decide (expiresAt ≤ t)
  | none, _, _ => true

/-- What the `UPDATE` asks of the lease columns at the database's `now()`. -/
def leaseHolds (current : Job) (u : JobUpdate) (t : Time) : Bool :=
  match u.lease with
  | some l => current.leaseOwner == some l.workerId && current.leaseGeneration == l.generation &&
      (current.leaseExpiresAt.any fun expiresAt => decide (t < expiresAt))
  | none => current.leaseOwner.isNone ||
      (current.leaseExpiresAt.any fun expiresAt => decide (expiresAt ≤ t))

/-- The columns of the `UPDATE`. -/
structure Update where
  proposalDigest : Option String
  evidenceManifest : Option JsonObj
  summary : Option String
  sourceDigest : Option String
  approvalProposal : Option JsonObj

/-- The parameters of the `UPDATE` as its columns hold them. -/
def updateColumns (u : JobUpdate) : Except StoreFault Update := do
  let proposalDigest ← nullable cols.char64 u.proposalDigest
  let evidenceManifest ← nullable cols.jsonb u.evidenceManifest
  let summary ← nullable cols.text u.summary
  let sourceDigest ← nullable cols.char64 u.sourceDigest
  let approvalProposal ← nullable cols.jsonb u.approvalProposal
  .ok { proposalDigest, evidenceManifest, summary, sourceDigest, approvalProposal }

/-- The `SET` clause. -/
def Update.apply (set : Update) (approvalConsumed : Bool) (target : JobState) (t : Time)
    (row : Job) : Job :=
  { row with
    state := target
    revision := row.revision + 1
    proposalDigest := coalesce set.proposalDigest row.proposalDigest
    evidenceManifest := coalesce set.evidenceManifest row.evidenceManifest
    summary := set.summary.getD row.summary
    sourceDigest := coalesce set.sourceDigest row.sourceDigest
    approvalProposal := coalesce set.approvalProposal row.approvalProposal
    approvalConsumed := row.approvalConsumed || approvalConsumed
    updatedAt := t }

/-- The digest, size and object key of a manifest entry that gets a row. -/
def evidenceEntry (ownerId : OwnerId) (jobId : JobId) (name : String) :
    Json → Option (String × Json × String)
  | .obj descriptor =>
    match Entries.lookup "sha256" descriptor, Entries.lookup "bytes" descriptor with
    | some (.str digest), some size =>
      if Json.isInt (some size) then
        some (digest, size, match Entries.lookup "objectKey" descriptor with
          | some (.str key) => key
          | _ => H.sha256Hex ownerId ++ "/" ++ jobId ++ "/" ++ name)
      else none
    | _, _ => none
  | _ => none

/-- `INSERT INTO lil_tweak_evidence … ON CONFLICT (job_id,name) DO UPDATE`. An object
key belongs to one row; a boolean is no `bigint`. -/
def insertEvidence (jobId : JobId) (owner : OwnerId) (name digest : String) (size : Json)
    (objectKey : String) (t : Time) : Except StoreFault PostgresJobStore := do
  let name ← column (cols.text name)
  let sha256 ← column (cols.char64 digest)
  let objectKey ← column (cols.text objectKey)
  match size with
  | .int size =>
    if sizeAdmitted size = false ∨ (T.evidence.entries.any fun e =>
        e.1 ≠ (jobId, name) && e.2.objectKey == objectKey) then .error .database
    else
      let row : EvidenceRow :=
        { ownerId := owner, objectKey, sha256, sizeBytes := size
          createdAt := ((T.evidence.get? (jobId, name)).map EvidenceRow.createdAt).getD t }
      .ok { T with evidence := T.evidence.set (jobId, name) row }
  | _ => .error .database

/-- The loop over the manifest. -/
def insertManifest (id jobId : JobId) (ownerId : OwnerId) (t : Time) :
    List (String × Json) → PostgresJobStore → Except StoreFault PostgresJobStore
  | [], T => .ok T
  | (name, descriptor) :: rest, T =>
    match evidenceEntry H ownerId jobId name descriptor with
    | none => insertManifest id jobId ownerId t rest T
    | some (digest, size, objectKey) => do
      let T ← T.insertEvidence cols id ownerId name digest size objectKey t
      insertManifest id jobId ownerId t rest T

def entryBefore (a b : String × Json) : Prop := a.1 ≤ b.1

instance : DecidableRel entryBefore := fun a b => inferInstanceAs (Decidable (a.1 ≤ b.1))

/-- `sorted(evidence_manifest.items())`. -/
def manifestEntries (manifest : Option JsonObj) : List (String × Json) :=
  match manifest with
  | some m => m.entries.insertionSort entryBefore
  | none => []

/-- `transition_job`. -/
def transitionJob (u : JobUpdate) (eventKind : String) (eventData : Option JsonObj) (clk : Clock) :
    Except StoreFault (Job × PostgresJobStore) := do
  let validated ← validatedEventData eventKind eventData
  let current ← T.fetchJob cols u.jobId u.ownerId
  if (current.revision : Int) ≠ u.expectedRevision then .error .staleRevision
  else if leaseAdmits current u (clk 0) = false then .error .staleLease
  else match transition current.state u.state u.evidence with
    | .error e => .error (.policy e)
    | .ok target => do
      let set ← updateColumns cols u
      if leaseHolds current u (clk 1) = false then
        .error (if u.lease.isNone then .staleRevision else .staleLease)
      else do
        let T := T.updateRow current.id (set.apply u.approvalConsumed target (clk 1))
        let T ← insertManifest cols H current.id u.jobId u.ownerId (clk 1)
          (manifestEntries u.evidenceManifest) T
        let T ← T.insertEvent cols current.id u.ownerId eventKind validated
        let job ← T.fetchJob cols u.jobId u.ownerId
        .ok (job, T)

/-! ## `request_cancel_idempotent` -/

/-- Past the decision table; `existing` says whether a record was found there. -/
def cancelJob (c : CancelCall) (owner key : String) (current : Job) (existing : Bool) (clk : Clock) :
    Except StoreFault (Job × PostgresJobStore) :=
  if (current.revision : Int) ≠ c.expectedRevision then .error .staleRevision
  else match transition current.state .cancelled with
    | .error e => .error (.policy e)
    | .ok _ => do
      let eventData ← validatedEventData (cancelEvent current.state)
        (some (revisionData (current.revision + 1)))
      let T := T.updateRow current.id fun row => cancelled row (clk 0)
      let T ← T.recordDecision cols existing owner key c.requestHash current.id
      let T ← T.insertEvent cols current.id c.ownerId (cancelEvent current.state) eventData
      let job ← T.fetchJob cols c.jobId c.ownerId
      .ok (job, T)

/-- `request_cancel_idempotent`. -/
def requestCancelIdempotent (c : CancelCall) (clk : Clock) :
    Except StoreFault (Job × PostgresJobStore) := do
  let owner ← column (cols.text c.ownerId)
  let key ← column (cols.text c.idempotencyKey)
  match T.decisions.get? (owner, key) with
  | some (hash, jobId) =>
    if hash ≠ c.requestHash ∨ jobId ≠ c.jobId then .error .idempotencyConflict
    else do
      let current ← T.fetchJob cols c.jobId c.ownerId
      if current.cancelRequested ∨ current.state.terminal then .ok (current, T)
      else T.cancelJob cols c owner key current true clk
  | none => do
    let current ← T.fetchJob cols c.jobId c.ownerId
    T.cancelJob cols c owner key current false clk

/-! ## `decide_job_idempotent` -/

/-- The `reject` branch. -/
def rejectJob (c : DecideCall) (owner key : String) (current : Job) (existing : Bool) (clk : Clock) :
    Except StoreFault (Job × PostgresJobStore) :=
  match transition current.state .rejected with
  | .error e => .error (.policy e)
  | .ok _ => do
    let T := T.updateRow current.id fun row => advance row .rejected (clk 0)
    let T ← T.recordDecision cols existing owner key c.requestHash current.id
    let T ← T.insertEvent cols current.id c.ownerId "rejected" ∅
    let job ← T.fetchJob cols c.jobId c.ownerId
    .ok (job, T)

/-- The approval as the columns of its row hold it. -/
def approvalColumns (id : JobId) (a : Approval) : Except StoreFault ApprovalRow := do
  let proposalDigest ← column (cols.char64 a.proposalDigest)
  let sourceDigest ← column (cols.char64 a.sourceDigest)
  let policyVersion ← column (cols.text a.policyVersion)
  let resourceProfile ← column (cols.jsonbFields a.resourceProfile)
  let expiresAt ← column (cols.timestamptz a.expiresAt)
  .ok { jobId := id, ownerId := a.ownerId, revision := a.revision, proposalDigest, sourceDigest
        action := a.action, target := a.target, policyVersion, resourceProfile, expiresAt }

/-- The approval of a proposal at a revision, with its token hash. -/
def proposalApproval (jobId : JobId) (revision : Nat) (proposalDigest : String) :
    Option (String × ApprovalRow) :=
  T.approvals.entries.find? fun e => e.2.jobId == jobId && e.2.revision == revision &&
    e.2.proposalDigest == proposalDigest

/-- The recorded approval is the one about to be recorded, and still open. -/
def sameApproval (tokenHash : String) (row : ApprovalRow) (a : Approval) (t : Time) : Bool :=
  tokenHash == a.tokenHash && row.action == "export_patch" && row.target == "owner_download" &&
    row.sourceDigest == a.sourceDigest && row.policyVersion == a.policyVersion &&
    Json.typeEqual (.obj row.resourceProfile) (.obj a.resourceProfile) &&
    row.expiresAt == a.expiresAt && decide (t < row.expiresAt) && row.consumedAt.isNone

/-- `INSERT INTO lil_tweak_approvals`, whose token hash is its key. -/
def insertApproval (id : JobId) (a : Approval) : Except StoreFault PostgresJobStore := do
  let tokenHash ← column (cols.char64 a.tokenHash)
  let row ← approvalColumns cols id a
  if T.approvals.contains tokenHash then .error .database
  else .ok { T with approvals := T.approvals.set tokenHash row }

/-- The approval is recorded, or found recorded with the same terms. -/
def recordApproval (id : JobId) (a : Approval) (t : Time) : Except StoreFault PostgresJobStore := do
  let proposalDigest ← column (cols.char64 a.proposalDigest)
  match T.proposalApproval id a.revision proposalDigest with
  | none => T.insertApproval cols id a
  | some (tokenHash, row) => if sameApproval tokenHash row a t then .ok T else .error .approvalError

/-- The `approve` branch. -/
def approveJob (c : DecideCall) (owner key : String) (current : Job) (existing : Bool) (t : Time)
    (clk : Clock) : Except StoreFault (Job × PostgresJobStore) :=
  match c.approval current t with
  | none => .error .approvalError
  | some approval =>
    match transition current.state .applying c.evidence with
    | .error e => .error (.policy e)
    | .ok _ => do
      let T ← T.recordApproval cols current.id approval t
      let T := T.updateRow current.id fun row => approved row (clk 0)
      let T ← T.recordDecision cols existing owner key c.requestHash current.id
      let T ← T.ensureEvent cols current.id c.ownerId "approved" (approvedData approval)
      let T ← T.ensureEvent cols current.id c.ownerId "applying" exportAction
      let job ← T.fetchJob cols c.jobId c.ownerId
      .ok (job, T)

/-- `decide_job_idempotent` past its replay. -/
def decideJob (c : DecideCall) (owner key : String) (current : Job) (existing : Bool) (clk : Clock) :
    Except StoreFault (Job × PostgresJobStore) :=
  if current.state ≠ .awaitingApproval ∨ (current.revision : Int) ≠ c.expectedRevision ∨
      current.proposalDigest ≠ some c.proposalDigest then .error .staleRevision
  else if c.decision = .reject then T.rejectJob cols c owner key current existing clk
  else T.approveJob cols c owner key current existing (c.now.getD (clk 0)) clk

/-- The states in which a replayed decision is answered at once. -/
def decided (state : JobState) : Bool :=
  [JobState.applying, .completed, .rejected].contains state

/-- `decide_job_idempotent`. -/
def decideJobIdempotent (c : DecideCall) (clk : Clock) :
    Except StoreFault (Job × PostgresJobStore) := do
  let owner ← column (cols.text c.ownerId)
  let key ← column (cols.text c.idempotencyKey)
  match T.decisions.get? (owner, key) with
  | some (hash, jobId) =>
    if hash ≠ c.requestHash ∨ jobId ≠ c.jobId then .error .idempotencyConflict
    else do
      let current ← T.fetchJob cols c.jobId c.ownerId
      if decided current.state then .ok (current, T)
      else T.decideJob cols c owner key current true clk
  | none => do
    let current ← T.fetchJob cols c.jobId c.ownerId
    T.decideJob cols c owner key current false clk

/-! ## `consume_export_idempotent` -/

/-- The approval under the token hash that belongs to the job and the owner. -/
def ownedApproval (tokenHash jobId ownerId : String) : Option ApprovalRow :=
  (T.approvals.get? tokenHash).filter fun a => a.jobId = jobId ∧ a.ownerId = ownerId

/-- The row is unconsumed, unexpired and was recorded for exactly this export. -/
def rowCovers (a : ApprovalRow) (c : ExportCall) (t : Time) : Bool :=
  a.proposalDigest == c.proposalDigest && a.sourceDigest == c.sourceDigest &&
    a.action == "export_patch" && a.target == "owner_download" &&
    a.policyVersion == c.policyVersion &&
    Json.typeEqual (.obj a.resourceProfile) (.obj c.resourceProfile) && decide (t < a.expiresAt) &&
    a.consumedAt.isNone

/-- A replayed export is answered while its consumed approval has not expired. -/
def replayCovers (a : Option ApprovalRow) (current : Job) (t : Time) : Bool :=
  (a.any fun a => decide (t < a.expiresAt) && a.consumedAt.isSome) && current.state == .completed &&
    current.approvalConsumed

/-- `UPDATE lil_tweak_approvals SET consumed_at=…` on an open approval. -/
def consumeApproval (tokenHash : String) (t : Time) : Except StoreFault PostgresJobStore := do
  let consumedAt ← column (cols.timestamptz t)
  match T.approvals.get? tokenHash with
  | none => .error .approvalError
  | some a =>
    if a.consumedAt.isNone ∧ consumedAt < a.expiresAt then
      .ok { T with approvals := T.approvals.set tokenHash { a with consumedAt := some consumedAt } }
    else .error .approvalError

/-- `consume_export_idempotent` past its replay. -/
def exportJob (c : ExportCall) (owner key tokenHash : String) (approval : Option ApprovalRow)
    (current : Job) (t : Time) (clk : Clock) : Except StoreFault (Job × PostgresJobStore) :=
  if (approval.any fun a => rowCovers a c t) = false ∨ exportable current c = false then
    .error .approvalError
  else match transition current.state .completed with
    | .error e => .error (.policy e)
    | .ok _ => do
      let T ← T.consumeApproval cols tokenHash t
      let T := T.updateRow current.id fun row => exported row (clk 0)
      let T ← T.insertDecision cols owner key c.requestHash current.id
      let T ← T.insertEvent cols current.id c.ownerId "completed" exportAction
      let job ← T.fetchJob cols c.jobId c.ownerId
      .ok (job, T)

/-- `consume_export_idempotent`. -/
def consumeExportIdempotent (c : ExportCall) (clk : Clock) :
    Except StoreFault (Job × PostgresJobStore) :=
  if canonicalApprovalToken c.approvalToken = false then .error .approvalError
  else do
    let owner ← column (cols.text c.ownerId)
    let key ← column (cols.text c.storedKey)
    let t := c.now.getD (clk 0)
    let tokenHash ← column (cols.char64 (H.sha256Hex c.approvalToken))
    match T.decisions.get? (owner, key) with
    | some (hash, jobId) =>
      if hash ≠ c.requestHash ∨ jobId ≠ c.jobId then .error .idempotencyConflict
      else do
        let current ← T.fetchJob cols c.jobId c.ownerId
        if replayCovers (T.ownedApproval tokenHash current.id owner) current t then .ok (current, T) else .error .approvalError
    | none => do
      let current ← T.fetchJob cols c.jobId c.ownerId
      T.exportJob cols c owner key tokenHash (T.ownedApproval tokenHash current.id owner) current t clk

end PostgresJobStore

end LilTweak.Store
