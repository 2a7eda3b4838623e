import LilTweak.Lib.Prog
import LilTweak.Store.Operations
import LilTweak.Evidence.Patch

/-!
# The engineering workflow

`EngineeringOrchestrator.run_job` as a program that asks the job store, the
clocks, the agent and the evidence services. Every one of its store calls is a
question of its own, so that other workers and callers can come between any two
of them; what the agent and the services answer is left open.
-/

namespace LilTweak.Orchestrator

open LilTweak.Lib LilTweak.Core LilTweak.Store LilTweak.Evidence

/-- What a run can raise. -/
inductive WorkerFault
  | store (e : StoreFault)
  | jobNotFound
  | valueError (message : String)
  | promotionRecoveryRequired (code : String)
  | agentDeadline
  | patch (e : PatchFault)
  | other

/-- `AgentResult`, less the fields the workflow does not read. -/
structure AgentResult where
  plan : String
  summary : String
  externalAction : Option JsonObj := none
  modelCalls : Int := 0
  inputTokens : Int := 0
  outputTokens : Int := 0
  totalTokens : Int := 0

/-- What `build_command_evidence` returns: the log and the `timeouts` of its metadata. -/
structure CommandEvidence where
  log : Bytes
  timeouts : List Bool

/-- A file of an evidence bundle with its hash. -/
structure Artifact where
  name : String
  data : Bytes
  sha256 : String

structure EvidenceBundle where
  files : List Artifact
  proposalDigest : String

/-- The metadata of a bundle that comes from the run itself. -/
structure RunMetadata where
  commands : CommandEvidence
  journal : JsonObj
  sourceDigest : String
  proposalSourceDigest : String
  approval : Option JsonObj
  startedAt : Time
  finishedAt : Time
  runnerReceipt : Option JsonObj

/-- `StoredEvidence`, less its key. -/
structure StoredEvidence where
  sha256 : String
  size : Int

/-- A question for a clock, the agent, its tools or a service. -/
inductive Service
  | clock
  | monotonic
  | recoveryContextExists
  | removeSnapshotTree (path : String)
  | captureWorkspace (stagingRoot : String)
  | fetchGalor (context : JsonObj)
  | runAgent (mode : JobMode) (prompt : String) (sourceInventory : List String)
      (projectContext galorContext : Option JsonObj) (deadline : Time)
  | captureFinalSnapshot (baseline : WorkspaceSnapshot) (stagingRoot : String)
  | verifyRunner (job : Job) (patch : Bytes) (baselineDigest finalDigest : String)
      (sourceCommit sourceTree : Option String)
  | commandEvidence
  | editJournalEvidence
  | buildBundle (result : AgentResult) (patch : Bytes) (metadata : RunMetadata)
  | putEvidence (key : String) (data : Bytes) (sha256 : String)

/-- What a service answers when it does not raise. -/
def Service.Value : Service → Type
  | clock | monotonic => Time
  | recoveryContextExists => Bool
  | removeSnapshotTree _ => Unit
  | captureWorkspace _ | captureFinalSnapshot _ _ => WorkspaceSnapshot
  | fetchGalor _ => Option JsonObj × Bool
  | runAgent .. => AgentResult
  | verifyRunner .. => JsonObj
  | commandEvidence => CommandEvidence
  | editJournalEvidence => JsonObj
  | buildBundle .. => EvidenceBundle
  | putEvidence .. => StoredEvidence

/-- A question of the workflow. -/
inductive Query
  | store (op : StoreOp)
  | service (s : Service)

/-- What a question is answered. -/
def Query.Answer : Query → Type
  | store _ => Except StoreFault Reply
  | service s => Except WorkerFault s.Value

/-- What a run keeps across its exceptions: `self.lease` and `snapshot_roots`. -/
structure Attempt where
  lease : Option JobLease
  snapshotRoots : List String := []

abbrev Worker (α : Type) := Act Query Query.Answer Attempt WorkerFault α

/-- The library functions the workflow calls: `hashlib.sha256(…).hexdigest()` and
`_iso_timestamp`. -/
structure Platform where
  sha256 : Sha256
  isoTimestamp : Time → String

/-- The constructor arguments of `EngineeringOrchestrator` that decide what it does. -/
structure EngineeringOrchestrator where
  jobTimeoutSeconds : Int := 20 * 60
  galor : Bool := false
  runnerVerifier : Bool := false
  captureTools : Bool := true
  leaseSeconds : Int := 60

/-- The arguments of `run_job`. -/
structure RunArgs where
  jobId : JobId
  ownerId : OwnerId
  sourceInventory : List String := []
  workspace : Bool := false
  sourceCommit : Option String := none
  sourceTree : Option String := none

/-- Ask a question. -/
def question (q : Query) : Worker q.Answer := Act.query q

/-- Raise what was raised. -/
def orRaise {ε α : Type} (wrap : ε → WorkerFault) : Except ε α → Worker α
  | .ok a => pure a
  | .error e => Act.raise (wrap e)

/-- Ask a service, and raise what it raises. -/
def ask (s : Service) : Worker s.Value :=
  (question (.service s)).bind (orRaise id)

/-- The wanted part of a reply. -/
def readReply {α : Type} (read : Reply → Option α) (r : Reply) : Worker α :=
  match read r with
  | some a => pure a
  | none => Act.raise .other

/-- Call the store, and raise what it raises. -/
def callStore {α : Type} (op : StoreOp) (read : Reply → Option α) : Worker α :=
  ((question (.store op)).bind (orRaise WorkerFault.store)).bind (readReply read)

/-- The job in a reply. -/
def asJob : Reply → Option Job
  | .job j => some j
  | _ => none

/-- The job or `None` in a reply. -/
def asJobOption : Reply → Option (Option Job)
  | .jobOption j => some j
  | _ => none

/-- The lease in a reply. -/
def asLease : Reply → Option JobLease
  | .lease l => some l
  | _ => none

/-- The event in a reply. -/
def asEvent : Reply → Option JobEvent
  | .event e => some e
  | _ => none

/-- `self.store.get_job(job_id, owner_id)`. -/
def getJob (jobId : JobId) (ownerId : OwnerId) : Worker (Option Job) :=
  callStore (.getJob jobId ownerId) asJobOption

/-- `self.store.append_event(…)`. -/
def appendEvent (jobId : JobId) (ownerId : OwnerId) (kind : String) (data : JsonObj) :
    Worker JobEvent :=
  callStore (.appendEvent jobId ownerId kind (some data)) asEvent

/-! ## Moves -/

/-- The arguments of `_move` other than the job. -/
structure Move where
  state : JobState
  proposalDigest : Option String := none
  evidenceManifest : Option JsonObj := none
  summary : Option String := none
  sourceDigest : Option String := none
  approvalProposal : Option JsonObj := none

/-- What `_move` hands to `transition_job`. -/
def Move.update (m : Move) (job : Job) (lease : Option JobLease) : JobUpdate where
  jobId := job.id
  ownerId := job.ownerId
  expectedRevision := job.revision
  state := m.state
  proposalDigest := m.proposalDigest
  evidenceManifest := m.evidenceManifest
  summary := m.summary
  sourceDigest := m.sourceDigest
  approvalProposal := m.approvalProposal
  lease := lease

section
variable (P : Platform) (cfg : EngineeringOrchestrator)

/-- `_renew_lease`. -/
def renewLease : Worker Unit := do
  let w ← Act.get
  match w.lease with
  | none => pure ()
  | some lease => do
    let renewed ← callStore (.renewClaim lease cfg.leaseSeconds none) asLease
    Act.put { w with lease := some renewed }

/-- `_move`. -/
def move (job : Job) (m : Move) : Worker Job := do
  renewLease cfg
  let w ← Act.get
  callStore (.transitionJob (m.update job w.lease) m.state.value (some ∅)) asJob

/-- `snapshot_job_root`. -/
def snapshotJobRoot (jobId : JobId) : String := ".snapshots/" ++ jobId

/-- `attempt_root`: one directory for each lease generation. -/
def attemptRoot (job : Job) (lease : Option JobLease) : String :=
  snapshotJobRoot job.id ++ "/attempt-" ++ toString (match lease with
    | some l => l.generation
    | none => job.revision)

/-- `MAX_EVIDENCE_BYTES`. -/
def maxEvidenceBytes : Int := 2 * 1024 * 1024

/-- The snapshot of a job without a workspace. -/
def emptySnapshot : WorkspaceSnapshot := ⟨∅, portable_empty⟩

/-- The capture of the baseline. -/
def captureBaseline (args : RunArgs) (job : Job) : Worker WorkspaceSnapshot :=
  if args.workspace then
    if cfg.captureTools = false then
      Act.raise (.promotionRecoveryRequired "patch_reconciliation_required")
    else do
      let recovering : Bool ← ask .recoveryContextExists
      if recovering then
        Act.raise (.promotionRecoveryRequired "patch_reconciliation_required")
      else do
        ask (.removeSnapshotTree (snapshotJobRoot job.id))
        let w ← Act.get
        Act.put { w with snapshotRoots := w.snapshotRoots ++ [snapshotJobRoot job.id] }
        ask (.captureWorkspace (attemptRoot job w.lease ++ "/baseline"))
  else pure emptySnapshot

/-- The capture of the final workspace. -/
def captureFinal (args : RunArgs) (root : String) (baseline : WorkspaceSnapshot) :
    Worker WorkspaceSnapshot :=
  if args.workspace then ask (.captureFinalSnapshot baseline (root ++ "/final"))
  else pure baseline

/-- The loop over `PLANNING` and `EXECUTING`; `k` is what follows it. -/
def announce (ownerId : OwnerId) (baseline : WorkspaceSnapshot) :
    List JobState → Job → (Job → Worker Job) → Worker Job
  | [], job, k => k job
  | state :: rest, job, k => do
    let job ← move cfg job
      { state, sourceDigest := if state = .planning then some (baseline.sourceDigest P.sha256) else none }
    match ← getJob job.id ownerId with
    | some latest =>
      if latest.cancelRequested then move cfg latest { state := .cancelled }
      else announce ownerId baseline rest job k
    | none => announce ownerId baseline rest job k

/-- The GALOR context, when there is a GALOR client. -/
def fetchGalor (ownerId : OwnerId) (job : Job) : Worker (Option JsonObj) :=
  if cfg.galor then do
    let (context, failed) ← ask (.fetchGalor (job.projectContext.getD ∅))
    if failed then do
      let _ ← appendEvent job.id ownerId "galor_unavailable"
        (JsonObj.ofFields [("code", .str "galor_unavailable")])
      pure context
    else pure context
  else pure none

/-- `{"effect": "export_patch", "target": "owner_download"}`. -/
def isExport (action : JsonObj) : Bool :=
  action.keysAre ["effect", "target"] && Json.isStr "export_patch" (action.get? "effect") &&
    Json.isStr "owner_download" (action.get? "target")

/-- `self.resource_profile`. -/
def resourceProfile : JsonFields :=
  [("cpus", .int 1), ("memory", .str "1g"), ("pids", .int 256),
    ("wallSeconds", .int cfg.jobTimeoutSeconds)]

/-- `approval_binding`. -/
def approvalBinding (sourceDigest expiresAt : String) : JsonObj :=
  JsonObj.ofFields
    [("action", .str "export_patch"), ("target", .str "owner_download"),
      ("policyVersion", .str "v1"), ("resourceProfile", .obj (resourceProfile cfg)),
      ("sourceDigest", .str sourceDigest), ("expiresAt", .str expiresAt)]

/-- The entry of the manifest for a stored artifact. -/
def manifestEntry (stored : StoredEvidence) (key : String) : Json :=
  .obj [("sha256", .str stored.sha256), ("bytes", .int stored.size), ("objectKey", .str key)]

/-- The loop over the files of the bundle; the lease is renewed before each of them. -/
def storeEvidence (keyPrefix : String) : List Artifact → JsonObj → Worker JsonObj
  | [], manifest => pure manifest
  | f :: rest, manifest => do
    renewLease cfg
    let key := keyPrefix ++ f.name
    let stored ← ask (.putEvidence key f.data f.sha256)
    storeEvidence keyPrefix rest (manifest.set f.name (manifestEntry stored key))

/-- The key prefix of a job's evidence. -/
def evidencePrefix (ownerId : OwnerId) (job : Job) (proposalDigest : String) : String :=
  P.sha256 (encodeUtf8 ownerId.toList) ++ "/" ++ job.id ++ "/" ++ proposalDigest ++ "/"

/-- The data of the `approval_required` event. -/
def approvalRequired (proposalDigest sourceDigest : String) (revision : Nat) : JsonObj :=
  JsonObj.ofFields
    [("action", .str "export_patch"), ("proposal_digest", .str proposalDigest),
      ("source_digest", .str sourceDigest), ("revision", .int revision)]

/-- What is left once the evidence is stored. -/
def settle (ownerId : OwnerId) (job : Job) (result : AgentResult) (baseline : WorkspaceSnapshot)
    (bundle : EvidenceBundle) (manifest : JsonObj) (binding : Option JsonObj) (timedOut : Bool) :
    Worker Job :=
  match binding with
  | some binding => do
    let job ← move cfg job
      { state := .awaitingApproval
        proposalDigest := some bundle.proposalDigest
        evidenceManifest := some manifest
        summary := some result.summary
        sourceDigest := some (baseline.sourceDigest P.sha256)
        approvalProposal := some (binding.set "proposalDigest" (.str bundle.proposalDigest)) }
    let _ ← appendEvent job.id ownerId "approval_required"
      (approvalRequired bundle.proposalDigest (baseline.sourceDigest P.sha256) job.revision)
    pure job
  | none =>
    move cfg job
      { state := if timedOut then .timedOut else .completed
        proposalDigest := some bundle.proposalDigest
        evidenceManifest := some manifest
        summary := some result.summary
        sourceDigest := some (baseline.sourceDigest P.sha256) }

/-- `runner_receipt`. -/
def verifyPatch (args : RunArgs) (job : Job) (patch : Bytes) (baseline final : WorkspaceSnapshot) :
    Worker (Option JsonObj) :=
  if cfg.runnerVerifier ∧ job.mode ≠ .chat then do
    let receipt ← ask (.verifyRunner job patch (baseline.sourceDigest P.sha256)
      (final.sourceDigest P.sha256) args.sourceCommit args.sourceTree)
    pure (some receipt)
  else pure none

/-- `approval_needed`. -/
def approvalNeeded (timedOut : Bool) (patch : Bytes) (result : AgentResult) : Bool :=
  !timedOut && (!patch.isEmpty || result.externalAction.isSome)

/-- `approval_binding`, when an approval is needed. -/
def bindApproval (baseline : WorkspaceSnapshot) (needed : Bool) : Worker (Option JsonObj) :=
  if needed then do
    let now : Time ← ask .clock
    pure (some (approvalBinding cfg (baseline.sourceDigest P.sha256) (P.isoTimestamp (now + 300))))
  else pure none

/-- The external action is not an export. -/
def unsupportedAction : Option JsonObj → Bool
  | some action => !isExport action
  | none => false

/-- From the final capture to the last move. -/
def collect (args : RunArgs) (job : Job) (root : String) (startedAt : Time)
    (baseline : WorkspaceSnapshot) (result : AgentResult) : Worker Job := do
  let final ← captureFinal args root baseline
  let patch ← orRaise WorkerFault.patch
    (buildWorkspacePatch P.sha256 baseline final maxEvidenceBytes)
  let receipt ← verifyPatch P cfg args job patch baseline final
  let commands ← ask .commandEvidence
  let journal ← ask .editJournalEvidence
  let timedOut := commands.timeouts.any id
  if job.mode = .chat ∧ result.externalAction.isSome then
    Act.raise (.valueError "chat cannot propose external actions")
  else if unsupportedAction result.externalAction then
    Act.raise (.valueError "unsupported external action")
  else do
    let binding ← bindApproval P cfg baseline (approvalNeeded timedOut patch result)
    let finishedAt : Time ← ask .clock
    let bundle ← ask (.buildBundle result patch
      { commands, journal
        sourceDigest := baseline.sourceDigest P.sha256
        proposalSourceDigest := final.sourceDigest P.sha256
        approval := binding, startedAt, finishedAt, runnerReceipt := receipt })
    let manifest ← storeEvidence cfg (evidencePrefix P args.ownerId job bundle.proposalDigest)
      bundle.files ∅
    settle P cfg args.ownerId job result baseline bundle manifest binding timedOut

/-- From `EXECUTING` to the final capture. -/
def execute (args : RunArgs) (root : String) (startedAt deadline : Time)
    (baseline : WorkspaceSnapshot) (job : Job) : Worker Job := do
  let galorContext ← fetchGalor cfg args.ownerId job
  let result ← ask (.runAgent job.mode job.prompt args.sourceInventory job.projectContext
    galorContext deadline)
  match ← getJob job.id args.ownerId with
  | none => Act.raise .jobNotFound
  | some latest =>
    if latest.cancelRequested then move cfg latest { state := .cancelled }
    else do
      let job ← move cfg latest { state := .testing }
      let job ← move cfg job { state := .collecting }
      collect P cfg args job root startedAt baseline result

/-- Move a job that is still in the first of two states to the second. -/
def moveFrom (state next : JobState) (job : Job) : Worker Job :=
  if job.state = state then move cfg job { state := next } else pure job

/-- The body of the `try`. -/
def attempt (args : RunArgs) (job : Job) (startedAt deadline : Time) : Worker Job := do
  let job ← moveFrom cfg .draft .queued job
  let job ← moveFrom cfg .queued .ingesting job
  let baseline ← captureBaseline cfg args job
  let w ← Act.get
  announce P cfg args.ownerId baseline [.planning, .executing] job
    (execute P cfg args (attemptRoot job w.lease) startedAt deadline baseline)

/-- The end of a job whose attempt raised: a requested cancellation wins, then a
deadline, then failure. -/
def recoverLatest (args : RunArgs) (fault : WorkerFault) (latest : Job) : Worker Job :=
  if latest.state.terminal then Act.raise fault
  else if latest.cancelRequested then move cfg latest { state := .cancelled }
  else match fault with
    | .agentDeadline => move cfg latest { state := .timedOut }
    | _ => do
      let failed ← move cfg latest { state := .failed }
      let _ ← appendEvent args.jobId args.ownerId "engineering_failed"
        (JsonObj.ofFields [("code", .str "engineering_failed")])
      pure failed

/-- The two `except` clauses. -/
def recover (args : RunArgs) (fault : WorkerFault) : Worker Job :=
  match fault with
  | .promotionRecoveryRequired code => Act.raise (.promotionRecoveryRequired code)
  | fault => do
    match ← getJob args.jobId args.ownerId with
    | none => Act.raise fault
    | some latest => recoverLatest cfg args fault latest

/-- Remove the snapshot trees in turn. -/
def removeSnapshotTrees : List String → Worker Unit
  | [] => pure ()
  | path :: rest => do
    ask (.removeSnapshotTree path)
    removeSnapshotTrees rest

/-- Whether the agent's tools still hold a recovery context. -/
def recoveryContext : Worker Bool :=
  if cfg.captureTools then ask .recoveryContextExists else pure false

/-- The `finally` clause; `preserve` is `preserve_recovery_context`. -/
def cleanup (preserve : Bool) : Worker Unit := do
  let recovering ← recoveryContext cfg
  let w ← Act.get
  if preserve || recovering then pure () else removeSnapshotTrees w.snapshotRoots

/-- The fault of a run that must keep its recovery context. -/
def keepsContext : WorkerFault → Bool
  | .promotionRecoveryRequired _ => true
  | _ => false

/-- The `try` statement of `run_job`. -/
def guarded (args : RunArgs) (job : Job) (startedAt deadline : Time) : Worker Job := do
  let outcome ← (((attempt P cfg args job startedAt deadline).handle (recover cfg args)).bind fun job =>
    pure (Except.ok job)).handle fun e => pure (Except.error e)
  match outcome with
  | .ok job => do
    cleanup cfg false
    pure job
  | .error e => do
    cleanup cfg (keepsContext e)
    Act.raise e

/-- `run_job`. -/
def runJob (args : RunArgs) : Worker Job := do
  match ← getJob args.jobId args.ownerId with
  | none => Act.raise .jobNotFound
  | some job =>
    if job.state.terminal then pure job
    else if job.cancelRequested then move cfg job { state := .cancelled }
    else if cfg.runnerVerifier ∧ job.mode ≠ .chat ∧ (job.gitSource = none ∨ args.workspace = false ∨
        args.sourceCommit = none ∨ args.sourceTree = none) then
      Act.raise (.valueError "GitHub runner requires verified Git source identity")
    else do
      let startedAt : Time ← ask .clock
      let now : Time ← ask .monotonic
      guarded P cfg args job startedAt (now + cfg.jobTimeoutSeconds)

end

end LilTweak.Orchestrator
