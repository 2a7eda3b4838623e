import LilTweak.Lib.Pool
import LilTweak.Worker.D1

/-!
# Requests on one engineering job

The methods of `D1EngineeringStore` and the routes over them as programs. A question is one
statement or one batch sent to D1, a call of the core, or what else a request waits for. A
question that raises ends the request, as does a crash. Reads the source starts
together run side by side here.
-/

namespace LilTweak.Worker

open LilTweak.Lib

/-- `CoreUnavailableError` and `CoreRejectedError`. -/
inductive CoreFailure
  | unavailable
  | rejected (status : Nat)
  deriving DecidableEq

/-- What a request can raise. -/
inductive RequestError
  | store (e : EngineeringError)
  | core (f : CoreFailure)
  deriving DecidableEq

/-- `EngineeringJobDetail`, as far as the requests look at it. -/
structure JobDetail where
  row : JobRow
  evidence : List Evidence

/-- What a route answers with. -/
inductive Response
  | job (job : JobDetail)
  | error (message : String) (status : Nat)

/-- A batch that starts with an `UPDATE` of the row. -/
inductive Batch
  | applySnapshot (w : SnapshotWrite)
  | recordDecisionIntent (expectedRevision : Int) (intent : DecisionIntent)
  | transition (next : JobState) (expectedRevision : Int) (summary : JsString)
  | reserveDispatch (expectedRevision : Int) (reservedAt : JsString)
  | setRemoteJob (expectedRevision : Int) (remoteJobId summary : JsString)

inductive Query
  | job | evidence | remoteJobId | dispatchIsReserved | coreRevision | decisionIntent
  | batch (b : Batch)
  /-- The batch of `markSourceUploaded`. -/
  | sourceUploaded
  | now
  /-- Which of two promises goes on. -/
  | turn
  /-- `enforceModeSourcePolicy`, on columns that never change. -/
  | modeSourcePolicy
  /-- The frozen request and the sources are what was recorded for the job. -/
  | frozenRequest
  | createCoreJob
  | getCoreJob
  | cancelCoreJob
  | mirrorCoreSnapshotEvidence (snapshot : CoreSnapshot)

/-- A batch answers whether its `UPDATE` changed the row. -/
def Query.Answer : Query → Type
  | job => JobRow
  | evidence => List Evidence
  | remoteJobId => Option JsString
  | coreRevision => Option Int
  | decisionIntent => Option DecisionIntent
  | now => JsString
  | sourceUploaded => Unit
  | dispatchIsReserved | batch _ | turn | modeSourcePolicy | frozenRequest => Bool
  | createCoreJob => Except CoreFailure (JsString × CoreSnapshot)
  | getCoreJob | cancelCoreJob => Except CoreFailure CoreSnapshot
  | mirrorCoreSnapshotEvidence _ => Option CoreSnapshot

abbrev Request.Run := Act Query Query.Answer Unit RequestError

open Act (raise lift)

/-- Ask a question. -/
def question (q : Query) : Request.Run q.Answer := Act.query q

/-- Throw an `EngineeringConflictError`. -/
def throwConflict {α : Type} (message : String) : Request.Run α := raise (.store (.conflict message))

/-- Throw an `Error`. -/
def throwPlain {α : Type} (message : String) : Request.Run α := raise (.store (.error message))

/-- A call of the core, raising where it fails. -/
def callCore {α : Type} : Except CoreFailure α → Request.Run α
  | .ok a => return a
  | .error f => raise (.core f)

/-- A value that is neither `null` nor empty. -/
def truthy (s : Option JsString) : Bool := s.any fun s => decide (s ≠ [])

/-- The reads of `getJob`. -/
def readJob : Prog Query Query.Answer JobDetail :=
  .ask .job fun row => .ask .evidence fun evidence => .done { row, evidence }

/-! ## `D1EngineeringStore` -/

/-- `getJob` and `requireJob`, of a job that is there. -/
def getJob : Request.Run JobDetail := lift readJob

def getRemoteJobId : Request.Run (Option JsString) := question .remoteJobId

def dispatchIsReserved : Request.Run Bool := question .dispatchIsReserved

def getCoreRevision : Request.Run (Option Int) := question .coreRevision

/-- Run a batch: whether it changed the row. -/
def changes (b : Batch) : Request.Run Bool := question (.batch b)

/-- The test of `transition` that only a cancellation reads the reservation for. -/
def cancelsReserved (next : JobState) : Request.Run Bool :=
  if next = .cancelled then dispatchIsReserved else return false

/-- `transition`. -/
def transition (next : JobState) (expectedRevision : Int) (summary : JsString) : Request.Run JobDetail := do
  let current ← getJob
  if (current.row.revision : Int) ≠ expectedRevision then throwConflict "Stale job revision."
  else do
    let reserved ← cancelsReserved next
    if reserved then throwConflict "Engineering dispatch must be reconciled before cancellation."
    else if transitionAllowed current.row.state next = false then
      throwConflict ("Illegal job transition from " ++ current.row.state.text ++ " to " ++ next.text ++ ".")
    else do
      let changed ← changes (.transition next expectedRevision (if summary = [] then next.words else summary))
      if changed then getJob else throwConflict "Stale job revision."

/-- `reserveDispatch`. -/
def reserveDispatch (expectedRevision : Int) : Request.Run JobDetail := do
  let current ← getJob
  if current.row.state ≠ .queued then throwConflict "Engineering job is not ready for dispatch."
  else do
    let remote ← getRemoteJobId
    if truthy remote then return current
    else do
      let reserved ← dispatchIsReserved
      if reserved then return current
      else if (current.row.revision : Int) ≠ expectedRevision then throwConflict "Stale job revision."
      else do
        let reservedAt : JsString ← question .now
        let changed ← changes (.reserveDispatch expectedRevision reservedAt)
        if changed then getJob
        else do
          let reserved ← dispatchIsReserved
          if reserved then getJob
          else throwConflict "Engineering job changed before dispatch reservation."

/-- `setRemoteJob`. -/
def setRemoteJob (expectedRevision : Int) (remoteJobId summary : JsString) : Request.Run JobDetail :=
  if remoteJobId = [] ∨ remoteJobId.length > 256 then throwPlain "Core job response is invalid."
  else do
    let changed ← changes (.setRemoteJob expectedRevision remoteJobId summary)
    if changed then getJob
    else do
      let remote ← getRemoteJobId
      if remote = some remoteJobId then getJob
      else throwConflict "Engineering job was already dispatched or changed."

/-- The reads of `applyCoreSnapshot`, started together. -/
def readSnapshotState : Prog Query Query.Answer ((JobDetail × Option Int) × Option DecisionIntent) :=
  ((readJob.par .turn id (.ask .coreRevision .done)).par .turn id (.ask .decisionIntent .done))

variable (r : Runtime)

/-- `applyCoreSnapshot`. -/
def mirrorSnapshot (snapshot : CoreSnapshot) : Request.Run JobDetail := do
  let ((current, currentCoreRevision), decisionIntent) ← lift readSnapshotState
  match applyCoreSnapshot r current.row current.evidence currentCoreRevision decisionIntent snapshot with
  | .error e => raise (.store e)
  | .ok none => return current
  | .ok (some w) => do
    let changed ← changes (.applySnapshot w)
    if changed then getJob
    else throwConflict "Engineering job changed while its core status was being mirrored."

/-- `recordDecisionIntent`. -/
def recordDecisionIntent (expectedRevision : Int) (intent : DecisionIntent) : Request.Run Unit :=
  if JsString.hexOf 64 intent.proposalDigest = false then
    throwConflict "Engineering proposal is unavailable."
  else do
    let changed ← changes (.recordDecisionIntent expectedRevision intent)
    if changed then return () else throwConflict "Engineering job is not awaiting this decision."

/-! ## Routes -/

def createCoreJob : Request.Run (JsString × CoreSnapshot) := (question .createCoreJob).bind callCore

def getCoreJob : Request.Run CoreSnapshot := (question .getCoreJob).bind callCore

def mirrorCoreSnapshotEvidence (snapshot : CoreSnapshot) : Request.Run (Option CoreSnapshot) :=
  question (.mirrorCoreSnapshotEvidence snapshot)

/-- Mirror the evidence of a snapshot, then the snapshot. -/
def mirror (snapshot : CoreSnapshot) : Request.Run Response := do
  let mirrored ← mirrorCoreSnapshotEvidence snapshot
  match mirrored with
  | none => throwPlain "Evidence integrity check failed."
  | some snapshot => return .job (← mirrorSnapshot r snapshot)

/-- `GET` of a job with `fresh=1`. -/
def poll : Request.Run Response := do
  let job ← getJob
  let remote ← getRemoteJobId
  if truthy remote then do
    let _ ← getCoreRevision
    let snapshot ← getCoreJob
    mirror r snapshot
  else return .job job

/-- `POST` of a job with the action `dispatch`. -/
def dispatch (expectedRevision : Int) : Request.Run Response := do
  let job ← getJob
  let policy : Bool ← question .modeSourcePolicy
  if policy = false then return .error "Git source is required for this launch." 409
  else if job.row.state ≠ .queued then return .error "Engineering job is not ready for dispatch." 409
  else do
    let existingRemoteJobId ← getRemoteJobId
    if truthy existingRemoteJobId then do
      let recovered ← getCoreJob
      mirror r recovered
    else do
      let frozen : Bool ← question .frozenRequest
      if frozen = false then throwPlain "Engineering request integrity check failed."
      else do
        let reservedJob ← reserveDispatch expectedRevision
        let (remoteJobId, snapshot) ← createCoreJob
        let summary := if snapshot.summary = [] then JsString.ofText "Queued in the private core."
          else snapshot.summary
        let _ ← setRemoteJob reservedJob.row.revision remoteJobId summary
        mirror r snapshot

/-- What the cancel route takes for the core's answer. -/
def cancelledCoreJob : Request.Run CoreSnapshot := do
  let core : Except CoreFailure CoreSnapshot ← question .cancelCoreJob
  match core with
  | .error (.rejected status) =>
    if status ≠ 409 then raise (.core (.rejected status))
    else do
      let recovered ← getCoreJob
      if recovered.state ≠ .cancelled then raise (.core (.rejected status)) else return recovered
  | core => callCore core

/-- `POST` of a cancellation. -/
def cancel (expectedRevision : Int) : Request.Run Response := do
  let job ← getJob
  if job.row.state = .cancelled then return .job job
  else if (job.row.revision : Int) ≠ expectedRevision ∨ job.row.state.terminal = true then
    return .error "Engineering job cannot be cancelled." 409
  else do
    let remoteJobId ← getRemoteJobId
    if truthy remoteJobId = false then do
      let reserved ← dispatchIsReserved
      if reserved then
        return .error "Resume this reserved dispatch to reconcile it before cancellation." 409
      else return .job (← transition .cancelled expectedRevision
        (JsString.ofText "Engineering job cancelled."))
    else do
      let coreRevision ← getCoreRevision
      if coreRevision = none then throwPlain "Engineering job is unavailable."
      else mirror r (← cancelledCoreJob)

/-- The requests on a job. The decision and the export routes record an intent and apply a
snapshot; whoever sends them, they are requests of their own here. -/
inductive Request
  | poll
  | dispatch (expectedRevision : Int)
  | cancel (expectedRevision : Int)
  | applyCoreSnapshot (snapshot : CoreSnapshot)
  | recordDecisionIntent (expectedRevision : Int) (intent : DecisionIntent)
  | markSourceUploaded

/-- What becomes of a request. -/
abbrev Outcome := Except RequestError Response × Unit

/-- The program of a request. -/
def Request.program : Request → Prog Query Query.Answer Outcome
  | .poll => Worker.poll r ()
  | .dispatch expectedRevision => Worker.dispatch r expectedRevision ()
  | .cancel expectedRevision => Worker.cancel r expectedRevision ()
  | .applyCoreSnapshot snapshot => (do return .job (← mirrorSnapshot r snapshot) : Run Response) ()
  | .recordDecisionIntent expectedRevision intent =>
    (do
      Worker.recordDecisionIntent expectedRevision intent
      return .job (← getJob) : Run Response) ()
  | .markSourceUploaded =>
    (do
      let _ ← question .sourceUploaded
      return .job (← getJob) : Run Response) ()

/-! ## The Worker, the row and the core -/

/-- The tables, the jobs the core has created under the key of this one, and whether the cancel
route has cancelled the row without the core. -/
structure World where
  db : Database
  created : List JsString := []
  locallyCancelled : Bool := false

/-- What a question comes to where the state does not decide it. -/
structure Choice where
  now : JsString := JsString.ofText "0"
  now_ne : now ≠ [] := by decide
  turn : Bool := true
  /-- A source was uploaded for the first time, and whether it was the last one. -/
  uploaded : Option Bool := none
  modeSourcePolicy : Bool := true
  frozenRequest : Bool := true
  /-- The job the core creates. -/
  newJob : Option JsString := none
  /-- What the core answers, and the job it answers for. -/
  core : Except CoreFailure CoreSnapshot := .error .unavailable
  coreJob : JsString := []
  mirrored : Option CoreSnapshot := none

/-- Run a batch on the tables. -/
def World.run (w : World) : Batch → Bool × World
  | .applySnapshot x => (w.db.snapshotApplies x, { w with db := w.db.applySnapshot x })
  | .recordDecisionIntent expectedRevision intent =>
    match w.db.recordDecisionIntent expectedRevision intent with
    | some db => (true, { w with db })
    | none => (false, w)
  | .transition next expectedRevision summary =>
    match w.db.transition next expectedRevision summary with
    | some db => (true, { w with db, locallyCancelled := w.locallyCancelled || decide (next = .cancelled) })
    | none => (false, w)
  | .reserveDispatch expectedRevision reservedAt =>
    match w.db.reserveDispatch expectedRevision reservedAt with
    | some db => (true, { w with db })
    | none => (false, w)
  | .setRemoteJob expectedRevision remoteJobId summary =>
    match w.db.setRemoteJob expectedRevision remoteJobId summary with
    | some db => (true, { w with db })
    | none => (false, w)

/-- The jobs of the core once it may have created one more. -/
def createdWith (created : List JsString) : Option JsString → List JsString
  | some id => if id ∈ created then created else created ++ [id]
  | none => created

/-- What the core answers to a creation: nothing, or one of its jobs. -/
def Choice.createAnswer (c : Choice) (created : List JsString) :
    Except CoreFailure (JsString × CoreSnapshot) :=
  match c.core with
  | .ok snapshot => if c.coreJob ∈ created then .ok (c.coreJob, snapshot) else .error .unavailable
  | .error f => .error f

/-- The answer to a question, and what it does. The core may create a job and fail to say so. -/
def World.perform (w : World) (c : Choice) : (q : Query) → q.Answer × World
  | .job => (w.db.job, w)
  | .evidence => (w.db.evidence.values, w)
  | .remoteJobId => (w.db.job.remoteJobId, w)
  | .dispatchIsReserved => (truthy w.db.job.dispatchReservedAt, w)
  | .coreRevision => (w.db.job.coreRevision, w)
  | .decisionIntent => (w.db.job.authorized, w)
  | .batch b => w.run b
  | .sourceUploaded => ((), match c.uploaded with
    | none => w
    | some ready => { w with db := w.db.sourceUploaded ready })
  | .now => (c.now, w)
  | .turn => (c.turn, w)
  | .modeSourcePolicy => (c.modeSourcePolicy, w)
  | .frozenRequest => (c.frozenRequest, w)
  | .createCoreJob =>
    (c.createAnswer (createdWith w.created c.newJob), { w with created := createdWith w.created c.newJob })
  | .getCoreJob => (c.core, w)
  | .cancelCoreJob => (c.core, w)
  | .mirrorCoreSnapshotEvidence _ => (c.mirrored, w)

/-- Another job's evidence takes an id. -/
def World.evidenceElsewhere (w : World) (id : JsString) : World :=
  if w.db.evidence.contains id then w
  else { w with db := { w.db with otherEvidence := w.db.otherEvidence ++ [id] } }

/-- The Worker at work on one job. -/
def works : PoolSpec Query Query.Answer Outcome World Request Choice JsString where
  program := Request.program r
  perform := World.perform
  outside id w := w.evidenceElsewhere id

/-- The row `createJob` inserts. -/
def JobRow.created (sources : Nat) : JobRow where
  state := if sources = 0 then .queued else .uploading
  summary := JsString.ofText
    (if sources = 0 then "Ready for secure dispatch." else "Waiting for source upload.")

abbrev System := Pool Query Query.Answer Outcome World

/-- A job was created, and no other request has come in. -/
def System.created (sources : Nat) (otherEvidence : List JsString) : System where
  state := { db := { job := .created sources, otherEvidence } }

abbrev Event := PoolEvent Request Choice JsString

/-- One step of the system. -/
abbrev System.Step : System → Event → System → Prop := Pool.Step (works r)

end LilTweak.Worker
