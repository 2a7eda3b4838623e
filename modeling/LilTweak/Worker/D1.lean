import LilTweak.Lib.Dict
import LilTweak.Lib.Outcome
import LilTweak.Worker.Engineering

/-!
# The row of an engineering job

What `D1EngineeringStore` decides and writes on one row of `engineering_jobs` and its
evidence: what `applyCoreSnapshot` decides on what it has read, and the batches of all methods on the
tables as they are when the batch runs.
-/

namespace LilTweak.Worker

open LilTweak.Lib

/-- What a method of the store throws. -/
inductive EngineeringError
  | notFound
  | conflict (message : String)
  | error (message : String)
  deriving DecidableEq

/-- A row of `engineering_jobs`, less the columns that never change and the times nothing reads.
The authorized decision and its digest are written together. -/
structure JobRow where
  state : JobState
  revision : Nat := 0
  summary : JsString := []
  proposalDigest : Option JsString := none
  sourceDigest : Option JsString := none
  approvalProposal : Option ApprovalProposal := none
  approvalConsumed : Bool := false
  remoteJobId : Option JsString := none
  coreRevision : Option Int := none
  dispatchReservedAt : Option JsString := none
  authorized : Option DecisionIntent := none
  deriving DecidableEq

/-- The row, the evidence rows of the job, and the evidence ids other jobs use. -/
structure Database where
  job : JobRow
  evidence : Dict JsString Evidence := ∅
  otherEvidence : List JsString := []

/-- `CoreEvidenceInput`. -/
structure CoreEvidence extends Evidence where
  corePath : JsString
  deriving DecidableEq

/-- `CoreSnapshotInput`; an absent field and `null` are told apart nowhere. -/
structure CoreSnapshot where
  state : JobState
  summary : JsString
  coreRevision : Int
  proposalDigest : Option JsString := none
  sourceDigest : Option JsString := none
  approvalProposal : Option ApprovalProposal := none
  approvalConsumed : Bool := false
  evidence : List CoreEvidence := []

/-! ## `applyCoreSnapshot` -/

/-- `appendOnlyEvidenceManifest`. -/
def appendOnlyEvidenceManifest (stored : List Evidence) (incoming : List CoreEvidence) (frozen : Bool) :
    Except EngineeringError Unit :=
  if incoming.length > 10 then .error (.error "Core evidence is invalid.")
  else if ¬((incoming.map fun e => e.id).Nodup ∧ (incoming.map fun e => e.filename).Nodup ∧
      (incoming.map CoreEvidence.corePath).Nodup) then .error (.error "Core evidence is invalid.")
  else if stored.any fun item => !(incoming.any fun e => e.toEvidence == item) then
    .error (.conflict "Core changed the immutable evidence manifest.")
  else if frozen ∧ stored.length ≠ incoming.length then
    .error (.conflict "Core changed evidence after owner review.")
  else .ok ()

/-- The state in words. -/
def JobState.words (s : JobState) : JsString :=
  JsString.ofText (s.text.map fun c => if c = '_' then ' ' else c)

/-- `coreSnapshotAlreadyMirrored`, of a snapshot whose fields were completed. -/
def coreSnapshotAlreadyMirrored (current : JobRow) (evidence : List Evidence)
    (currentCoreRevision : Option Int) (snapshot : CoreSnapshot) : Bool :=
  currentCoreRevision == some snapshot.coreRevision && current.state == snapshot.state &&
    current.summary == (snapshot.summary.trim.take 2000) &&
    current.proposalDigest == (snapshot.proposalDigest <|> current.proposalDigest) &&
    current.sourceDigest == (snapshot.sourceDigest <|> current.sourceDigest) &&
    current.approvalConsumed == snapshot.approvalConsumed &&
    approvalProposalsEqual current.approvalProposal
      (snapshot.approvalProposal <|> current.approvalProposal) &&
    evidence.length == snapshot.evidence.length &&
    snapshot.evidence.all fun item => evidence.any fun stored => stored == item.toEvidence

/-- The evidence row for a descriptor, `none` where it is not valid. -/
def evidenceRow (e : CoreEvidence) : Option Evidence := do
  if validEvidenceId e.id = false then none
  else do
    let filename ← safeSourceFilename e.filename
    let mediaType ← sourceMediaType e.mediaType
    if isSafeInteger e.sizeBytes = true ∧ 0 ≤ e.sizeBytes ∧ e.sizeBytes ≤ maxEngineeringEvidenceBytes ∧
        JsString.hexOf 64 e.sha256 = true then some { e.toEvidence with filename, mediaType }
    else none

/-- The batch of `applyCoreSnapshot`. -/
structure SnapshotWrite where
  readRevision : Nat
  state : JobState
  summary : JsString
  proposalDigest : Option JsString
  sourceDigest : Option JsString
  approvalProposal : Option ApprovalProposal
  approvalConsumed : Bool
  coreRevision : Int
  evidence : List Evidence

/-- What `applyCoreSnapshot` decides on what it read: the batch it runs, or `none` where the
snapshot was mirrored before. -/
def applyCoreSnapshot (r : Runtime) (current : JobRow) (stored : List Evidence)
    (currentCoreRevision : Option Int) (decisionIntent : Option DecisionIntent) (snapshot : CoreSnapshot) :
    Except EngineeringError (Option SnapshotWrite) :=
  if isSafeInteger snapshot.coreRevision = false ∨ snapshot.coreRevision < 0 then
    .error (.error "Core job state is invalid.")
  else if currentCoreRevision.any fun c => decide (snapshot.coreRevision < c) then
    .error (.conflict "Core reported a stale job revision.")
  else do
    appendOnlyEvidenceManifest stored snapshot.evidence (current.approvalProposal.isSome ||
      decide (current.state = .awaitingApproval) || current.approvalConsumed)
    let trimmed := snapshot.summary.trim.take 2000
    let summary := if trimmed = [] then snapshot.state.words else trimmed
    let proposalDigest := snapshot.proposalDigest <|> current.proposalDigest
    let sourceDigest := snapshot.sourceDigest <|> current.sourceDigest
    if sourceDigest.any fun d => !JsString.hexOf 64 d then
      .error (.error "Core source digest is invalid.")
    else if current.sourceDigest.any fun d => decide (d ≠ []) && decide (sourceDigest ≠ some d) then
      .error (.conflict "Core reported a different frozen source digest.")
    else if snapshot.approvalProposal.any fun p => !p.admits r then
      .error (.error "Core approval proposal is invalid.")
    else
      let approvalProposal := snapshot.approvalProposal <|> current.approvalProposal
      if approvalProposal.any fun p => decide (some p.proposalDigest ≠ proposalDigest) ||
          decide (some p.sourceDigest ≠ sourceDigest) then
        .error (.error "Core approval proposal is invalid.")
      else if current.approvalProposal.isSome ∧
          approvalProposalsEqual current.approvalProposal approvalProposal = false then
        .error (.conflict "Core reported a different immutable approval proposal.")
      else
        let approvedIntent := match decisionIntent, proposalDigest with
          | some intent, some digest => decide (intent.decision = .approve) && decide (digest ≠ []) &&
              decide (intent.proposalDigest = digest)
          | _, _ => false
        if current.approvalConsumed = false ∧ snapshot.approvalConsumed = true ∧
            (approvedIntent = false ∨ current.state ≠ .applying ∨ snapshot.state ≠ .completed) then
          .error (.conflict "Core claimed approval without the exact durable owner decision.")
        else if approvalProposal.isSome ∧ snapshot.state = .applying ∧
            (approvedIntent = false ∨ snapshot.approvalConsumed = true) then
          .error (.conflict "Core reported an invalid pending export.")
        else if approvalProposal.isSome ∧ snapshot.state = .completed ∧
            (approvedIntent = false ∨ snapshot.approvalConsumed = false) then
          .error (.conflict "Core did not consume the exact approved proposal.")
        else
          let approvalConsumed := current.approvalConsumed || snapshot.approvalConsumed
          if coreSnapshotAlreadyMirrored current stored currentCoreRevision
              { snapshot with summary, proposalDigest, sourceDigest, approvalProposal, approvalConsumed } then
            .ok none
          else if currentCoreRevision = some snapshot.coreRevision then
            .error (.conflict "Core changed a snapshot without advancing its revision.")
          else if coreSnapshotTransitionAllowed current.state snapshot.state
              (decisionAuthorizesCoreState decisionIntent current.proposalDigest snapshot.state) = false then
            .error (.conflict "Core reported an invalid job transition.")
          else match snapshot.evidence.mapM evidenceRow with
            | none => .error (.error "Core evidence is invalid.")
            | some evidence => .ok (some
                { readRevision := current.revision, state := snapshot.state, summary, proposalDigest
                  sourceDigest, approvalProposal, approvalConsumed
                  coreRevision := snapshot.coreRevision, evidence })

namespace Database

variable (db : Database)

/-- `INSERT OR IGNORE INTO engineering_evidence`. -/
def insertEvidence (e : Evidence) : Database :=
  if db.evidence.contains e.id ∨ e.id ∈ db.otherEvidence then db
  else { db with evidence := db.evidence.set e.id e }

/-- The `UPDATE` of a snapshot applies. -/
def snapshotApplies (w : SnapshotWrite) : Bool :=
  decide (db.job.revision = w.readRevision) && db.job.coreRevision.all fun c => decide (c ≤ w.coreRevision)

/-- The `UPDATE` of a snapshot. -/
def updateSnapshot (w : SnapshotWrite) : Database :=
  if db.snapshotApplies w then { db with job := { db.job with
    state := w.state
    summary := w.summary
    proposalDigest := w.proposalDigest
    sourceDigest := w.sourceDigest
    approvalProposal := w.approvalProposal
    approvalConsumed := w.approvalConsumed
    coreRevision := some w.coreRevision
    revision := db.job.revision + 1 } }
  else db

/-- The batch of a snapshot. The evidence goes in wherever the row is at the revision the
`UPDATE` would leave, whoever left it there. -/
def applySnapshot (w : SnapshotWrite) : Database :=
  let db := db.updateSnapshot w
  if db.job.revision = w.readRevision + 1 ∧ db.job.coreRevision = some w.coreRevision then
    w.evidence.foldl insertEvidence db
  else db

/-- The batch of `recordDecisionIntent`, `none` where the `UPDATE` changes nothing. -/
def recordDecisionIntent (expectedRevision : Int) (intent : DecisionIntent) : Option Database :=
  if db.job.revision = expectedRevision ∧ db.job.state = .awaitingApproval ∧
      db.job.proposalDigest = some intent.proposalDigest ∧
      (db.job.authorized = none ∨ db.job.authorized = some intent) then
    some { db with job := { db.job with authorized := some intent } }
  else none

/-- The batch of `transition`, `none` where the `UPDATE` changes nothing. -/
def transition (next : JobState) (expectedRevision : Int) (summary : JsString) : Option Database :=
  if db.job.revision = expectedRevision then
    some { db with job := { db.job with state := next, summary, revision := db.job.revision + 1 } }
  else none

/-- The batch of `reserveDispatch`, `none` where the `UPDATE` changes nothing. -/
def reserveDispatch (expectedRevision : Int) (reservedAt : JsString) : Option Database :=
  if db.job.revision = expectedRevision ∧ db.job.state = .queued ∧ db.job.remoteJobId = none ∧
      db.job.dispatchReservedAt = none then
    some { db with job := { db.job with
      dispatchReservedAt := some reservedAt
      summary := JsString.ofText "Dispatch reserved for private core reconciliation."
      revision := db.job.revision + 1 } }
  else none

/-- The batch of `setRemoteJob`, `none` where the `UPDATE` changes nothing. -/
def setRemoteJob (expectedRevision : Int) (remoteJobId summary : JsString) : Option Database :=
  if db.job.revision = expectedRevision ∧ db.job.remoteJobId = none ∧
      db.job.dispatchReservedAt ≠ none then
    some { db with job := { db.job with
      remoteJobId := some remoteJobId
      dispatchReservedAt := none
      summary := summary.take 2000
      revision := db.job.revision + 1 } }
  else none

/-- The `UPDATE` of the job in `markSourceUploaded`; `ready` where no source is missing any more. -/
def sourceUploaded (ready : Bool) : Database :=
  if db.job.state = .uploading then
    { db with job := { db.job with
      state := if ready then .queued else db.job.state
      summary := if ready then JsString.ofText "Ready for secure dispatch." else db.job.summary
      revision := db.job.revision + 1 } }
  else db

end Database

end LilTweak.Worker
