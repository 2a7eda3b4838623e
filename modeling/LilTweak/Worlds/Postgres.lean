import LilTweak.Worlds.Memory

/-!
# The PostgreSQL Test World store

`PostgresTestWorldStore` as the two tables of migration 003, one call a
transaction: an operation returns its answer and the tables it commits, or it
raises and nothing is written. Every `INSERT` and `UPDATE` evaluates the `CHECK`
constraints of the row it writes. `t` is the time passed as `now`, or the
database's `now()` where the statement uses that.
-/

namespace LilTweak.Worlds

open LilTweak.Lib LilTweak.Core LilTweak.Store

/-- What a column holds of a value written to it or compared with it; `none` when the
driver or the database refuses the value. Text is held as it is, and a `jsonb` array
has as many elements as the array it was read from. -/
structure Columns where
  text : String → Option String
  jsonbChecks : List TestCheck → Option (List TestCheck)
  jsonbFeedback : List JsonObj → Option (List JsonObj)
  timestamptz : Time → Option Time
  text_exact : ∀ s v, text s = some v → v = s
  checks_length : ∀ l v, jsonbChecks l = some v → v.length = l.length
  feedback_length : ∀ l v, jsonbFeedback l = some v → v.length = l.length

/-- A `bigint` column. -/
@[irreducible]
def bigint (i : Int) : Option Int :=
  if -9223372036854775808 ≤ i ∧ i ≤ 9223372036854775807 then some i else none

/-- A row of `lil_tweak_test_worlds`, less its key. -/
structure WorldRow where
  ownerId : String
  name : String
  objective : String
  repositoryUrl : String
  sourceCommit : String
  checks : List TestCheck
  maxAttempts : Int
  status : WorldStatus
  worldFingerprint : String
  judgeVersion : String
  createIdempotencyKey : String
  requestHash : String
  createdAt : Time
  updatedAt : Time

/-- A row of `lil_tweak_test_world_attempts`, less its key. -/
structure AttemptRow where
  worldId : String
  ownerId : String
  attemptNumber : Nat
  status : AttemptStatus
  attemptMode : AttemptMode
  worldFingerprint : String
  judgeVersion : String
  expectedCheckCount : Nat
  outcome : Option String := none
  previousAttemptId : Option String := none
  feedback : List JsonObj := []
  cumulativePatch : String := ""
  plan : String := ""
  summary : String := ""
  tests : String := ""
  modelCalls : Int := 0
  inputTokens : Int := 0
  outputTokens : Int := 0
  totalTokens : Int := 0
  durationMs : Int := 0
  judgeDurationMs : Int := 0
  attemptIdempotencyKey : String
  leaseOwner : Option String := none
  leaseGeneration : Nat := 0
  leaseExpiresAt : Option Time := none
  createdAt : Time
  startedAt : Option Time := none
  finishedAt : Option Time := none

/-! ## The constraints of migration 003 -/

/-- `id ~ '^tag[0-9a-f]{32}$'`. -/
def taggedHex (tag id : String) : Bool :=
  tag.toList.isPrefixOf id.toList && decide (id.length = tag.length + 32) &&
    (id.toList.drop tag.length).all hexDigit

/-- The `CHECK` constraints of `lil_tweak_test_worlds`. -/
structure WorldRow.Admitted (id : String) (r : WorldRow) : Prop where
  id : taggedHex "world:" id = true
  name : 1 ≤ r.name.length ∧ r.name.length ≤ 240
  objective : 1 ≤ r.objective.length ∧ r.objective.length ≤ 16000
  repositoryUrl : "https://".toList.isPrefixOf r.repositoryUrl.toList = true
  sourceCommit : validCommit r.sourceCommit = true
  checks : 1 ≤ r.checks.length ∧ r.checks.length ≤ 8
  maxAttempts : 1 ≤ r.maxAttempts ∧ r.maxAttempts ≤ 10
  worldFingerprint : validSha256 r.worldFingerprint = true
  judgeVersion : validSha256 r.judgeVersion = true
  createIdempotencyKey : 1 ≤ r.createIdempotencyKey.length ∧ r.createIdempotencyKey.length ≤ 200
  requestHash : validSha256 r.requestHash = true

/-- The `CHECK` constraints of `lil_tweak_test_world_attempts`. -/
structure AttemptRow.Admitted (id : String) (r : AttemptRow) : Prop where
  id : taggedHex "attempt:" id = true
  attemptNumber : 1 ≤ r.attemptNumber ∧ r.attemptNumber ≤ 10
  worldFingerprint : validSha256 r.worldFingerprint = true
  judgeVersion : validSha256 r.judgeVersion = true
  expectedCheckCount : 1 ≤ r.expectedCheckCount ∧ r.expectedCheckCount ≤ 8
  outcome : r.outcome = none ∨ r.outcome ∈ [some "pass", some "fail", some "error"]
  cumulativePatch : r.cumulativePatch.utf8ByteSize ≤ 2097152
  texts : r.plan.utf8ByteSize ≤ 65536 ∧ r.summary.utf8ByteSize ≤ 65536 ∧ r.tests.utf8ByteSize ≤ 65536
  usage : 0 ≤ r.modelCalls ∧ 0 ≤ r.inputTokens ∧ 0 ≤ r.outputTokens ∧ 0 ≤ r.totalTokens
  durationMs : 0 ≤ r.durationMs ∧ r.durationMs ≤ 86400000
  judgeDurationMs : 0 ≤ r.judgeDurationMs ∧ r.judgeDurationMs ≤ 86400000
  attemptIdempotencyKey : 1 ≤ r.attemptIdempotencyKey.length ∧ r.attemptIdempotencyKey.length ≤ 200
  judgeWithin : r.judgeDurationMs ≤ r.durationMs ∨ r.durationMs = 0
  passProof : r.status ≠ .passed ∨ r.feedback.length = r.expectedCheckCount
  ended : (r.status.active = true ∧ r.outcome = none ∧ r.finishedAt = none) ∨
    (r.status.active = false ∧ r.outcome ≠ none ∧ r.finishedAt ≠ none)
  leased : (r.status = .running ∧ r.leaseOwner ≠ none ∧ r.leaseExpiresAt ≠ none) ∨ r.status ≠ .running

instance (id : String) (r : WorldRow) : Decidable (r.Admitted id) :=
  decidable_of_iff (_ ∧ _ ∧ _ ∧ _ ∧ _ ∧ _ ∧ _ ∧ _ ∧ _ ∧ _ ∧ _)
    ⟨fun ⟨h1, h2, h3, h4, h5, h6, h7, h8, h9, h10, h11⟩ =>
      ⟨h1, h2, h3, h4, h5, h6, h7, h8, h9, h10, h11⟩,
     fun ⟨h1, h2, h3, h4, h5, h6, h7, h8, h9, h10, h11⟩ =>
      ⟨h1, h2, h3, h4, h5, h6, h7, h8, h9, h10, h11⟩⟩

instance (id : String) (r : AttemptRow) : Decidable (r.Admitted id) :=
  decidable_of_iff (_ ∧ _ ∧ _ ∧ _ ∧ _ ∧ _ ∧ _ ∧ _ ∧ _ ∧ _ ∧ _ ∧ _ ∧ _ ∧ _ ∧ _ ∧ _)
    ⟨fun ⟨h1, h2, h3, h4, h5, h6, h7, h8, h9, h10, h11, h12, h13, h14, h15, h16⟩ =>
      ⟨h1, h2, h3, h4, h5, h6, h7, h8, h9, h10, h11, h12, h13, h14, h15, h16⟩,
     fun ⟨h1, h2, h3, h4, h5, h6, h7, h8, h9, h10, h11, h12, h13, h14, h15, h16⟩ =>
      ⟨h1, h2, h3, h4, h5, h6, h7, h8, h9, h10, h11, h12, h13, h14, h15, h16⟩⟩

/-- The two tables. -/
structure PostgresTestWorldStore where
  worlds : Dict String WorldRow := ∅
  attempts : Dict String AttemptRow := ∅

/-- `_world_from_row`. -/
def WorldRow.world (id : String) (r : WorldRow) : TestWorld where
  id := id
  ownerId := r.ownerId
  name := r.name
  objective := r.objective
  repositoryUrl := r.repositoryUrl
  commit := r.sourceCommit
  checks := r.checks
  maxAttempts := r.maxAttempts
  status := r.status
  fingerprint := r.worldFingerprint
  judgeVersion := r.judgeVersion
  createdAt := r.createdAt
  updatedAt := r.updatedAt

/-- `_attempt_from_row`. -/
def AttemptRow.attempt (id : String) (r : AttemptRow) : TestWorldAttempt where
  id := id
  worldId := r.worldId
  ownerId := r.ownerId
  number := r.attemptNumber
  status := r.status
  mode := r.attemptMode
  worldFingerprint := r.worldFingerprint
  judgeVersion := r.judgeVersion
  outcome := r.outcome
  previousAttemptId := r.previousAttemptId
  feedback := r.feedback
  cumulativePatch := r.cumulativePatch
  plan := r.plan
  summary := r.summary
  tests := r.tests
  modelCalls := r.modelCalls
  inputTokens := r.inputTokens
  outputTokens := r.outputTokens
  totalTokens := r.totalTokens
  durationMs := r.durationMs
  judgeDurationMs := r.judgeDurationMs
  createdAt := r.createdAt
  startedAt := r.startedAt
  finishedAt := r.finishedAt

/-! ## What the statements write -/

/-- The row of an attempt that is queued again. -/
def AttemptRow.requeued (row : AttemptRow) : AttemptRow :=
  { row with status := .queued, startedAt := none, leaseOwner := none, leaseExpiresAt := none }

/-- The row of an attempt that was claimed. -/
def AttemptRow.claimed (row : AttemptRow) (workerId : String) (expiresAt now : Time) : AttemptRow :=
  { row with
    status := .running
    leaseOwner := some workerId
    leaseGeneration := row.leaseGeneration + 1
    leaseExpiresAt := some expiresAt
    startedAt := row.startedAt.or (some now) }

/-- The row `release_attempt` writes. -/
def AttemptRow.released (row : AttemptRow) : AttemptRow :=
  { row with leaseOwner := none, leaseExpiresAt := none }

/-- The row of a judged attempt. -/
def AttemptRow.judged (row : AttemptRow) (r : AttemptResult) (now : Time) : AttemptRow :=
  { row with
    status := if r.passed then .passed else .failed
    outcome := some (if r.passed then "pass" else "fail")
    feedback := r.feedback
    cumulativePatch := r.cumulativePatch
    plan := r.plan
    summary := r.summary
    tests := r.tests
    modelCalls := r.modelCalls
    inputTokens := r.inputTokens
    outputTokens := r.outputTokens
    totalTokens := r.totalTokens
    durationMs := r.durationMs
    judgeDurationMs := r.judgeDurationMs
    finishedAt := some now
    leaseOwner := none
    leaseExpiresAt := none }

/-- The row of an attempt that ended in an error. -/
def AttemptRow.errored (row : AttemptRow) (e : AttemptError) (now : Time) : AttemptRow :=
  { row with
    status := .error
    outcome := some "error"
    feedback := e.feedback
    summary := e.summary
    durationMs := e.durationMs
    finishedAt := some now
    leaseOwner := none
    leaseExpiresAt := none }

/-- The value a column holds, or the error of the database. -/
def held {α : Type} : Option α → Except TestWorldFault α
  | some a => .ok a
  | none => .error .dataError

namespace PostgresTestWorldStore

variable (D : Digests) (float : ℚ → String) (cols : Columns) (T : PostgresTestWorldStore)

/-! ## Statements -/

/-- The row a statement writes, if it satisfies the constraints of its table. -/
def putWorld (id : String) (row : WorldRow) : Except TestWorldFault PostgresTestWorldStore :=
  if row.Admitted id then .ok { T with worlds := T.worlds.set id row } else .error .checkViolation

/-- The row a statement writes, if it satisfies the constraints of its table. -/
def putAttempt (id : String) (row : AttemptRow) : Except TestWorldFault PostgresTestWorldStore :=
  if row.Admitted id then .ok { T with attempts := T.attempts.set id row } else .error .checkViolation

/-- `INSERT INTO lil_tweak_test_worlds`. -/
def insertWorld (id : String) (row : WorldRow) : Except TestWorldFault PostgresTestWorldStore := do
  let U ← T.putWorld id row
  if T.worlds.contains id ∨ T.worlds.values.any fun r =>
      r.ownerId == row.ownerId && r.createIdempotencyKey == row.createIdempotencyKey then
    .error .keyViolation
  else .ok U

/-- `INSERT INTO lil_tweak_test_world_attempts`. -/
def insertAttempt (id : String) (row : AttemptRow) : Except TestWorldFault PostgresTestWorldStore := do
  let U ← T.putAttempt id row
  if T.attempts.contains id ∨ T.worlds.contains row.worldId = false ∨ T.attempts.values.any fun r =>
      (r.ownerId == row.ownerId && r.attemptIdempotencyKey == row.attemptIdempotencyKey) ||
      (r.worldId == row.worldId && r.attemptNumber == row.attemptNumber) then
    .error .keyViolation
  else .ok U

/-- `UPDATE lil_tweak_test_worlds SET status=…,updated_at=… WHERE id=%s AND owner_id=%s`. -/
def updateStatus (worldId ownerId : String) (status : WorldStatus) (t : Time) :
    Except TestWorldFault PostgresTestWorldStore :=
  match T.worlds.get? worldId with
  | some row =>
    if row.ownerId = ownerId then T.putWorld worldId { row with status, updatedAt := t } else .ok T
  | none => .ok T

/-- `_fetch_world`. -/
def fetchWorld (worldId ownerId : String) : Except TestWorldFault TestWorld :=
  match T.worlds.get? worldId with
  | some row => if row.ownerId = ownerId then .ok (row.world worldId) else .error (.notFound "world not found")
  | none => .error (.notFound "world not found")

/-- `_fetch_attempt`. -/
def fetchAttempt (attemptId ownerId : String) : Except TestWorldFault TestWorldAttempt :=
  match T.attempts.get? attemptId with
  | some row =>
    if row.ownerId = ownerId then .ok (row.attempt attemptId) else .error (.notFound "attempt not found")
  | none => .error (.notFound "attempt not found")

/-- The strings of a lease as parameters. -/
def leaseColumns (lease : TestWorldLease) : Except TestWorldFault TestWorldLease := do
  let attemptId ← held (cols.text lease.attemptId)
  let worldId ← held (cols.text lease.worldId)
  let ownerId ← held (cols.text lease.ownerId)
  let workerId ← held (cols.text lease.workerId)
  .ok { lease with attemptId, worldId, ownerId, workerId }

/-! ## Operations -/

/-- The first world of an owner under an idempotency key. -/
def worldUnder (ownerId key : String) : Option (String × WorldRow) :=
  T.worlds.entries.find? fun e => e.2.ownerId == ownerId && e.2.createIdempotencyKey == key

/-- `create_world`. -/
def createWorld (ownerId idempotencyKey : String) (d : WorldDefinition) (uuid : Uuid) (t : Time) :
    Except TestWorldFault (TestWorld × PostgresTestWorldStore) :=
  if definitionAdmits ownerId idempotencyKey d = false then
    .error (.valueError "invalid test world definition")
  else do
    let ownerId ← held (cols.text ownerId)
    let createIdempotencyKey ← held (cols.text idempotencyKey)
    match T.worldUnder ownerId createIdempotencyKey with
    | some (worldId, existing) =>
      if existing.requestHash ≠ D.worldFingerprint d then .error (.conflict "idempotency key reused")
      else (T.fetchWorld worldId ownerId).map fun world => (world, T)
    | none => do
      let name ← held (cols.text (strip d.name))
      let objective ← held (cols.text (strip d.objective))
      let repositoryUrl ← held (cols.text d.repositoryUrl)
      let checks ← held (cols.jsonbChecks d.checks)
      let id ← held (cols.text ("world:" ++ uuid.hex))
      let U ← T.insertWorld id
        { ownerId, name, objective, repositoryUrl, sourceCommit := d.commit, checks
          maxAttempts := d.maxAttempts, status := .ready, worldFingerprint := D.worldFingerprint d
          judgeVersion := D.judgeVersion d.checks, createIdempotencyKey
          requestHash := D.worldFingerprint d, createdAt := t, updatedAt := t }
      let world ← U.fetchWorld id ownerId
      .ok (world, U)

/-- `get_world`. -/
def getWorld (worldId ownerId : String) : Except TestWorldFault (Option TestWorld) := do
  let worldId ← held (cols.text worldId)
  let ownerId ← held (cols.text ownerId)
  .ok (((T.worlds.get? worldId).filter fun row => row.ownerId == ownerId).map (WorldRow.world worldId))

/-- The rows of a world's attempts. -/
def worldRows (worldId ownerId : String) : List (String × AttemptRow) :=
  T.attempts.entries.filter fun e => e.2.worldId == worldId && e.2.ownerId == ownerId

def numberUp (a b : String × AttemptRow) : Prop := a.2.attemptNumber ≤ b.2.attemptNumber

instance : DecidableRel numberUp := fun _ _ => inferInstanceAs (Decidable (_ ≤ _))

def numberDown (a b : String × AttemptRow) : Prop := b.2.attemptNumber ≤ a.2.attemptNumber

instance : DecidableRel numberDown := fun _ _ => inferInstanceAs (Decidable (_ ≤ _))

/-- `list_attempts`. -/
def listAttempts (worldId ownerId : String) : Except TestWorldFault (List TestWorldAttempt) := do
  let worldId ← held (cols.text worldId)
  let ownerId ← held (cols.text ownerId)
  let _ ← T.fetchWorld worldId ownerId
  .ok (((T.worldRows worldId ownerId).insertionSort numberUp).map fun e => e.2.attempt e.1)

/-- The first attempt of an owner under an idempotency key. -/
def attemptUnder (ownerId key : String) : Option (String × AttemptRow) :=
  T.attempts.entries.find? fun e => e.2.ownerId == ownerId && e.2.attemptIdempotencyKey == key

/-- `enqueue_attempt`. -/
def enqueueAttempt (worldId ownerId idempotencyKey mode : String) (uuid : Uuid) (t : Time) :
    Except TestWorldFault (TestWorldAttempt × PostgresTestWorldStore) :=
  if keyAdmits idempotencyKey = false then .error (.valueError "invalid idempotency key")
  else match AttemptMode.ofValue? mode with
  | none => .error (.valueError "invalid attempt mode")
  | some attemptMode => do
    let ownerId ← held (cols.text ownerId)
    let attemptIdempotencyKey ← held (cols.text idempotencyKey)
    match T.attemptUnder ownerId attemptIdempotencyKey with
    | some (attemptId, existing) =>
      if existing.worldId ≠ worldId ∨ existing.attemptMode ≠ attemptMode then
        .error (.conflict "idempotency key reused")
      else (T.fetchAttempt attemptId ownerId).map fun attempt => (attempt, T)
    | none => do
      let worldId ← held (cols.text worldId)
      let world ← T.fetchWorld worldId ownerId
      if world.status.closed then .error (.limitReached "world cannot accept another attempt")
      else
        let rows := (T.worldRows worldId ownerId).insertionSort numberDown
        if rows.any fun e => e.2.status.active then
          .error (.conflict "world already has an active attempt")
        else if (rows.length : Int) ≥ world.maxAttempts then
          .error (.limitReached "attempt budget exhausted")
        else do
          let id ← held (cols.text ("attempt:" ++ uuid.hex))
          let U ← T.insertAttempt id
            { worldId, ownerId, attemptNumber := rows.length + 1, status := .queued, attemptMode
              worldFingerprint := world.fingerprint, judgeVersion := world.judgeVersion
              expectedCheckCount := world.checks.length, previousAttemptId := rows.head?.map Prod.fst
              attemptIdempotencyKey, createdAt := t }
          let U ← U.updateStatus worldId ownerId .running t
          let attempt ← U.fetchAttempt id ownerId
          .ok (attempt, U)

/-- `lease_expires_at IS NULL OR lease_expires_at<=to_timestamp(now)`. -/
def expired (row : AttemptRow) (now : Time) : Bool :=
  row.leaseExpiresAt.all fun expiresAt => decide (expiresAt ≤ now)

def rowBefore (a b : String × AttemptRow) : Prop := attemptBefore (a.2.attempt a.1) (b.2.attempt b.1)

instance : DecidableRel rowBefore := fun a b =>
  inferInstanceAs (Decidable (attemptBefore (a.2.attempt a.1) (b.2.attempt b.1)))

/-- The rows in a status whose lease has run out, oldest first. -/
def expiredRows (status : AttemptStatus) (now : Time) : List (String × AttemptRow) :=
  (T.attempts.entries.insertionSort rowBefore).filter fun e => e.2.status == status && expired e.2 now

/-- `list_schedulable_attempts`. -/
def listSchedulableAttempts (limit : Int) (t : Time) : Except TestWorldFault (List TestWorldAttempt) :=
  if ¬(1 ≤ limit ∧ limit ≤ 1000) then .error (.valueError "invalid scheduler limit")
  else do
    let now ← held (cols.timestamptz t)
    .ok (((T.expiredRows .queued now).take limit.toNat).map fun e => e.2.attempt e.1)

/-- `reconcile_active_attempts`; the rows are returned in the order they were selected. -/
def reconcileActiveAttempts (limit : Int) (t : Time) :
    Except TestWorldFault (List TestWorldAttempt × PostgresTestWorldStore) :=
  if ¬(1 ≤ limit ∧ limit ≤ 1000) then .error (.valueError "invalid scheduler limit")
  else do
    let now ← held (cols.timestamptz t)
    let candidates := (T.expiredRows .running now).take limit.toNat
    let U ← candidates.foldlM (fun U e => U.putAttempt e.1 (e.2.requeued)) T
    candidates.foldlM (fun r e => do
      let U ← r.2.updateStatus e.2.worldId e.2.ownerId .running now
      let attempt ← U.fetchAttempt e.1 e.2.ownerId
      .ok (r.1 ++ [attempt], U)) ([], U)

/-- `claim_attempt`. -/
def claimAttempt (attemptId workerId : String) (leaseSeconds : Int) (t : Time) :
    Except TestWorldFault (Option TestWorldLease × PostgresTestWorldStore) :=
  if workerId = "" ∨ leaseSeconds ≤ 0 then .error (.valueError "invalid lease")
  else do
    let workerId ← held (cols.text workerId)
    let expiresAt ← held (cols.timestamptz (t + leaseSeconds))
    let now ← held (cols.timestamptz t)
    let attemptId ← held (cols.text attemptId)
    match T.attempts.get? attemptId with
    | none => .ok (none, T)
    | some row =>
      if row.status ≠ .queued ∨ expired row now = false then .ok (none, T)
      else do
        let generation ← held (bigint (row.leaseGeneration + 1))
        let U ← T.putAttempt attemptId (row.claimed workerId expiresAt now)
        let U ← U.updateStatus row.worldId row.ownerId .running now
        .ok (some { attemptId, worldId := row.worldId, ownerId := row.ownerId, workerId, generation
                    expiresAt }, U)

/-- The row is leased to the holder of the lease. -/
def leasedTo (row : AttemptRow) (lease : TestWorldLease) : Bool :=
  row.ownerId == lease.ownerId && row.leaseOwner == some lease.workerId &&
    (row.leaseGeneration : Int) == lease.generation

/-- `renew_attempt`. -/
def renewAttempt (lease : TestWorldLease) (leaseSeconds : Int) (t : Time) :
    Except TestWorldFault (TestWorldLease × PostgresTestWorldStore) :=
  if leaseSeconds ≤ 0 then .error (.valueError "invalid lease")
  else do
    let expiresAt ← held (cols.timestamptz (t + leaseSeconds))
    let now ← held (cols.timestamptz t)
    let bound ← leaseColumns cols lease
    match T.attempts.get? bound.attemptId with
    | none => .error (.conflict "stale attempt lease")
    | some row =>
      if leasedTo row bound = false ∨ row.worldId ≠ bound.worldId ∨ row.status ≠ .running ∨
          expired row now = true then .error (.conflict "stale attempt lease")
      else do
        let U ← T.putAttempt bound.attemptId { row with leaseExpiresAt := some expiresAt }
        .ok ({ lease with expiresAt }, U)

/-- `release_attempt`. -/
def releaseAttempt (lease : TestWorldLease) : Except TestWorldFault (Unit × PostgresTestWorldStore) := do
  let attemptId ← held (cols.text lease.attemptId)
  let ownerId ← held (cols.text lease.ownerId)
  let workerId ← held (cols.text lease.workerId)
  match T.attempts.get? attemptId with
  | none => .ok ((), T)
  | some row =>
    if leasedTo row { lease with ownerId, workerId } = false then .ok ((), T)
    else do
      let U ← T.putAttempt attemptId row.released
      .ok ((), U)

/-- The running row a lease lets its holder end, `FOR UPDATE`. -/
def leasedRow (lease : TestWorldLease) : Except TestWorldFault AttemptRow :=
  match T.attempts.get? lease.attemptId with
  | none => .error (.conflict "stale attempt lease")
  | some row =>
    if leasedTo row lease = true ∧ row.worldId = lease.worldId ∧ row.status = .running then .ok row
    else .error (.conflict "stale attempt lease")

/-- The recorded result as its columns hold it. -/
def resultColumns (r : AttemptResult) : Except TestWorldFault AttemptResult := do
  let feedback ← held (cols.jsonbFeedback r.feedback)
  let cumulativePatch ← held (cols.text r.cumulativePatch)
  let plan ← held (cols.text r.plan)
  let summary ← held (cols.text r.summary)
  let tests ← held (cols.text r.tests)
  let modelCalls ← held (bigint r.modelCalls)
  let inputTokens ← held (bigint r.inputTokens)
  let outputTokens ← held (bigint r.outputTokens)
  let totalTokens ← held (bigint r.totalTokens)
  .ok { r with feedback, cumulativePatch, plan, summary, tests, modelCalls, inputTokens, outputTokens
               totalTokens }

/-- `complete_attempt`. -/
def completeAttempt (lease : TestWorldLease) (c : CompleteCall) (t : Time) :
    Except TestWorldFault (TestWorldAttempt × PostgresTestWorldStore) := do
  let result ← c.validate float
  let lease ← leaseColumns cols lease
  let row ← T.leasedRow lease
  let world ← T.fetchWorld lease.worldId lease.ownerId
  if row.worldFingerprint ≠ world.fingerprint ∨ row.judgeVersion ≠ world.judgeVersion then
    .error (.conflict "attempt challenge version mismatch")
  else if result.passed = true ∧ hasCompletePassProof world result.feedback = false then
    .error (.conflict "pass requires complete judge proof")
  else do
    let set ← resultColumns cols result
    let now ← held (cols.timestamptz t)
    let U ← T.putAttempt lease.attemptId (row.judged set now)
    let U ← U.updateStatus lease.worldId lease.ownerId
      (judgedStatus result.passed row.attemptNumber world.maxAttempts) now
    let attempt ← U.fetchAttempt lease.attemptId lease.ownerId
    .ok (attempt, U)

/-- `fail_attempt`. -/
def failAttempt (lease : TestWorldLease) (c : FailCall) (t : Time) :
    Except TestWorldFault (TestWorldAttempt × PostgresTestWorldStore) := do
  let error ← c.validate float
  let lease ← leaseColumns cols lease
  let row ← T.leasedRow lease
  let world ← T.fetchWorld lease.worldId lease.ownerId
  let feedback ← held (cols.jsonbFeedback error.feedback)
  let summary ← held (cols.text error.summary)
  let now ← held (cols.timestamptz t)
  let U ← T.putAttempt lease.attemptId (row.errored { error with feedback, summary } now)
  let U ← U.updateStatus lease.worldId lease.ownerId
    (erroredStatus c.blocked row.attemptNumber world.maxAttempts) now
  let attempt ← U.fetchAttempt lease.attemptId lease.ownerId
  .ok (attempt, U)

/-- Run one call against the tables. -/
def call (t : Time) : Call → Except TestWorldFault (Answer × PostgresTestWorldStore)
  | .createWorld owner key d uuid => wrap .world (T.createWorld D cols owner key d uuid t)
  | .enqueueAttempt worldId owner key mode uuid =>
    wrap .attempt (T.enqueueAttempt cols worldId owner key mode uuid t)
  | .reconcileActiveAttempts limit => wrap .attempts (T.reconcileActiveAttempts cols limit t)
  | .claimAttempt attemptId worker seconds =>
    wrap .claim (T.claimAttempt cols attemptId worker seconds t)
  | .renewAttempt lease seconds => wrap .lease (T.renewAttempt cols lease seconds t)
  | .releaseAttempt lease => wrap (fun _ => .unit) (T.releaseAttempt cols lease)
  | .completeAttempt lease c => wrap .attempt (T.completeAttempt float cols lease c t)
  | .failAttempt lease c => wrap .attempt (T.failAttempt float cols lease c t)

end PostgresTestWorldStore

end LilTweak.Worlds
