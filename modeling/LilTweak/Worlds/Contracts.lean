import LilTweak.Core.Dumps
import LilTweak.Store.Types

/-!
# Test World contracts

The records of Test Worlds, the leases on their attempts, and the validation that
both store adapters share. Text a caller may hand over with lone surrogates is a
`PyStr`; encoding it raises a `UnicodeEncodeError`, which is a `ValueError`.
-/

namespace LilTweak.Worlds

open LilTweak.Lib LilTweak.Core LilTweak.Store

/-- What a store operation can raise. The three `TestWorldError` subclasses come
first; the last three are raised by the database. -/
inductive TestWorldFault
  | conflict (message : String)
  | notFound (message : String)
  | limitReached (message : String)
  | valueError (message : String)
  | keyError
  | checkViolation
  | keyViolation
  | dataError
  deriving DecidableEq

inductive WorldStatus
  | ready | running | failed | passed | exhausted | blocked
  deriving DecidableEq, Repr

inductive AttemptStatus
  | queued | running | passed | failed | error
  deriving DecidableEq, Repr

inductive AttemptMode
  | retry | fresh
  deriving DecidableEq, Repr

/-- `AttemptMode(mode)`, `none` where it raises. -/
def AttemptMode.ofValue? (mode : String) : Option AttemptMode :=
  if mode = "retry" then some .retry else if mode = "fresh" then some .fresh else none

/-- `TestCheck.__post_init__` accepts the fields. -/
def checkAdmits (name : String) (command : List String) (timeoutSeconds : Int) : Bool :=
  strip name ≠ "" && decide (name.utf8ByteSize ≤ 200) &&
    decide (1 ≤ command.length ∧ command.length ≤ 128) &&
    command.all (fun part => part ≠ "" && decide (part.utf8ByteSize ≤ 4096)) &&
    decide (1 ≤ timeoutSeconds ∧ timeoutSeconds ≤ 1200)

structure TestCheck where
  name : String
  command : List String
  timeoutSeconds : Int := 120
  valid : checkAdmits name command timeoutSeconds = true
  deriving DecidableEq

structure TestWorld where
  id : String
  ownerId : String
  name : String
  objective : String
  repositoryUrl : String
  commit : String
  checks : List TestCheck
  maxAttempts : Int
  status : WorldStatus
  fingerprint : String
  judgeVersion : String
  createdAt : Time
  updatedAt : Time

structure TestWorldAttempt where
  id : String
  worldId : String
  ownerId : String
  number : Nat
  status : AttemptStatus
  worldFingerprint : String
  judgeVersion : String
  mode : AttemptMode := .retry
  outcome : Option String := none
  previousAttemptId : Option String := none
  feedback : List JsonObj := []
  cumulativePatch : String := ""
  plan : String := ""
  summary : String := ""
  tests : String := ""
  modelCalls : Int := 0
  inputTokens : Int := 0
  outputTokens : Int := 0
  totalTokens : Int := 0
  durationMs : Int := 0
  judgeDurationMs : Int := 0
  createdAt : Time := 0
  startedAt : Option Time := none
  finishedAt : Option Time := none

structure TestWorldLease where
  attemptId : String
  worldId : String
  ownerId : String
  workerId : String
  generation : Int
  expiresAt : Time
  deriving DecidableEq

/-- What `uuid.uuid4().hex` returns. -/
structure Uuid where
  hex : String
  length : hex.length = 32
  digits : hex.toList.all hexDigit = true
  deriving DecidableEq

/-- The arguments of `create_world` that define the world. -/
structure WorldDefinition where
  name : String
  objective : String
  repositoryUrl : String
  commit : String
  checks : List TestCheck
  maxAttempts : Int := 5

/-- SHA-256 of the canonical JSON of a definition and of its checks, in hexadecimal. -/
structure Digests where
  worldFingerprint : WorldDefinition → String
  judgeVersion : List TestCheck → String
  fingerprint_hex : ∀ d, validSha256 (worldFingerprint d) = true
  judge_hex : ∀ c, validSha256 (judgeVersion c) = true

/-! ## Validation -/

/-- `_COMMIT.fullmatch`. -/
def validCommit (commit : String) : Bool :=
  decide (commit.length = 40 ∨ commit.length = 64) && commit.toList.all hexDigit

/-- The condition on an idempotency key. -/
def keyAdmits (key : String) : Bool := key ≠ "" && decide (key.utf8ByteSize ≤ 200)

/-- `_validate_world_definition` accepts the arguments. -/
def definitionAdmits (ownerId idempotencyKey : String) (d : WorldDefinition) : Bool :=
  ownerId ≠ "" && keyAdmits idempotencyKey &&
    strip d.name ≠ "" && decide (d.name.utf8ByteSize ≤ 240) &&
    strip d.objective ≠ "" && decide (d.objective.utf8ByteSize ≤ 16000) &&
    "https://".toList.isPrefixOf d.repositoryUrl.toList &&
    decide (d.repositoryUrl.utf8ByteSize ≤ 2048) &&
    validCommit d.commit && decide (1 ≤ d.checks.length ∧ d.checks.length ≤ 8) &&
    decide (1 ≤ d.maxAttempts ∧ d.maxAttempts ≤ 10)

/-- `_MAX_PATCH_BYTES`. -/
def maxPatchBytes : Nat := 2 * 1024 * 1024
/-- `_MAX_FEEDBACK_BYTES`. -/
def maxFeedbackBytes : Nat := 256 * 1024
/-- `_MAX_DURATION_MS`. -/
def maxDurationMs : Int := 24 * 60 * 60 * 1000
/-- The bound on the plan, the summary and the tests. -/
def maxTextBytes : Nat := 64 * 1024

/-- The text a `str` encodes to, at most so many bytes of it. -/
def boundedText (s : PyStr) (bound : Nat) (message : String) : Except TestWorldFault String :=
  match s.text? with
  | none => .error (.valueError "surrogates not allowed")
  | some text => if text.utf8ByteSize ≤ bound then .ok text else .error (.valueError message)

/-- The bytes `_validate_feedback` counts. -/
def feedbackBytes (float : ℚ → String) (feedback : List JsonObj) : Nat :=
  (Json.dumps float (.arr (feedback.map fun item => .obj item.entries))).utf8ByteSize

/-- `_validate_feedback`, whose items are well-formed JSON objects. -/
def validateFeedback (float : ℚ → String) (feedback : List JsonObj) :
    Except TestWorldFault (List JsonObj) :=
  if feedbackBytes float feedback ≤ maxFeedbackBytes then .ok feedback
  else .error (.valueError "test world feedback too large")

/-- `_validate_duration`. -/
def validateDuration (value : Int) (field : String) : Except TestWorldFault Int :=
  if 0 ≤ value ∧ value ≤ maxDurationMs then .ok value
  else .error (.valueError ("invalid " ++ field))

/-- `_has_complete_pass_proof`. -/
def hasCompletePassProof (world : TestWorld) (feedback : List JsonObj) : Bool :=
  decide (feedback.length = world.checks.length) &&
    (world.checks.zip feedback).all fun p =>
      Json.isStr p.1.name (p.2.get? "check") && match p.2.get? "passed" with
        | some (.bool true) => true
        | _ => false

/-- The keyword arguments of `complete_attempt`. -/
structure CompleteCall where
  passed : Bool
  feedback : List JsonObj
  cumulativePatch : PyStr
  plan : PyStr := []
  summary : PyStr := []
  tests : PyStr := []
  modelCalls : Int := 0
  inputTokens : Int := 0
  outputTokens : Int := 0
  totalTokens : Int := 0
  durationMs : Int := 0
  judgeDurationMs : Int := 0

/-- The result `complete_attempt` records, past its validation. -/
structure AttemptResult where
  passed : Bool
  feedback : List JsonObj
  cumulativePatch : String
  plan : String
  summary : String
  tests : String
  modelCalls : Int
  inputTokens : Int
  outputTokens : Int
  totalTokens : Int
  durationMs : Int
  judgeDurationMs : Int

/-- The checks `complete_attempt` makes before it reads the store. -/
def CompleteCall.validate (float : ℚ → String) (c : CompleteCall) :
    Except TestWorldFault AttemptResult := do
  let cumulativePatch ← boundedText c.cumulativePatch maxPatchBytes "invalid attempt result"
  let feedback ← validateFeedback float c.feedback
  let durationMs ← validateDuration c.durationMs "duration"
  let judgeDurationMs ← validateDuration c.judgeDurationMs "judge duration"
  if judgeDurationMs > durationMs ∧ durationMs ≠ 0 then
    .error (.valueError "judge duration exceeds attempt duration")
  else do
    let plan ← boundedText c.plan maxTextBytes "invalid attempt text"
    let summary ← boundedText c.summary maxTextBytes "invalid attempt text"
    let tests ← boundedText c.tests maxTextBytes "invalid attempt text"
    if c.modelCalls < 0 ∨ c.inputTokens < 0 ∨ c.outputTokens < 0 ∨ c.totalTokens < 0 then
      .error (.valueError "invalid attempt usage")
    else .ok { passed := c.passed, feedback, cumulativePatch, plan, summary, tests
               modelCalls := c.modelCalls, inputTokens := c.inputTokens
               outputTokens := c.outputTokens, totalTokens := c.totalTokens
               durationMs, judgeDurationMs }

/-- The keyword arguments of `fail_attempt`. -/
structure FailCall where
  feedback : List JsonObj
  summary : PyStr := []
  blocked : Bool := false
  durationMs : Int := 0

/-- The error `fail_attempt` records, past its validation. -/
structure AttemptError where
  feedback : List JsonObj
  summary : String
  durationMs : Int

/-- The checks `fail_attempt` makes before it reads the store. -/
def FailCall.validate (float : ℚ → String) (c : FailCall) : Except TestWorldFault AttemptError := do
  let feedback ← validateFeedback float c.feedback
  let durationMs ← validateDuration c.durationMs "duration"
  let summary ← boundedText c.summary maxTextBytes "invalid attempt text"
  .ok { feedback, summary, durationMs }

/-- The world's status once an attempt is judged. -/
def judgedStatus (passed : Bool) (number : Nat) (maxAttempts : Int) : WorldStatus :=
  if passed then .passed else if (number : Int) ≥ maxAttempts then .exhausted else .failed

/-- The world's status once an attempt ends in an error. -/
def erroredStatus (blocked : Bool) (number : Nat) (maxAttempts : Int) : WorldStatus :=
  if blocked then .blocked else if (number : Int) ≥ maxAttempts then .exhausted else .failed

/-- The statuses in which `enqueue_attempt` refuses. -/
def WorldStatus.closed : WorldStatus → Bool
  | .passed | .exhausted | .blocked => true
  | _ => false

/-- The statuses of an attempt that has not ended. -/
def AttemptStatus.active : AttemptStatus → Bool
  | .queued | .running => true
  | _ => false

/-- The order of `sorted(…, key=lambda item: (item.created_at, item.id))`. -/
def attemptBefore (a b : TestWorldAttempt) : Prop :=
  a.createdAt < b.createdAt ∨ (a.createdAt = b.createdAt ∧ a.id ≤ b.id)

instance : DecidableRel attemptBefore := fun _ _ => inferInstanceAs (Decidable (_ ∨ _))

/-- The recorded result on the attempt. -/
def TestWorldAttempt.judged (a : TestWorldAttempt) (r : AttemptResult) (t : Time) : TestWorldAttempt :=
  { a with
    status := if r.passed then .passed else .failed
    outcome := some (if r.passed then "pass" else "fail")
    feedback := r.feedback
    cumulativePatch := r.cumulativePatch
    plan := r.plan
    summary := r.summary
    tests := r.tests
    modelCalls := r.modelCalls
    inputTokens := r.inputTokens
    outputTokens := r.outputTokens
    totalTokens := r.totalTokens
    durationMs := r.durationMs
    judgeDurationMs := r.judgeDurationMs
    finishedAt := some t }

/-- The recorded error on the attempt. -/
def TestWorldAttempt.errored (a : TestWorldAttempt) (e : AttemptError) (t : Time) : TestWorldAttempt :=
  { a with
    status := .error
    outcome := some "error"
    feedback := e.feedback
    summary := e.summary
    durationMs := e.durationMs
    finishedAt := some t }

end LilTweak.Worlds
