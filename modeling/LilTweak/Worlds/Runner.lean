import LilTweak.Worlds.Runs
import LilTweak.Worlds.Scheduler

/-!
# The Test World runner

`TestWorldAttemptRunner.run_attempt` on the in-memory store. What the callbacks of the
runtime return or raise and what the clocks read are fields of the environment, and so
are the calls other threads make on the store between its own: a heartbeat renews the
lease while the checks run.
-/

namespace LilTweak.Worlds

open LilTweak.Lib LilTweak.Core LilTweak.Store

/-- The fields of `AgentResult` that are recorded. -/
structure AgentResult where
  plan : PyStr
  summary : PyStr
  tests : PyStr
  modelCalls : Int := 0
  inputTokens : Int := 0
  outputTokens : Int := 0
  totalTokens : Int := 0

/-- What the sandbox returns for the command of a check. -/
structure CommandResult where
  exitCode : Option Int
  stdout : String
  stderr : String
  timedOut : Bool := false
  truncated : Bool := false

/-- `passed` of `run_check`. -/
def CommandResult.passed (r : CommandResult) : Bool :=
  r.exitCode == some 0 && !r.timedOut && !r.truncated

/-- `_judge_feedback` of what `run_check` returns. -/
def judgeFeedback (check : TestCheck) (r : CommandResult) : JsonObj :=
  JsonObj.ofFields
    [("check", .str check.name), ("passed", .bool r.passed),
     ("exitCode", match r.exitCode with | some code => .int code | none => .null),
     ("timedOut", .bool r.timedOut), ("truncated", .bool r.truncated), ("stdout", .str r.stdout),
     ("stderr", .str r.stderr)]

/-! ## The prompt -/

/-- `_MAX_PRIOR_FEEDBACK_BYTES`. -/
def maxPriorFeedbackBytes : Nat := 32 * 1024

/-- The longest run of whole characters at the front that fits the bytes. -/
def fittingChars : Nat → List Char → List Char
  | _, [] => []
  | bytes, c :: rest => if c.utf8Size ≤ bytes then c :: fittingChars (bytes - c.utf8Size) rest else []

/-- `data[:bytes].decode("utf-8", "ignore")`. -/
def cutBytes (bytes : Nat) (s : String) : String := String.ofList (fittingChars bytes s.toList)

/-- `_bounded_feedback_json`. -/
def boundedFeedbackJson (float : ℚ → String) (value : Json) : String :=
  let encoded := Json.dumps float value
  if encoded.utf8ByteSize ≤ maxPriorFeedbackBytes then encoded
  else Json.dumps float (.obj [("truncated", .bool true),
    ("preview", .str (cutBytes (maxPriorFeedbackBytes - 128) encoded))])

/-- `_attempt_prompt`. -/
def attemptPrompt (float : ℚ → String) (world : TestWorld) (previous : Option TestWorldAttempt) : String :=
  "\n\n".intercalate (
    ["You are working inside a bounded Tueiq Test World.",
     "Objective: " ++ world.objective,
     "The trusted core, not your self-report, decides success by running deterministic judge checks after you finish.",
     "Do not attempt external actions. Network access is disabled. Make only changes required by the objective."] ++
    match previous with
    | none => []
    | some previous =>
      ["Previous attempt feedback:",
       boundedFeedbackJson float (.arr (previous.feedback.map fun item => .obj item.entries)),
       "Continue from the previous accepted cumulative patch and repair the remaining failures."])

/-! ## One run -/

/-- Milliseconds between two readings, rounded: `int(round((end - start) * 1000))` on floats,
of which only monotonicity is used. -/
structure Rounding where
  ms : ℚ → ℚ → Int
  mono : ∀ a b c d, a ≤ b → b ≤ c → c ≤ d → ms b c ≤ ms a d

/-- `_elapsed_ms`. -/
def Rounding.elapsedMs (r : Rounding) (start stop : ℚ) : Int := max 0 (min 86400000 (r.ms start stop))

/-- What `time.monotonic` reads in the course of a run. -/
structure Readings where
  attemptStarted : ℚ
  judgeStarted : ℚ
  judgeFinished : ℚ
  attemptFinished : ℚ
  failed : ℚ
  started_le : attemptStarted ≤ judgeStarted
  judged_le : judgeStarted ≤ judgeFinished
  finished_le : judgeFinished ≤ attemptFinished

/-- The runner's configuration and what happens around it during one run. -/
structure Environment where
  D : Digests
  float : ℚ → String
  rounding : Rounding
  workerId : String
  leaseSeconds : Int
  prepareWorkspace : TestWorld → TestWorldAttempt → Except Raised Unit
  applyPreviousPatch : String → Except Raised Unit
  runAgent : String → Except Raised AgentResult
  captureCumulativePatch : Except Raised PyStr
  runCheck : Nat → TestCheck → Except Raised CommandResult
  cleanupWorkspace : Except Raised Unit
  monotonic : Readings
  clock : Time
  beforeWorld : List (Call × Time) := []
  beforePrevious : List (Call × Time) := []
  beforeComplete : List (Call × Time) := []
  beforeFail : List (Call × Time) := []

namespace Environment

variable (env : Environment)

/-- The store after other threads made their calls. -/
def others (s : MemoryTestWorldStore) (l : List (Call × Time)) : MemoryTestWorldStore :=
  l.foldl (MemoryTestWorldStore.after env.D env.float) s

/-- The lease the attempt runs under: the one handed over, or a new claim. An attempt that
has ended already is returned as it is. -/
def acquire (s : MemoryTestWorldStore) (attempt : TestWorldAttempt) (attemptId ownerId : String) :
    Option TestWorldLease →
      Except TestWorldFault ((TestWorldLease ⊕ TestWorldAttempt) × MemoryTestWorldStore)
  | none => do
    match ← s.claimAttempt attemptId env.workerId env.leaseSeconds env.clock with
    | (some lease, s) => .ok (.inl lease, s)
    | (none, s) =>
      match s.getAttempt attemptId ownerId with
      | none => .error (.notFound "attempt not found")
      | some current =>
        if current.status.active then .error (.conflict "attempt is already claimed")
        else .ok (.inr current, s)
  | some lease =>
    if lease.attemptId ≠ attempt.id ∨ lease.worldId ≠ attempt.worldId ∨ lease.ownerId ≠ ownerId ∨
        lease.workerId ≠ env.workerId ∨ lease.generation ≤ 0 ∨ attempt.status ≠ .running then
      .error (.conflict "invalid preclaimed attempt lease")
    else .ok (.inl lease, s)

/-- The previous attempt a retry continues from. -/
def previousAttempt (s : MemoryTestWorldStore) (attempt : TestWorldAttempt) (ownerId : String) :
    Except Raised (Option TestWorldAttempt) :=
  match attempt.mode, attempt.previousAttemptId with
  | .retry, some id =>
    match s.getAttempt id ownerId with
    | none => .error (.store (.notFound "previous attempt not found"))
    | some previous => .ok (some previous)
  | _, _ => .ok none

/-- The replay of the previous attempt's patch. -/
def replay : Option TestWorldAttempt → Except Raised Unit
  | none => .ok ()
  | some previous =>
    if previous.cumulativePatch ≠ "" then env.applyPreviousPatch previous.cumulativePatch else .ok ()

/-- The loop over the checks: the feedback and whether all passed. -/
def judge (checks : List TestCheck) : Except Raised (List JsonObj × Bool) :=
  checks.zipIdx.foldlM (fun (feedback, allPassed) (check, i) => do
    let r ← env.runCheck i check
    .ok (feedback ++ [judgeFeedback check r], allPassed && r.passed)) ([], true)

/-- The `try` block up to `complete_attempt`, with the arguments it passes. -/
def attemptResult (s : MemoryTestWorldStore) (world : TestWorld) (attempt : TestWorldAttempt)
    (ownerId : String) : Except Raised CompleteCall := do
  env.prepareWorkspace world attempt
  let previous ← previousAttempt s attempt ownerId
  env.replay previous
  let agent ← env.runAgent (attemptPrompt env.float world previous)
  let cumulativePatch ← env.captureCumulativePatch
  let (feedback, allPassed) ← env.judge world.checks
  env.cleanupWorkspace
  .ok { passed := allPassed, feedback, cumulativePatch, plan := agent.plan, summary := agent.summary
        tests := agent.tests, modelCalls := agent.modelCalls, inputTokens := agent.inputTokens
        outputTokens := agent.outputTokens, totalTokens := agent.totalTokens
        durationMs := env.rounding.elapsedMs env.monotonic.attemptStarted env.monotonic.attemptFinished
        judgeDurationMs := env.rounding.elapsedMs env.monotonic.judgeStarted env.monotonic.judgeFinished }

/-- The arguments of `fail_attempt`. -/
def failure : FailCall where
  feedback := [JsonObj.ofFields [("code", .str "attempt_runtime_failed")]]
  summary := PyStr.ofText "Attempt runtime failed before a trustworthy judge result was produced."
  durationMs := env.rounding.elapsedMs env.monotonic.attemptStarted env.monotonic.failed

/-- The `except` clauses. The `finally` block only cleans up the workspace. -/
def handle (s : MemoryTestWorldStore) (lease : TestWorldLease) :
    Raised → Except Raised TestWorldAttempt × MemoryTestWorldStore
  | .store (.conflict message) => (.error (.store (.conflict message)), s)
  | .store (.notFound message) => (.error (.store (.notFound message)), s)
  | _ =>
    let s := env.others s env.beforeFail
    match s.failAttempt env.float lease env.failure env.clock with
    | .ok (attempt, s) => (.ok attempt, s)
    | .error e => (.error (.store e), s)

/-- `run_attempt` from the moment it has a lease. -/
def runLeased (s : MemoryTestWorldStore) (attempt : TestWorldAttempt) (ownerId : String)
    (lease : TestWorldLease) : Except Raised TestWorldAttempt × MemoryTestWorldStore :=
  let s := env.others s env.beforeWorld
  match s.getWorld attempt.worldId ownerId with
  | none =>
    match s.releaseAttempt lease with
    | .ok (_, s) => (.error (.store (.notFound "world not found")), s)
    | .error e => (.error (.store e), s)
  | some world =>
    let s := env.others s env.beforePrevious
    match env.attemptResult s world attempt ownerId with
    | .error e => env.handle s lease e
    | .ok c =>
      let s := env.others s env.beforeComplete
      match s.completeAttempt env.float lease c env.clock with
      | .ok (attempt, s) => (.ok attempt, s)
      | .error e => env.handle s lease (.store e)

/-- `run_attempt`. -/
def runAttempt (s : MemoryTestWorldStore) (attemptId ownerId : String) (lease : Option TestWorldLease) :
    Except Raised TestWorldAttempt × MemoryTestWorldStore :=
  match s.getAttempt attemptId ownerId with
  | none => (.error (.store (.notFound "attempt not found")), s)
  | some attempt =>
    match env.acquire s attempt attemptId ownerId lease with
    | .error e => (.error (.store e), s)
    | .ok (.inr current, s) => (.ok current, s)
    | .ok (.inl lease, s) => env.runLeased s attempt ownerId lease

end Environment

end LilTweak.Worlds
