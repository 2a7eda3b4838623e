import LilTweak.SkillForge.Compiler
import Mathlib

/-!
# Evaluation of a skill

A suite of held-out cases is validated against the public examples of a package, and an adapter
answers one request for each case until one answer is refused. What the adapter answers, the nonces
and the clock are arbitrary: a turn gives them for each case.
-/

namespace LilTweak.SkillForge

open LilTweak.Lib

/-! ## Cases -/

/-- A test case. -/
structure Case where
  caseId : PyStr
  task : PyStr
  expected : PyStr
  kind : PyStr
deriving DecidableEq

/-- The kinds of cases. -/
def caseKinds : List PyStr := ["positive", "negative", "missing_tool"].map PyStr.ofText

/-- `item["input"]`, as an item of a set. -/
def publicInput : PyJson → Except Fault PyJson
  | .obj fields =>
    match Entries.lookup (PyStr.ofText "input") fields with
    | some (.arr _) => .error (.python "TypeError")
    | some (.obj _) => .error (.python "TypeError")
    | some value => .ok value
    | none => .error (.python "KeyError")
  | _ => .error (.python "TypeError")

/-- `{item["input"] for item in value}`. -/
def publicInputs : PyJson → Except Fault (List PyJson)
  | .arr items => items.mapM publicInput
  | .str [] => .ok []
  | .obj [] => .ok []
  | _ => .error (.python "TypeError")

/-- Some public input is this text. -/
def publishes (inputs : List PyJson) (task : PyStr) : Bool :=
  inputs.any fun input =>
    match input with
    | .str s => s = task
    | _ => false

/-- What `_validate_cases` has seen. -/
structure Seen where
  ids : List PyStr
  tasks : List PyStr
  kinds : List PyStr

/-- One case of `_validate_cases`. -/
def validateCase (inputs : List PyJson) (seen : Seen) (c : Case) : Except Fault Seen := do
  let _ ← identifier (.str c.caseId)
  let _ ← text 8192 true (.str c.task)
  let _ ← text 8192 true (.str c.expected)
  if c.caseId ∈ seen.ids ∨ c.task ∈ seen.tasks ∨ publishes inputs c.task = true then
    .error (.forge "test_case_not_held_out")
  else if c.kind ∉ caseKinds then .error (.forge "invalid_test_kind")
  else .ok ⟨seen.ids ++ [c.caseId], seen.tasks ++ [c.task], seen.kinds ++ [c.kind]⟩

section
variable {sha : Bytes → List Char}

/-- The inputs of the public examples of a package. -/
def Package.publicInputs (p : Package sha) : Except Fault (List PyJson) := do
  let content ← fileAt "tests/examples.json" p.files
  parseBytes content >>= SkillForge.publicInputs

/-- `_validate_cases(package, cases)`. -/
def validateCases (p : Package sha) (cases : List Case) : Except Fault Unit :=
  if cases.length < 3 ∨ 12 < cases.length then .error (.forge "invalid_test_suite")
  else do
    let inputs ← p.publicInputs
    let seen ← cases.foldlM (validateCase inputs) ⟨[], [], []⟩
    if caseKinds.all (fun kind => seen.kinds.contains kind) = false then .error (.forge "test_coverage_missing")
    else .ok ()

/-! ## Requests and answers -/

/-- A request to the adapter; its time limit is kept as it is written. -/
structure Request where
  nonce : List Char
  packageDigest : List Char
  task : PyStr
  tools : List (List Char)
  files : List (PyStr × Bytes)
  timeoutSeconds : List Char

def maxSteps : ℕ := 12

def maxOutputBytes : ℕ := 8192

/-- `Request.digest`. -/
def Request.digest (sha : Bytes → List Char) (r : Request) : List Char :=
  sha (canonical (.obj [(PyStr.ofText "nonce", strOf r.nonce), (PyStr.ofText "package_digest", strOf r.packageDigest),
    (PyStr.ofText "task", .str r.task), (PyStr.ofText "tools", .arr (r.tools.map strOf)),
    (PyStr.ofText "files", .obj (r.files.map fun file => (file.1, strOf (sha file.2)))),
    (PyStr.ofText "timeout_seconds", .float r.timeoutSeconds), (PyStr.ofText "max_steps", .int maxSteps),
    (PyStr.ofText "max_output_bytes", .int maxOutputBytes)]))

/-- An observation, whose fields may hold anything: `none` stands for a value that is not a text, or not a tuple. -/
structure Observation where
  requestDigest : Option PyStr
  nonce : Option PyStr
  sessionId : Option PyStr
  status : Option PyStr
  output : Option PyStr
  usedTools : Option (List (Option PyStr))
deriving DecidableEq

/-- What comes of `adapter.run`. -/
inductive Answer where
  | timeout
  | raised
  | other
  | observation (o : Observation)

/-- The nonce of a case, what the clock leaves for it, and how the adapter answers. -/
structure Turn where
  nonce : List Char
  expired : Bool
  remaining : List Char
  answer : Request → Answer

/-- An adapter as the host configures it. -/
structure Adapter where
  agentId : PyStr
  capabilities : List PyStr
  isolationContract : PyStr

def isolationContract : PyStr := PyStr.ofText "fresh-session/package-only/no-authority"

/-! ## Grading -/

structure Result where
  caseId : PyStr
  passed : Bool
  reason : String
  requestDigest : List Char
  sessionDigest : List Char
  outputDigest : List Char
deriving DecidableEq

structure Report where
  packageDigest : List Char
  suiteDigest : List Char
  agentId : PyStr
  role : String
  results : List Result
  expectedCases : ℕ
deriving DecidableEq

/-- `Report.passed`. -/
def Report.passed (r : Report) : Bool := r.results.length = r.expectedCases && r.results.all fun result => result.passed

/-- What grading an answer gives: the reason, the digests, and the sessions seen so far. -/
structure Grade where
  reason : String
  sessionDigest : List Char
  outputDigest : List Char
  sessions : List PyStr
deriving DecidableEq

/-- A grade that leaves no digests. -/
def failed (reason : String) (sessions : List PyStr) : Grade := ⟨reason, [], [], sessions⟩

/-- The tools a case may use. -/
def toolsOf (p : Package sha) (c : Case) : List (List Char) :=
  if c.kind = PyStr.ofText "missing_tool" then p.requirements.tail else p.requirements

/-- The request of a case in its turn. -/
def requestOf (p : Package sha) (digest : List Char) (c : Case) (turn : Turn) : Request :=
  { nonce := turn.nonce
    packageDigest := digest
    task := c.task
    tools := toolsOf p c
    files := p.instructionFiles
    timeoutSeconds := turn.remaining }

/-- A tool was used that the case does not offer, or something that is no tool. -/
def exceedsTools (tools : List (List Char)) (used : Option (List (Option PyStr))) : Bool :=
  match used with
  | none => true
  | some items =>
    items.any fun item =>
      match item with
      | none => true
      | some tool => !(tools.map fun t => t.map CodePoint.ofChar).contains tool

/-- The status a case must end with. -/
def expectedStatus (c : Case) : PyStr :=
  if c.kind = PyStr.ofText "positive" then PyStr.ofText "ok" else PyStr.ofText "blocked"

/-- The answer of a fresh, bound observation with encodable texts. -/
def gradeOutcome (c : Case) (o : Observation) : String :=
  if o.status ≠ some (expectedStatus c) ∨ o.output ≠ some c.expected then "output_mismatch"
  else if c.kind ≠ PyStr.ofText "positive" ∧ o.usedTools ≠ some [] then "blocked_case_used_tools"
  else "passed"

/-- The grade of an observation; a text without an encoding raises. -/
def gradeObservation (sha : Bytes → List Char) (request : Request) (c : Case) (sessions : List PyStr) (o : Observation) : Grade :=
  if o.requestDigest ≠ some ((request.digest sha).map CodePoint.ofChar) ∨
      o.nonce ≠ some (request.nonce.map CodePoint.ofChar) then
    failed "observation_binding_mismatch" sessions
  else
    match o.sessionId with
    | none => failed "session_not_fresh" sessions
    | some session =>
      if session = [] ∨ 256 < session.length ∨ session ∈ sessions then failed "session_not_fresh" sessions
      else if exceedsTools request.tools o.usedTools = true then failed "tool_authority_violation" sessions
      else
        match o.output with
        | none => failed "invalid_output" sessions
        | some output =>
          match output.mapM CodePoint.char? with
          | none => failed "adapter_failed" sessions
          | some outputChars =>
            if maxOutputBytes < (encodeUtf8 outputChars).length then failed "invalid_output" sessions
            else
              match session.mapM CodePoint.char? with
              | none => failed "adapter_failed" (sessions ++ [session])
              | some sessionChars =>
                ⟨gradeOutcome c o, sha (encodeUtf8 sessionChars), sha (encodeUtf8 outputChars), sessions ++ [session]⟩

/-- The grade of a case. -/
def gradeTurn (sha : Bytes → List Char) (request : Request) (c : Case) (sessions : List PyStr) (turn : Turn) : Grade :=
  if turn.expired = true then failed "evaluation_timeout" sessions
  else
    match turn.answer request with
    | .timeout => failed "evaluation_timeout" sessions
    | .raised => failed "adapter_failed" sessions
    | .other => failed "invalid_observation" sessions
    | .observation o => gradeObservation sha request c sessions o

/-- The cases in turn, up to the first that fails. -/
def runCases (p : Package sha) (digest : List Char) (turns : ℕ → Turn) : ℕ → List PyStr → List Case → List Result
  | _, _, [] => []
  | i, sessions, c :: rest =>
    let request := requestOf p digest c (turns i)
    let grade := gradeTurn sha request c sessions (turns i)
    ⟨c.caseId, grade.reason = "passed", grade.reason, request.digest sha, grade.sessionDigest, grade.outputDigest⟩ ::
      if grade.reason = "passed" then runCases p digest turns (i + 1) grade.sessions rest else []

/-- The value of the suite. -/
def suiteValue (cases : List Case) : PyJson :=
  .arr (cases.map fun c => .obj [(PyStr.ofText "case_id", .str c.caseId), (PyStr.ofText "task", .str c.task),
    (PyStr.ofText "expected", .str c.expected), (PyStr.ofText "kind", .str c.kind)])

/-- `evaluate(package, cases, adapter, role, timeout_seconds=timeout)`; a budget that is not a finite number is `none`. -/
def evaluate (p : Package sha) (cases : List Case) (adapter : Adapter) (role : String) (timeout : Option ℚ)
    (turns : ℕ → Turn) : Except Fault Report := do
  let digest ← p.digest
  validateCases p cases
  if role ≠ "internal" ∧ role ≠ "transfer" then .error (.forge "invalid_evaluation_role")
  else if timeout.all (fun t => 0 < t ∧ t ≤ 60) = false ∨ timeout = none then .error (.forge "invalid_evaluation_budget")
  else if adapter.isolationContract ≠ isolationContract then .error (.forge "adapter_not_qualified")
  else do
    let _ ← identifier (.str adapter.agentId)
    if 64 < adapter.capabilities.length then .error (.forge "invalid_adapter_capabilities")
    else if decide (adapter.agentId = p.originId.map CodePoint.ofChar) ≠ decide (role = "internal") then
      .error (.forge "agent_identity_mismatch")
    else if p.requirements.all (fun tool => adapter.capabilities.contains (tool.map CodePoint.ofChar)) = false then
      .error (.forge "required_tools_missing")
    else
      .ok ⟨digest, sha (canonical (suiteValue cases)), adapter.agentId, role, runCases p digest turns 0 [] cases,
        cases.length⟩

end

end LilTweak.SkillForge
