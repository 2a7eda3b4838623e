import LilTweak.Agent.ToolOutput
import LilTweak.Lib.FairShare
import LilTweak.Lib.Run
import Mathlib

/-!
# The tool loop of the code engineer

`CodeEngineer.run` asks the model, reads its response, reserves room in the history for the output of
every tool the response calls, and only then executes the tools. A state stands between two answers
from outside: a response of the model or the result of a tool.
-/

namespace LilTweak.Agent

open LilTweak.Lib LilTweak.Core

/-- The limits of `CodeEngineer`, whose constructor asks for positive ones (and caps the rounds at 40
and the tool calls at 256). -/
structure Limits where
  maxRounds : Nat := 40
  maxToolOutputBytes : Nat := 2 * 1024 * 1024
  maxToolCalls : Nat := 128
  maxToolHistoryBytes : Nat := 32 * 1024 * 1024
  rounds : 1 ≤ maxRounds := by decide
  outputBytes : 0 < maxToolOutputBytes := by decide
  toolCalls : 1 ≤ maxToolCalls := by decide
  historyBytes : 0 < maxToolHistoryBytes := by decide

/-! ## Arguments -/

/-- `isinstance(value, int) and low <= value <= high`. -/
def intWithin (low high : Int) : Json → Bool
  | .int i => decide (low ≤ i ∧ i ≤ high)
  | .bool b => decide (low ≤ (if b then 1 else 0) ∧ (if b then 1 else 0) ≤ high)
  | _ => false

/-- A string that is not empty. -/
def nonemptyString : Json → Bool
  | .str s => decide (s ≠ "")
  | _ => false

/-- An optional argument that is absent, null or as it has to be. -/
def optionalArgument (fields : JsonFields) (key : String) (valid : Json → Bool) : Bool :=
  match Entries.lookup key fields with
  | none | some .null => true
  | some value => valid value

/-- The fields a tool takes. -/
def allowedFields : String → Option (List String)
  | "list_files" => some ["path", "max_entries"]
  | "read_file" => some ["path"]
  | "apply_patch" => some ["patch"]
  | "run_command" => some ["command", "timeout"]
  | _ => none

/-- `command` is an argv. -/
def isArgv : Option Json → Bool
  | some (.arr parts) => decide (1 ≤ parts.length ∧ parts.length ≤ 128) && parts.all nonemptyString
  | _ => false

/-- `_validate_tool_arguments` accepts. -/
def validToolArguments (name value : Json) : Bool :=
  match name, value with
  | .str name, .obj fields =>
    match allowedFields name with
    | none => false
    | some allowed =>
      fields.all (fun f => allowed.contains f.1) &&
        match name with
        | "read_file" => ((Entries.lookup "path" fields).map nonemptyString).getD false
        | "apply_patch" => ((Entries.lookup "patch" fields).map nonemptyString).getD false
        | "list_files" =>
          optionalArgument fields "path" (fun v => Json.isString (some v)) &&
            optionalArgument fields "max_entries" (intWithin 1 2000)
        | _ =>
          isArgv (Entries.lookup "command" fields) && optionalArgument fields "timeout" (intWithin 1 1200)
  | _, _ => false

/-! ## Responses -/

/-- An item of a response, as far as it can be replayed as a JSON object. -/
inductive ResponseItem
  | object (fields : JsonFields)
  | unreplayable

/-- A response of the model; `output` is `none` where it cannot be iterated. -/
structure Response where
  id : Json
  status : Json := .str "completed"
  inputTokens : Nat := 0
  outputTokens : Nat := 0
  totalTokens : Nat := 0
  output : Option (List ResponseItem)

inductive AgentError
  | deadline | protocol | roundLimit | toolCapacity | recovery | raised
  deriving DecidableEq

/-- The error is an `AgentLimitError`. -/
def AgentError.isLimit (e : AgentError) : Prop := e = .roundLimit ∨ e = .toolCapacity

/-- What `client.create` comes to, or the deadline that keeps it from being asked. -/
inductive Reply
  | expired
  | timedOut
  | raised
  | response (r : Response)

/-- What `tools.execute` comes to. -/
inductive ToolAnswer
  | returned (value : ToolValue)
  | rejected
  | recovery
  | failed

variable (P : Python)

/-- `_get` of an item. -/
def field (item : JsonFields) (name : String) : Json := (Entries.lookup name item).getD .null

/-- The size of a value in the history. -/
def jsonSize (value : Json) : Nat := (Json.dumps P.float value).utf8ByteSize

/-- `_normalize_response_output_item`. -/
def normalizeResponseOutputItem : ResponseItem → Except AgentError (JsonFields × Nat)
  | .object fields => .ok (fields, jsonSize P (.obj fields))
  | .unreplayable => .error .protocol

/-- `_get(item, "content", []) or []` as it is iterated: the fields of the parts that are objects. -/
def contentParts (item : JsonFields) : Except AgentError (List JsonFields) :=
  match Entries.lookup "content" item with
  | none | some .null | some (.bool false) | some (.str _) | some (.obj _) => .ok []
  | some (.arr parts) => .ok (parts.filterMap fun part => match part with
      | .obj fields => some fields
      | _ => none)
  | some (.bool true) => .error .raised
  | some (.int i) => if i = 0 then .ok [] else .error .raised
  | some (.float x) => if x = 0 then .ok [] else .error .raised

/-- The texts of the parts of a message. -/
def partTexts : List JsonFields → Except AgentError (List String)
  | [] => .ok []
  | part :: rest =>
    match field part "type" with
    | .str "output_text" | .str "text" => do
      let texts ← partTexts rest
      return P.str ((Entries.lookup "text" part).getD (.str "")) :: texts
    | .str "refusal" => .error .protocol
    | _ => partTexts rest

/-- The function calls and the texts of the items of a response. -/
def readItems (chat : Bool) : List JsonFields → Except AgentError (List JsonFields × List String)
  | [] => .ok ([], [])
  | item :: rest =>
    match field item "type" with
    | .str "function_call" =>
      if chat then .error .protocol
      else do
        let (calls, texts) ← readItems chat rest
        return (item :: calls, texts)
    | .str "message" => do
      let parts ← contentParts item
      let first ← partTexts P parts
      let (calls, texts) ← readItems chat rest
      return (calls, first ++ texts)
    | _ => readItems chat rest

/-! ## Plans -/

/-- What `run` knows of the output of a call before the tool is executed. -/
structure OutputPlan where
  minimumRecord : JsonFields
  minimumSize : Nat
  maximumSize : Nat

variable (L : Limits)

/-- The entry of a call in `output_plans`. -/
def outputPlan (item : JsonFields) : OutputPlan :=
  let (minimumRecord, minimumSize) := toolOutputRecord P (field item "call_id") "0"
  let emptySize := (toolOutputRecord P (field item "call_id") "").2
  { minimumRecord, minimumSize, maximumSize := emptySize + 2 * L.maxToolOutputBytes }

theorem outputPlan_minimum (item : JsonFields) :
    (outputPlan P L item).minimumSize = (toolOutputRecord P (field item "call_id") "").2 + 1 :=
  size_toolOutputRecord (field item "call_id") "0"

/-- The plan of a call as a demand on the history. -/
def outputDemand (item : JsonFields) : Demand where
  minimum := (outputPlan P L item).minimumSize
  maximum := (outputPlan P L item).maximumSize
  bounds := by
    have hmaximum : (outputPlan P L item).maximumSize =
        (toolOutputRecord P (field item "call_id") "").2 + 2 * L.maxToolOutputBytes := rfl
    have hpositive := L.outputBytes
    rw [outputPlan_minimum, hmaximum]
    omega

/-- A call with the room reserved for its output. -/
structure PlannedCall where
  item : JsonFields
  plan : OutputPlan
  allocation : Nat

/-- The calls of a response with their allocations, where `extra` is left over. -/
def planCalls (calls : List JsonFields) (extra : Nat) : List PlannedCall :=
  (calls.zip (fairShares extra (calls.map (outputDemand P L)))).map fun (item, allocation) =>
    { item, plan := outputPlan P L item, allocation }

/-! ## Tools -/

/-- `validated`, where the arguments of the call can be read and are valid. -/
def validatedArguments (item : JsonFields) : Option Json :=
  match (Entries.lookup "arguments" item).getD (.str "") with
  | .str raw =>
    match P.loads raw with
    | some arguments => if validToolArguments (field item "name") arguments then some arguments else none
    | none => none
  | _ => none

/-- `inner_output_limit`. -/
def innerOutputLimit (p : PlannedCall) : Nat :=
  let emptySize := (toolOutputRecord P (field p.item "call_id") "").2
  min L.maxToolOutputBytes (max 1 ((p.allocation - emptySize) / 2))

/-- The record of a result, before it is held against the allocation. -/
def fittedRecord (p : PlannedCall) (result : ToolValue) : JsonFields × Nat :=
  let output := match canonicalJson P result (innerOutputLimit P L p) with
    | some output => output
    | none => (canonicalJson P (toolError "tool_execution_failed") (innerOutputLimit P L p)).getD ""
  toolOutputRecord P (field p.item "call_id") output

/-- The record that goes into the history. -/
def outputRecord (p : PlannedCall) (result : ToolValue) : JsonFields × Nat :=
  let (record, size) := fittedRecord P L p result
  if size > p.allocation then (p.plan.minimumRecord, p.plan.minimumSize) else (record, size)

/-! ## The loop -/

/-- What a finished run hands to `_parse_result`, with the counters of its result. -/
structure FinalText where
  text : String
  calls : Nat
  inputTokens : Nat
  outputTokens : Nat
  totalTokens : Nat

/-- Where the loop stands. -/
inductive Phase
  | asking
  | executing (items : List JsonFields) (assistantSize : Nat) (pending : List PlannedCall)
      (outputs : List JsonFields) (outputSize : Nat)
  | ended (outcome : Except AgentError FinalText)

/-- The variables of `run`; the history starts with the request. -/
structure Loop where
  history : List Json
  roundIndex : Nat := 0
  calls : Nat := 0
  inputTokens : Nat := 0
  outputTokens : Nat := 0
  totalTokens : Nat := 0
  toolCallCount : Nat := 0
  toolHistoryBytes : Nat := 0
  phase : Phase := .asking

/-- The loop as it starts. -/
def Loop.start (initial : Json) : Loop := { history := [initial] }

namespace Loop

variable (s : Loop)

/-- The loop raises. -/
def raise (e : AgentError) : Loop := { s with phase := .ended (.error e) }

/-- The next iteration, or the error after the last one. -/
def nextRound : Loop :=
  if s.roundIndex + 1 < L.maxRounds then { s with roundIndex := s.roundIndex + 1, phase := .asking }
  else s.raise .roundLimit

/-- The response calls tools: the limits are checked and the outputs planned. -/
def admitCalls (items : List JsonFields) (assistantSize : Nat) (calls : List JsonFields) : Loop :=
  let minimumOutputSize := (calls.map fun item => (outputPlan P L item).minimumSize).sum
  if s.roundIndex + 1 ≥ L.maxRounds then s.raise .roundLimit
  else if s.toolCallCount + calls.length > L.maxToolCalls then s.raise .toolCapacity
  -- what remains of the history may be negative, so its parts stand on the other side
  else if s.toolHistoryBytes + assistantSize + minimumOutputSize > L.maxToolHistoryBytes then s.raise .toolCapacity
  else
    let extra := L.maxToolHistoryBytes - s.toolHistoryBytes - assistantSize - minimumOutputSize
    { s with
      toolCallCount := s.toolCallCount + calls.length
      phase := .executing items assistantSize (planCalls P L calls extra) [] 0 }

/-- The response as it is read. -/
def readResponse (chat : Bool) (r : Response) : Loop :=
  let s : Loop := { s with
    calls := s.calls + 1
    inputTokens := s.inputTokens + r.inputTokens
    outputTokens := s.outputTokens + r.outputTokens
    totalTokens := s.totalTokens + r.totalTokens }
  if nonemptyString r.id = false then s.raise .protocol
  else if Json.isStr "completed" (some r.status) = false then s.raise .protocol
  else
    match r.output with
    | none => s.raise .protocol
    | some output =>
      match output.mapM (normalizeResponseOutputItem P) with
      | .error e => s.raise e
      | .ok normalized =>
        let items := normalized.map Prod.fst
        let assistantSize := (normalized.map Prod.snd).sum
        match readItems P chat items with
        | .error e => s.raise e
        | .ok (calls, texts) =>
          if calls ≠ [] then s.admitCalls P L items assistantSize calls
          else if texts ≠ [] then
            { s with phase := .ended (.ok ⟨"\n".intercalate texts, s.calls, s.inputTokens, s.outputTokens, s.totalTokens⟩) }
          else s.raise .protocol

/-- The reply to `client.create`. -/
def receive (chat : Bool) : Reply → Loop
  | .expired => s.raise .deadline
  | .timedOut => s.raise .deadline
  | .raised => s.raise .raised
  | .response r => s.readResponse P L chat r

/-- The result of the next call is recorded; after the last one the history grows. -/
def record (items : List JsonFields) (assistantSize : Nat) (p : PlannedCall) (rest : List PlannedCall)
    (outputs : List JsonFields) (outputSize : Nat) (result : ToolValue) : Loop :=
  let (output, size) := outputRecord P L p result
  let outputs := outputs ++ [output]
  let outputSize := outputSize + size
  match rest with
  | [] =>
    let s : Loop := { s with
      toolHistoryBytes := s.toolHistoryBytes + (assistantSize + outputSize)
      history := s.history ++ items.map Json.obj ++ outputs.map Json.obj }
    s.nextRound L
  | _ => { s with phase := .executing items assistantSize rest outputs outputSize }

end Loop

/-- An answer from outside, or the refusal of arguments that are not valid. -/
inductive Event
  | reply (r : Reply)
  | executed (answer : ToolAnswer)
  | refused

/-- The step of the loop on an answer. -/
def step? (chat : Bool) (s : Loop) : Event → Option Loop
  | .reply r =>
    match s.phase with
    | .asking => some (s.receive P L chat r)
    | _ => none
  | .executed answer =>
    match s.phase with
    | .executing items assistantSize (p :: rest) outputs outputSize =>
      match validatedArguments P p.item with
      | none => none
      | some _ =>
        match answer with
        | .returned value => some (s.record P L items assistantSize p rest outputs outputSize value)
        | .rejected =>
          some (s.record P L items assistantSize p rest outputs outputSize (toolError "invalid_tool_arguments"))
        | .recovery => some (s.raise .recovery)
        | .failed =>
          some (s.record P L items assistantSize p rest outputs outputSize (toolError "tool_execution_failed"))
    | _ => none
  | .refused =>
    match s.phase with
    | .executing items assistantSize (p :: rest) outputs outputSize =>
      match validatedArguments P p.item with
      | some _ => none
      | none =>
        some (s.record P L items assistantSize p rest outputs outputSize (toolError "invalid_tool_arguments"))
    | _ => none

/-- One step of the loop. -/
def Step (chat : Bool) (s : Loop) (e : Event) (s' : Loop) : Prop := step? P L chat s e = some s'

end LilTweak.Agent
