import LilTweak.Worlds.Judging
import Mathlib

/-!
# What the tools observe

`WorkspaceTools` records every command and patch it runs, within a budget of entries and of
output. The judge of a Test World runs its checks through the tools the agent used, so whether a
check is executed at all depends on what the agent has left of the budget.
-/

namespace LilTweak.Agent

open LilTweak.Lib LilTweak.Core LilTweak.Worlds

/-! ## The tools -/

/-- The budgets of `WorkspaceTools`, and the output limit of its sandbox. -/
structure Budget where
  maxObservations : Nat := 128
  maxObservedOutputBytes : Nat := 4 * 1024 * 1024
  maxOutputBytes : Nat := 2 * 1024 * 1024

/-- An entry of `_command_observations`. -/
structure Observation where
  operation : String
  command : List String
  exitCode : Option Int
  timedOut : Bool
  truncated : Bool
  stdout : String
  stderr : String
  deriving DecidableEq

/-- `WorkspaceTools` on a workspace that holds `W`. -/
structure WorkspaceTools (W : Type) where
  workspace : W
  commandObservations : List Observation := []
  observedOutputBytes : Nat := 0
  observationsClosed : Bool := false
  observationTerminalRecorded : Bool := false
  deriving DecidableEq

/-- What the sandbox returns or raises for a command on a workspace, within a timeout. -/
abbrev Sandbox (W : Type) := W → List String → Option Int → Except Raised CommandResult

namespace WorkspaceTools

variable {W : Type} (b : Budget) (t : WorkspaceTools W)

/-- `_observe`. -/
def observe (operation : String) (command : List String) (r : CommandResult) : WorkspaceTools W :=
  if t.commandObservations.length ≥ b.maxObservations then t
  else
    let remaining := b.maxObservedOutputBytes - t.observedOutputBytes
    let stdout := cutBytes remaining r.stdout
    let stderr := cutBytes (remaining - stdout.utf8ByteSize) r.stderr
    let clipped := decide (stdout ≠ r.stdout) || decide (stderr ≠ r.stderr)
    { t with
      observedOutputBytes := t.observedOutputBytes + (stdout.utf8ByteSize + stderr.utf8ByteSize)
      commandObservations := t.commandObservations ++
        [{ operation, command, exitCode := r.exitCode, timedOut := r.timedOut
           truncated := r.truncated || clipped, stdout, stderr }] }

/-- The test of `_admit_observation`: there is room for one more entry and its output. -/
def hasRoom : Bool :=
  !t.observationsClosed && decide (t.commandObservations.length + 1 < b.maxObservations) &&
    decide (t.observedOutputBytes + b.maxOutputBytes ≤ b.maxObservedOutputBytes)

/-- The tools after `_admit_observation` has refused. -/
def close : WorkspaceTools W := { t with observationsClosed := true }

/-- `CommandResult(None, "", "observation_capacity")`. -/
def capacity : CommandResult := { exitCode := none, stdout := "", stderr := "observation_capacity" }

/-- The tools after `_observation_capacity_result`. -/
def recordCapacity (operation : String) (command : List String) : WorkspaceTools W :=
  if t.observationTerminalRecorded then t
  else { t.observe b operation command capacity with observationTerminalRecorded := true }

/-- What a command comes to, and whether the sandbox was asked to run it. -/
structure Answer where
  result : Except Raised CommandResult
  executed : Bool

/-- `execute("run_command", …)`, where the sandbox answers with `answer` if it is asked. -/
def runCommand (command : List String) (answer : Except Raised CommandResult) :
    Answer × WorkspaceTools W :=
  if t.hasRoom b = false then
    (⟨.ok capacity, false⟩, t.close.recordCapacity b "run_command" command)
  else
    match answer with
    | .error e => (⟨.error e, true⟩, t)
    | .ok r => (⟨.ok r, true⟩, t.observe b "run_command" command r)

/-- `_PATCH_COMMAND`. -/
def patchCommand : List String :=
  ["patch", "--batch", "--forward", "--strip=1", "--no-backup-if-mismatch", "--reject-file=-",
    "--input=/tmp/lil-tweak.patch"]

/-- Where a call of `apply_patch` ends, apart from what the observations decide: before they are
asked for room, before a candidate is staged, or after the sandbox staged one, with the workspace
that is left. -/
inductive PatchRun (W : Type)
  | unasked
  | unstaged
  | staged (result : CommandResult) (workspace : W)

/-- What `execute("apply_patch", …)` does to the observations and the workspace. -/
def applyPatch (run : PatchRun W) : WorkspaceTools W :=
  match run with
  | .unasked => t
  | .unstaged =>
    if t.hasRoom b = false then t.close.recordCapacity b "apply_patch" patchCommand else t
  | .staged result workspace =>
    if t.hasRoom b = false then t.close.recordCapacity b "apply_patch" patchCommand
    else { t.observe b "apply_patch" patchCommand result with workspace }

/-- One tool call, with what the sandbox does in it. -/
inductive ToolCall (W : Type)
  | listFiles
  | readFile
  | runCommand (command : List String) (answer : Except Raised CommandResult)
  | applyPatch (run : PatchRun W)

/-- The tools after one call. -/
def execute : ToolCall W → WorkspaceTools W
  | .listFiles => t
  | .readFile => t
  | .runCommand command answer => (t.runCommand b command answer).2
  | .applyPatch run => t.applyPatch b run

/-- The tools after the calls of an attempt on a fresh workspace. -/
def session (workspace : W) (calls : List (ToolCall W)) : WorkspaceTools W :=
  calls.foldl (execute b) { workspace }

/-! ## The judge -/

/-- `TestWorldRuntime.run_check`. -/
def runCheck (sandbox : Sandbox W) (check : TestCheck) : Answer × WorkspaceTools W :=
  t.runCommand b check.command (sandbox t.workspace check.command (some check.timeoutSeconds))

/-- The answers to the checks of a world: a check that raises is the last. -/
def judge (sandbox : Sandbox W) : WorkspaceTools W → List TestCheck → List Answer
  | _, [] => []
  | t, check :: checks =>
    let (answer, t') := t.runCheck b sandbox check
    answer :: match answer.result with
      | .error _ => []
      | .ok _ => judge sandbox t' checks

/-- What the sandbox alone makes of the checks on a workspace. -/
def answers (sandbox : Sandbox W) (workspace : W) : List TestCheck → List Answer
  | [] => []
  | check :: checks =>
    let result := sandbox workspace check.command (some check.timeoutSeconds)
    ⟨result, true⟩ :: match result with
      | .error _ => []
      | .ok _ => answers sandbox workspace checks

/-- At every check the tools have room, with what the checks before it put out recorded. -/
def RoomFor (sandbox : Sandbox W) : WorkspaceTools W → List TestCheck → Prop
  | _, [] => True
  | t, check :: checks =>
    t.hasRoom b = true ∧
      match sandbox t.workspace check.command (some check.timeoutSeconds) with
      | .error _ => True
      | .ok r => RoomFor sandbox (t.observe b "run_command" check.command r) checks

variable {b : Budget} {t : WorkspaceTools W} {sandbox : Sandbox W}

@[simp] theorem observe_workspace (operation : String) (command : List String) (r : CommandResult) :
    (t.observe b operation command r).workspace = t.workspace := by
  unfold observe
  split <;> rfl

theorem runCommand_room (h : t.hasRoom b = true) (command : List String) (answer : Except Raised CommandResult) :
    (t.runCommand b command answer).1 = ⟨answer, true⟩ := by
  unfold runCommand
  rw [if_neg (by rw [h]; simp)]
  cases answer <;> rfl

theorem runCommand_full (h : t.hasRoom b = false) (command : List String) (answer : Except Raised CommandResult) :
    (t.runCommand b command answer).1 = ⟨.ok capacity, false⟩ := by
  unfold runCommand
  rw [if_pos h]

/-- With room for the checks, the judge gives the answers of the sandbox. -/
theorem judge_eq_answers (checks : List TestCheck) (h : t.RoomFor b sandbox checks) :
    t.judge b sandbox checks = answers sandbox t.workspace checks := by
  induction checks generalizing t with
  | nil => rfl
  | cons check checks ih =>
    obtain ⟨hroom, hrest⟩ := h
    have hanswer := runCommand_room hroom check.command
      (sandbox t.workspace check.command (some check.timeoutSeconds))
    unfold judge answers runCheck
    simp only
    rw [hanswer]
    cases hr : sandbox t.workspace check.command (some check.timeoutSeconds) with
    | error e => rfl
    | ok r =>
      rw [hr] at hrest
      simp only [runCommand, if_neg (show ¬t.hasRoom b = false by rw [hroom]; simp)]
      rw [ih hrest, observe_workspace]

/-- A check without room is not executed. -/
theorem roomFor_of_executed (checks : List TestCheck)
    (h : ∀ a ∈ t.judge b sandbox checks, a.executed = true) : t.RoomFor b sandbox checks := by
  induction checks generalizing t with
  | nil => trivial
  | cons check checks ih =>
    unfold judge runCheck at h
    simp only [List.forall_mem_cons] at h
    obtain ⟨hfirst, hrest⟩ := h
    have hroom : t.hasRoom b = true := by
      by_contra hfull
      rw [Bool.not_eq_true] at hfull
      rw [runCommand_full hfull] at hfirst
      cases hfirst
    refine ⟨hroom, ?_⟩
    rw [runCommand_room hroom] at hrest
    cases hr : sandbox t.workspace check.command (some check.timeoutSeconds) with
    | error e => trivial
    | ok r =>
      rw [hr] at hrest
      simp only [runCommand, if_neg (show ¬t.hasRoom b = false by rw [hroom]; simp)] at hrest
      exact ih hrest

theorem answers_executed (workspace : W) (checks : List TestCheck) :
    ∀ a ∈ answers sandbox workspace checks, a.executed = true := by
  induction checks with
  | nil => exact nofun
  | cons check checks ih =>
    unfold answers
    simp only [List.forall_mem_cons]
    refine ⟨trivial, ?_⟩
    cases sandbox workspace check.command (some check.timeoutSeconds) with
    | error e => exact nofun
    | ok r => exact ih

/-- Every command passes without a word. -/
def quietSandbox : Sandbox (Dict String String) := fun _ _ _ => .ok { exitCode := some 0, stdout := "", stderr := "" }

/-- So many commands, one after the other. -/
def commands (n : Nat) : List (ToolCall (Dict String String)) :=
  List.replicate n (.runCommand ["pytest"] (.ok { exitCode := some 0, stdout := "", stderr := "" }))

end WorkspaceTools

end LilTweak.Agent
