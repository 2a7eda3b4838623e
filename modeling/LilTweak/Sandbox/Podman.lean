import LilTweak.Lib.FormUrl
import LilTweak.SkillForge.Text
import LilTweak.Worlds.Runner
import Mathlib

/-!
# The disposable container

Commands run in a container that is created, started and seeded for them, and removed behind them. What
podman, the clock and the file system answer is given by an environment that sees all the commands issued
so far; every command is kept in the order in which it was issued.
-/

namespace LilTweak.Sandbox

open LilTweak.Lib LilTweak.Worlds
open LilTweak.SkillForge (folded literal spaces gap joint)

/-! ## Output -/

/-- Output as the executor hands it over. -/
inductive Output
  | none
  | text (s : String)
  | bytes (b : List UInt8)

/-- `_text`. -/
def Output.asText : Output → String
  | none => ""
  | text s => s
  | bytes b => String.ofList (decodeLossy b)

/-- The names of `_SECRET`. -/
def secretName : Pattern :=
  .any (literal "authorization") [.all [literal "api", joint, literal "key"], literal "token", literal "password",
    literal "secret"]

/-- What stands behind a name: an assignment and its value. -/
def secretValue : Pattern :=
  .all [spaces, .one (fun c => c = ':' || c = '='), spaces, .optional (.seq (literal "bearer") gap),
    .run (fun c => !(isSpace c || c = ',' || c = ';')) 1 none]

/-- `_SECRET.sub`. -/
def redact (text : String) : String :=
  String.ofList (Pattern.substitute secretName secretValue "=[REDACTED]".toList text.toList)

/-- `encoded[:limit].decode("utf-8", "ignore")`; a negative limit counts from the end. -/
def sliceBytes (limit : Int) (s : String) : String :=
  cutBytes (if 0 ≤ limit then limit else s.utf8ByteSize + limit).toNat s

/-- `_bound_and_redact`. -/
def boundAndRedact (value : Output) (limit : Int) : String × Bool :=
  let redacted := redact value.asText
  if (redacted.utf8ByteSize : Int) ≤ limit then (redacted, false) else (sliceBytes limit redacted, true)

/-- The two streams of a result within a limit, and whether anything was cut. -/
def boundStreams (stdout stderr : Output) (limit : Int) : String × String × Bool :=
  let out := boundAndRedact stdout limit
  let err := boundAndRedact stderr (max 0 (limit - out.1.utf8ByteSize))
  (out.1, err.1, out.2 || err.2)

/-- `_completed_result`. -/
def completedResult (returncode : Int) (stdout stderr : Output) (limit : Int) : CommandResult :=
  let (out, err, cut) := boundStreams stdout stderr limit
  { exitCode := some returncode, stdout := out, stderr := err, truncated := cut }

/-- `_timeout_result`. -/
def timeoutResult (stdout stderr : Output) (limit : Int) : CommandResult :=
  let (out, err, cut) := boundStreams stdout stderr limit
  { exitCode := Option.none, stdout := out, stderr := err, timedOut := true, truncated := cut }

/-! ## Reading a process -/

inductive Stream
  | stdout
  | stderr

/-- What the loop meets: its deadline, or a chunk of a stream. -/
inductive PumpEvent
  | timeUp
  | chunk (key : Stream) (bytes : List UInt8)

/-- What was captured. -/
structure Capture where
  stdout : List UInt8 := []
  stderr : List UInt8 := []
  total : Int := 0

/-- A chunk is kept as far as there is room. -/
def Capture.extend (c : Capture) (room : Int) : Stream → List UInt8 → Capture
  | .stdout, bytes => { c with stdout := c.stdout ++ bytes.take room.toNat, total := c.total + min room bytes.length }
  | .stderr, bytes => { c with stderr := c.stderr ++ bytes.take room.toNat, total := c.total + min room bytes.length }

/-- The loop of `_execute_bounded`: what was captured, whether the time was up, and whether there was too much. -/
def pump (limit : Int) (c : Capture) : List PumpEvent → Capture × Bool × Bool
  | [] => (c, false, false)
  | .timeUp :: _ => (c, true, false)
  | .chunk key bytes :: rest =>
    let room := limit - c.total
    let c' := if 0 < room then c.extend room key bytes else c
    if room < bytes.length then (c', false, true) else pump limit c' rest

/-! ## Commands and answers -/

inductive CommandKind
  | create
  | start
  | seed
  | copyIn
  | exec
  | copyOut
  | remove
deriving DecidableEq

/-- A command for podman. -/
structure Command where
  kind : CommandKind
  argv : List String
deriving DecidableEq

/-- A command that was issued, and whether it returned and, but for `exec`, with 0. -/
structure Issued where
  command : Command
  confirmed : Bool
deriving DecidableEq

/-- What the executor does with a command. -/
inductive Answer
  | completed (returncode : Int) (stdout stderr : Output)
  | timeout (stdout stderr : Output)
  | raised
  /-- A process of its own, with what its loop met. -/
  | process (returncode : Int) (events : List PumpEvent)

/-- The world outside: the clock's readings, as what they leave of the wall time, and the answers. -/
structure Environment where
  remaining : Nat → Int
  answer : List Issued → Command → Answer
  /-- The workspace is a directory. -/
  directory : List Issued → Bool
  /-- The path the workspace resolves to. -/
  resolved : String

/-- Why a step fails. -/
inductive Fault
  | timeout (stdout stderr : Output)
  | failure

/-- The sandbox in the middle of a call. -/
structure Session where
  issued : List Issued := []
  readings : Nat := 0
  lifecycleFailed : Bool := false

/-- `SandboxLimits`. -/
structure SandboxLimits where
  cpus : Int := 1
  memory : String := "1g"
  pids : Int := 256
  nofile : Int := 1024
  wallTimeoutSeconds : Int := 1200
  commandTimeoutSeconds : Int := 600
  maxOutputBytes : Int := 2097152
  uid : Int := 65532
  gid : Int := 65532

/-- `PodmanSandbox`. -/
structure PodmanSandbox where
  image : String
  workspace : String
  name : String
  limits : SandboxLimits := {}

/-- `_ALLOWED_EXECUTABLES`. -/
def allowedExecutables : List String :=
  ["python", "python3", "pytest", "node", "npm", "npx", "go", "cargo", "rustc", "patch", "make", "cmake", "java", "javac"]

/-- `_validate_command` accepts. -/
def validateCommand : List String → Bool
  | [] => false
  | executable :: rest =>
    (executable :: rest).all (fun part => part ≠ "" && !part.toList.contains '\x00') &&
    allowedExecutables.contains executable

/-- `_SAFE_NAME`. -/
def safeName (name : String) : Bool :=
  match name.toList with
  | [] => false
  | c :: rest => c.isAlphanum && decide (rest.length ≤ 62) &&
      rest.all fun d => d.isAlphanum || d == '_' || d == '.' || d == '-'

/-- `build_podman_argv`. -/
def buildPodmanArgv (P : PodmanSandbox) (command : List String) (holderTimeout : Int) : Except String (List String) :=
  let l := P.limits
  if validateCommand command = false then .error "command rejected"
  else if P.image = "" ∨ P.image.toList.any isSpace = true then .error "invalid image"
  else if safeName P.name = false then .error "invalid container name"
  else if P.workspace.toList.head? ≠ some '/' then .error "workspace must be absolute"
  else if l.cpus ≤ 0 ∨ l.pids ≤ 0 ∨ l.nofile ≤ 0 ∨ l.wallTimeoutSeconds ≤ 0 ∨ l.commandTimeoutSeconds ≤ 0 ∨
      l.maxOutputBytes ≤ 0 ∨ l.uid ≤ 0 ∨ l.gid ≤ 0 then
    .error "sandbox limits must be positive"
  else if holderTimeout ≤ 0 then .error "holder timeout must be positive"
  else .ok
    ["podman", "create", s!"--name={P.name}", "--rm", "--pull=never", "--network=none", "--http-proxy=false",
     "--read-only", "--read-only-tmpfs=false", "--image-volume=ignore", "--cap-drop=all",
     "--security-opt=no-new-privileges", "--pid=private", "--ipc=private", s!"--pids-limit={l.pids}",
     s!"--memory={l.memory}", s!"--memory-swap={l.memory}", s!"--cpus={l.cpus}",
     s!"--ulimit=nofile={l.nofile}:{l.nofile}", s!"--user={l.uid}:{l.gid}",
     s!"--userns=keep-id:uid={l.uid},gid={l.gid}", "--workdir=/workspace",
     "--label=io.lil-tweak.runner=code-engineer-v1",
     s!"--tmpfs=/workspace:rw,exec,nosuid,nodev,notmpcopyup,size=268435456,nr_inodes=65536,uid={l.uid},gid={l.gid},mode=0700",
     "--tmpfs=/tmp:rw,exec,nosuid,nodev,size=64m,nr_inodes=8192", "--entrypoint=python3", P.image, "-I", "-c",
     s!"import time; time.sleep({holderTimeout})"]

/-! ## The steps -/

/-- A command has been issued. -/
def Session.issue (s : Session) (command : Command) (confirmed : Bool) : Session :=
  { s with issued := s.issued ++ [{ command, confirmed }] }

/-- The clock has been read. -/
def Session.read (s : Session) : Session := { s with readings := s.readings + 1 }

/-- `self._lifecycle_failed = True`. -/
def Session.fail (s : Session) : Session := { s with lifecycleFailed := true }

section
variable (E : Environment) (P : PodmanSandbox)

/-- `_control`. -/
def control (s : Session) (c : Command) : Session × Except Fault Unit :=
  if E.remaining s.readings ≤ 0 then (s.read, .error (.timeout .none .none))
  else
    match E.answer s.issued c with
    | .completed 0 _ _ => (s.read.issue c true, .ok ())
    | .timeout stdout stderr => (s.read.issue c false, .error (.timeout stdout stderr))
    | _ => (s.read.issue c false, .error .failure)

/-- What is done before a command runs. -/
inductive Setup
  | command (c : Command)
  | directory

/-- The steps before a command, until one fails. -/
def setUp : Session → List Setup → Session × Except Fault Unit
  | s, [] => (s, .ok ())
  | s, .directory :: rest => if E.directory s.issued = false then (s, .error .failure) else setUp s rest
  | s, .command c :: rest =>
    match control E s c with
    | (s', .error f) => (s', .error f)
    | (s', .ok ()) => setUp s' rest

/-- The container is created, started and seeded. -/
def opening (createArgv : List String) : List Setup :=
  [.command ⟨.create, createArgv⟩,
   .command ⟨.start, ["podman", "start", P.name]⟩,
   .directory,
   .command ⟨.seed, ["podman", "cp", E.resolved ++ "/.", P.name ++ ":/workspace"]⟩]

/-- `_execute_bounded`. -/
def executeBounded (s : Session) (c : Command) (limit : Int) : Session × Except Fault CommandResult :=
  match E.answer s.issued c with
  | .completed returncode stdout stderr => (s.issue c true, .ok (completedResult returncode stdout stderr limit))
  | .timeout stdout stderr => (s.issue c false, .ok (timeoutResult stdout stderr limit))
  | .raised => (s.issue c false, .error .failure)
  | .process returncode events =>
    let (captured, timedOut, truncated) := pump limit {} events
    let result := completedResult returncode (.bytes captured.stdout) (.bytes captured.stderr) limit
    (s.issue c true,
      .ok (if timedOut then { result with exitCode := Option.none, timedOut := true }
        else if truncated then { result with exitCode := Option.none, truncated := true }
        else result))

/-- The answer where the wall time is used up. -/
def wallClockResult : CommandResult :=
  { exitCode := Option.none, stdout := "", stderr := "sandbox wall-clock limit exceeded", timedOut := true }

/-- `_lifecycle_failure_result`. -/
def lifecycleFailureResult : CommandResult :=
  let (stderr, truncated) := boundAndRedact (.text "sandbox lifecycle failed") P.limits.maxOutputBytes
  { exitCode := Option.none, stdout := "", stderr, truncated }

/-- The handlers of a call. -/
def handle (s : Session) : Fault → Session × CommandResult
  | .timeout stdout stderr => (s, timeoutResult stdout stderr P.limits.maxOutputBytes)
  | .failure => (s.fail, lifecycleFailureResult P)

/-- `podman rm` of the container. -/
def removal : Command := ⟨.remove, ["podman", "rm", "--force", "--ignore", P.name]⟩

/-- `_strict_remove`, and whether it was confirmed. -/
def strictRemove (s : Session) : Session × Bool :=
  match E.answer s.issued (removal P) with
  | .completed 0 _ _ => (s.issue (removal P) true, true)
  | _ => ((s.issue (removal P) false).fail, false)

/-- The end of a call: the removal, which has to be confirmed. -/
def close {α : Type} (s : Session) (result : α) (failure : α) : Session × α :=
  match strictRemove E P s with
  | (s', true) => (s', result)
  | (s', false) => (s'.fail, failure)

/-! ## A batch -/

/-- The bytes of a result. -/
def resultSize (r : CommandResult) : Nat := r.stdout.utf8ByteSize + r.stderr.utf8ByteSize

/-- The time a command may take. -/
def boundedTimeout (timeout : Option Int) (wall : Int) : Int :=
  min (timeout.getD P.limits.commandTimeoutSeconds) (min P.limits.commandTimeoutSeconds wall)

/-- The loop over the commands of a batch. -/
def runCommands (s : Session) (remainingOutput : Int) (results : List CommandResult) :
    List (List String × Option Int) → Session × List CommandResult × Option Fault
  | [] => (s, results, Option.none)
  | (command, timeout) :: rest =>
    if remainingOutput ≤ 0 then (s, results, Option.none)
    else if boundedTimeout P timeout (E.remaining s.readings) ≤ 0 then
      (s.read, results ++ [wallClockResult], Option.none)
    else
      match executeBounded E s.read ⟨.exec, ["podman", "exec", P.name] ++ command⟩ remainingOutput with
      | (s', .error f) => (s', results, some f)
      | (s', .ok result) =>
        if result.timedOut || result.truncated then (s', results ++ [result], Option.none)
        else runCommands s' (remainingOutput - resultSize result) (results ++ [result]) rest

/-- The body of a batch with its handlers. -/
def batchBody (s : Session) (createArgv : List String) (commands : List (List String × Option Int)) :
    Session × List CommandResult :=
  match setUp E s (opening E P createArgv) with
  | (s', .error f) => ((handle P s' f).1, [(handle P s' f).2])
  | (s', .ok ()) =>
    match runCommands E P s' P.limits.maxOutputBytes [] commands with
    | (s'', results, Option.none) => (s'', results)
    | (s'', results, some f) => ((handle P s'' f).1, results ++ [(handle P s'' f).2])

/-- `run_ephemeral_batch`. -/
def runEphemeralBatch (s : Session) (commands : List (List String × Option Int)) :
    Session × Except String (List CommandResult) :=
  if commands.length < 1 ∨ 32 < commands.length then (s, .error "invalid ephemeral batch size")
  else if commands.all (fun c => validateCommand c.1) = false then (s, .error "command rejected")
  else
    let wall := E.remaining s.readings
    if wall ≤ 0 then close E P s.read (.ok [wallClockResult]) (.ok [lifecycleFailureResult P])
    else
      match buildPodmanArgv P ((commands.head?.map Prod.fst).getD []) (wall + 60) with
      | .error message => (s.read, .error message)
      | .ok createArgv =>
        if commands.any (fun c => c.2.any fun timeout => timeout ≤ 0) = true then
          (s.read, .error "timeout must be positive")
        else
          let (s', results) := batchBody E P s.read createArgv commands
          close E P s' (.ok results) (.ok [lifecycleFailureResult P])

/-! ## A patch candidate -/

/-- What the files of a patch are found to be. -/
inductive Staged
  | proper
  | improper
  | raised

/-- The command that applies a patch. -/
def patchArgv : List String :=
  ["patch", "--batch", "--forward", "--strip=1", "--no-backup-if-mismatch", "--reject-file=-",
   "--input=/tmp/lil-tweak.patch"]

/-- An exact success. -/
def succeeded (r : CommandResult) : Bool := r.exitCode == some 0 && !r.timedOut && !r.truncated

/-- The run of the patch command, and the copy of what it left. -/
def applyCandidate (s : Session) (timeout : Int) (candidate : String) : Session × Except Fault CommandResult :=
  if min timeout (E.remaining s.readings) ≤ 0 then (s.read, .ok wallClockResult)
  else
    match executeBounded E s.read ⟨.exec, ["podman", "exec", P.name] ++ patchArgv⟩ P.limits.maxOutputBytes with
    | (s', .error f) => (s', .error f)
    | (s', .ok result) =>
      if succeeded result = false then (s', .ok result)
      else
        match control E s' ⟨.copyOut, ["podman", "cp", P.name ++ ":/workspace/.", candidate]⟩ with
        | (s'', .error f) => (s'', .error f)
        | (s'', .ok ()) => (s'', .ok result)

/-- The body of a staged patch with its handlers. -/
def stageBody (s : Session) (createArgv : List String) (timeout : Int) (source candidate : String) :
    Session × CommandResult :=
  match setUp E s (opening E P createArgv ++
      [.command ⟨.copyIn, ["podman", "cp", source, P.name ++ ":/tmp/lil-tweak.patch"]⟩]) with
  | (s', .error f) => handle P s' f
  | (s', .ok ()) =>
    match applyCandidate E P s' timeout candidate with
    | (s'', .error f) => handle P s'' f
    | (s'', .ok result) => (s'', result)

/-- `stage_patch_candidate`. -/
def stagePatchCandidate (s : Session) (staged : Staged) (source candidate : String) (timeout : Option Int) :
    Session × Except String CommandResult :=
  match staged with
  | .raised => (s, .error "OSError")
  | .improper => (s.fail, .ok (lifecycleFailureResult P))
  | .proper =>
    let wall := E.remaining s.readings
    let bounded := boundedTimeout P timeout wall
    if bounded ≤ 0 ∨ wall ≤ 0 then close E P s.read (.ok wallClockResult) (.ok (lifecycleFailureResult P))
    else
      match buildPodmanArgv P patchArgv (wall + 60) with
      | .error message => (s.read, .error message)
      | .ok createArgv =>
        let (s', result) := stageBody E P s.read createArgv bounded source candidate
        close E P s' (.ok result) (.ok (lifecycleFailureResult P))

end

end LilTweak.Sandbox
