import LilTweak.Agent.Cuts
import LilTweak.Agent.Observations
import LilTweak.Evidence.Patch
import LilTweak.SkillForge.Text
import Mathlib

/-!
# The log of the commands

`build_command_evidence` writes the recorded executions into a bounded log, and lists what they were.
The argument behind a flag that announces a secret is replaced before anything is rendered, hashed or
counted, so that nothing of the evidence depends on it.
-/

namespace LilTweak.Evidence

open LilTweak.Lib LilTweak.Core LilTweak.Worlds LilTweak.Agent
open LilTweak.SkillForge (folded literal spaces gap joint)

/-! ## Redaction -/

/-- The names of `_SECRET_ASSIGNMENT`. -/
def secretName : Pattern :=
  .any (literal "authorization") [.all [literal "api", joint, literal "key"], .all [literal "access", joint, literal "key"],
    literal "token", literal "password", literal "secret"]

/-- What stands behind a name: an assignment and its value. -/
def secretValue : Pattern :=
  .all [spaces, .one (fun c => c = ':' || c = '='), spaces, .optional (.seq (literal "bearer") gap),
    .run (fun c => !(isSpace c || c = ',' || c = ';')) 1 none]

/-- The scheme of `_URL_USERINFO`. -/
def urlScheme : Pattern := .all [literal "http", .run (fun c => folded c == 's'.toNat) 0 (some 1), literal "://"]

/-- The user and the password in front of a host. -/
def userInfo : Pattern :=
  .all [.run (fun c => !(c = '/' || c = '@' || c = ':' || isSpace c)) 1 none,
    .optional (.seq (literal ":") (.run (fun c => !(c = '/' || c = '@' || isSpace c)) 0 none)), literal "@"]

/-- `_redact_text`. -/
def redactText (text : String) : String :=
  String.ofList (Pattern.substitute urlScheme userInfo "[REDACTED]@".toList
    (Pattern.substitute secretName secretValue "=[REDACTED]".toList text.toList))

example : redactText "API_KEY: Bearer abc, https://me:pw@host/" = "API_KEY=[REDACTED], https://[REDACTED]@host/" := by
  decide +kernel

/-! ## One command -/

/-- `_SECRET_FLAGS`. -/
def secretFlags : List String := ["--api-key", "--access-key", "--authorization", "--password", "--secret", "--token"]

/-- `_bounded_utf8`. -/
def boundedUtf8 (value : String) (limit : Nat) : String × Bool :=
  if value.utf8ByteSize ≤ limit then (value, false) else (cutBytes limit value ++ "…", true)

/-- `json.dumps(parts, ensure_ascii=False, separators=(",", ":"))`. -/
def dumpsList (parts : List String) : String := "[" ++ ",".intercalate (parts.map Json.quote) ++ "]"

section
variable (casefold : String → String) (sha256 : Sha256)

/-- The first loop of `_sanitize_argv`: the argument behind a secret flag is replaced. -/
def sanitizedParts : Bool → List String → List String
  | _, [] => []
  | true, _ :: rest => "[REDACTED]" :: sanitizedParts false rest
  | false, part :: rest => redactText part :: sanitizedParts (secretFlags.contains (casefold part)) rest

/-- The second loop of `_sanitize_argv`: what is displayed, and whether anything was cut. -/
def displayParts (displayed : List String) (truncated : Bool) : List String → List String × Bool
  | [] => (displayed, truncated)
  | part :: rest =>
    let (bounded, partTruncated) := boundedUtf8 part 256
    if 2048 < (dumpsList (displayed ++ [bounded])).utf8ByteSize then (displayed ++ ["[TRUNCATED]"], true)
    else displayParts (displayed ++ [bounded]) (truncated || partTruncated) rest

/-- `_sanitize_argv`: the displayed command, its hash, and whether it was cut. -/
def sanitizeArgv (command : List String) : List String × String × Bool :=
  let sanitized := sanitizedParts casefold false command
  let (displayed, truncated) := displayParts [] false sanitized
  (displayed, sha256 (encodeUtf8 (dumpsList sanitized).toList), truncated)

/-! ## The evidence -/

/-- The fields of the manifest that `build_command_evidence` makes. -/
structure CommandManifest where
  commands : List (List String)
  commandHashes : List String
  commandsDigest : String
  argvTruncated : List Bool
  operations : List String
  exitStatuses : List (Option Int)
  timeouts : List Bool
  truncation : List Bool
  deriving DecidableEq

/-- `str(value).lower()` of a truth value. -/
def lowerBool (b : Bool) : String := if b then "true" else "false"

/-- The operation of an execution, as the manifest names it. -/
def operationName (o : Observation) : String :=
  if o.operation = "run_command" ∨ o.operation = "apply_patch" then o.operation else "unknown"

/-- The entry of the log for one execution. -/
def logEntry (o : Observation) : String :=
  "$ " ++ dumpsList (sanitizeArgv casefold sha256 o.command).1 ++ "\n" ++
    "exit_code=" ++ (match o.exitCode with | none => "None" | some code => toString code) ++
    " timed_out=" ++ lowerBool o.timedOut ++ " truncated=" ++ lowerBool o.truncated ++ "\n" ++
    "[stdout]\n" ++ redactText o.stdout ++ "\n" ++ "[stderr]\n" ++ redactText o.stderr ++ "\n"

/-- The loop over the executions: the parts of the log, each with its truncation flag. -/
def logParts : Nat → List Observation → List (String × Bool)
  | _, [] => []
  | remaining, o :: rest =>
    let entry := logEntry casefold sha256 o
    if remaining < entry.utf8ByteSize then (cutBytes remaining entry, true) :: logParts 0 rest
    else (entry, o.truncated) :: logParts (remaining - entry.utf8ByteSize) rest

/-- `build_command_evidence` of well-formed observations: the log and the manifest; nothing where there
are too many. -/
def buildCommandEvidence (observations : List Observation) (maxBytes : Nat) : Option (String × CommandManifest) :=
  if 512 < observations.length then none
  else
    let sanitized := observations.map fun o => sanitizeArgv casefold sha256 o.command
    let parts := logParts casefold sha256 maxBytes observations
    let hashes := sanitized.map fun s => s.2.1
    some (String.join (parts.map Prod.fst),
      { commands := sanitized.map fun s => s.1, commandHashes := hashes
        commandsDigest := sha256 (encodeUtf8 (dumpsList hashes).toList)
        argvTruncated := sanitized.map fun s => s.2.2
        operations := observations.map operationName
        exitStatuses := observations.map Observation.exitCode
        timeouts := observations.map Observation.timedOut
        truncation := parts.map Prod.snd })

end

/-! ## Bounds -/

variable {casefold : String → String} {sha256 : Sha256}

/-- The parts of a log keep to its bytes. -/
theorem logParts_size (remaining : Nat) (observations : List Observation) :
    (((logParts casefold sha256 remaining observations).map Prod.fst).map String.utf8ByteSize).sum ≤ remaining := by
  induction observations generalizing remaining with
  | nil => exact Nat.zero_le _
  | cons o rest ih =>
    rw [logParts]
    split
    · have hcut := cutBytes_le remaining (logEntry casefold sha256 o)
      have hrest := ih 0
      simp only [List.map_cons, List.sum_cons]
      omega
    · next hfits =>
      have hrest := ih (remaining - (logEntry casefold sha256 o).utf8ByteSize)
      simp only [List.map_cons, List.sum_cons]
      omega

/-- A part of the log with the flag of its execution. -/
structure PartOf (casefold : String → String) (sha256 : Sha256) (o : Observation) (part : String × Bool) : Prop where
  front : part.1.toList <+: (logEntry casefold sha256 o).toList
  flagged : part.1 ≠ logEntry casefold sha256 o → part.2 = true
  recorded : part.1 = logEntry casefold sha256 o → o.truncated = true → part.2 = true

/-- The parts are those of the executions, in order. -/
theorem logParts_partOf (remaining : Nat) (observations : List Observation) :
    List.Forall₂ (PartOf casefold sha256) observations (logParts casefold sha256 remaining observations) := by
  induction observations generalizing remaining with
  | nil => exact .nil
  | cons o rest ih =>
    rw [logParts]
    split
    · exact .cons ⟨cutBytes_begins _ _, fun _ => rfl, fun _ _ => rfl⟩ (ih _)
    · exact .cons ⟨List.prefix_refl _, fun hcut => absurd rfl hcut, fun _ hflag => hflag⟩ (ih _)

/-! ## Secrets -/

/-- Two commands differ only in arguments behind a secret flag that is not itself replaced; the first
argument says whether such a flag has just been read. -/
inductive SameButSecrets (casefold : String → String) : Bool → List String → List String → Prop
  | nil (behind : Bool) : SameButSecrets casefold behind [] []
  | secret (part part' : String) (rest rest' : List String) (h : SameButSecrets casefold false rest rest') :
      SameButSecrets casefold true (part :: rest) (part' :: rest')
  | same (part : String) (rest rest' : List String)
      (h : SameButSecrets casefold (secretFlags.contains (casefold part)) rest rest') :
      SameButSecrets casefold false (part :: rest) (part :: rest')

/-- Two executions that differ only so. -/
structure Indistinguishable (casefold : String → String) (o o' : Observation) : Prop where
  command : SameButSecrets casefold false o.command o'.command
  rest : { o with command := [] } = { o' with command := [] }

theorem SameButSecrets.sanitized {behind : Bool} {command command' : List String}
    (h : SameButSecrets casefold behind command command') :
    sanitizedParts casefold behind command = sanitizedParts casefold behind command' := by
  induction h with
  | nil => rfl
  | secret part part' rest rest' h ih => rw [sanitizedParts, sanitizedParts, ih]
  | same part rest rest' h ih => rw [sanitizedParts, sanitizedParts, ih]

theorem Indistinguishable.argv {o o' : Observation} (h : Indistinguishable casefold o o') :
    sanitizeArgv casefold sha256 o.command = sanitizeArgv casefold sha256 o'.command := by
  unfold sanitizeArgv
  rw [h.command.sanitized]

theorem Indistinguishable.entry {o o' : Observation} (h : Indistinguishable casefold o o') :
    logEntry casefold sha256 o = logEntry casefold sha256 o' := by
  obtain ⟨operation, command, exitCode, timedOut, truncated, stdout, stderr⟩ := o
  obtain ⟨operation', command', exitCode', timedOut', truncated', stdout', stderr'⟩ := o'
  have hargv : sanitizeArgv casefold sha256 command = sanitizeArgv casefold sha256 command' := h.argv
  have hrest := h.rest
  simp only [Observation.mk.injEq] at hrest
  obtain ⟨rfl, -, rfl, rfl, rfl, rfl, rfl⟩ := hrest
  unfold logEntry
  dsimp only at hargv ⊢
  rw [hargv]

/-- A field that does not look at the command is told alike. -/
theorem Indistinguishable.field {o o' : Observation} (h : Indistinguishable casefold o o') {α : Type}
    (f : Observation → α) (hf : ∀ o : Observation, f o = f { o with command := [] }) : f o = f o' := by
  rw [hf o, hf o', h.rest]

theorem map_eq_of_indistinguishable {observations observations' : List Observation} {α : Type} (f : Observation → α)
    (h : List.Forall₂ (Indistinguishable casefold) observations observations')
    (hf : ∀ o o', Indistinguishable casefold o o' → f o = f o') : observations.map f = observations'.map f := by
  induction h with
  | nil => rfl
  | cons hfirst _ ih => rw [List.map_cons, List.map_cons, hf _ _ hfirst, ih]

theorem logParts_eq {observations observations' : List Observation}
    (h : List.Forall₂ (Indistinguishable casefold) observations observations') (remaining : Nat) :
    logParts casefold sha256 remaining observations = logParts casefold sha256 remaining observations' := by
  induction h generalizing remaining with
  | nil => rfl
  | cons hfirst _ ih =>
    rw [logParts, logParts, hfirst.entry]
    split
    · rw [ih]
    · rw [ih, hfirst.field Observation.truncated fun _ => rfl]

/-- Executions that differ only in secrets have the same evidence. -/
theorem buildCommandEvidence_eq {observations observations' : List Observation}
    (h : List.Forall₂ (Indistinguishable casefold) observations observations') (maxBytes : Nat) :
    buildCommandEvidence casefold sha256 observations maxBytes =
      buildCommandEvidence casefold sha256 observations' maxBytes := by
  have hargv := map_eq_of_indistinguishable (fun o => sanitizeArgv casefold sha256 o.command) h fun _ _ hpair => hpair.argv
  have hfield : ∀ {α : Type} (f : Observation → α), (∀ o : Observation, f o = f { o with command := [] }) →
      observations.map f = observations'.map f := fun f hf =>
    map_eq_of_indistinguishable f h fun _ _ hpair => hpair.field f hf
  unfold buildCommandEvidence
  rw [h.length_eq, hargv, logParts_eq h, hfield Observation.exitCode fun _ => rfl, hfield Observation.timedOut fun _ => rfl,
    hfield operationName fun _ => rfl]

/-- The evidence of at most 512 executions: its log keeps to the bytes, made of one part for each
execution, with the truncation flag set where the part is not the whole entry; every list of the manifest
has one element for each execution, in order; and executions that differ only in the arguments behind
secret flags have the same evidence. -/
theorem command_evidence (casefold : String → String) (sha256 : Sha256) (observations : List Observation)
    (hcount : observations.length ≤ 512) (maxBytes : Nat) : ∃ log manifest parts,
      buildCommandEvidence casefold sha256 observations maxBytes = some (log, manifest) ∧
      log.utf8ByteSize ≤ maxBytes ∧
      log = String.join (parts.map Prod.fst) ∧ List.Forall₂ (PartOf casefold sha256) observations parts ∧
      manifest.truncation = parts.map Prod.snd ∧
      manifest.commands = observations.map (fun o => (sanitizeArgv casefold sha256 o.command).1) ∧
      manifest.commandHashes = observations.map (fun o => (sanitizeArgv casefold sha256 o.command).2.1) ∧
      manifest.argvTruncated = observations.map (fun o => (sanitizeArgv casefold sha256 o.command).2.2) ∧
      manifest.operations = observations.map operationName ∧
      manifest.exitStatuses = observations.map Observation.exitCode ∧
      manifest.timeouts = observations.map Observation.timedOut ∧
      ∀ observations', List.Forall₂ (Indistinguishable casefold) observations observations' →
        buildCommandEvidence casefold sha256 observations' maxBytes = some (log, manifest) := by
  have hbuild : buildCommandEvidence casefold sha256 observations maxBytes = some _ :=
    if_neg (Nat.not_lt.mpr hcount)
  refine ⟨_, _, logParts casefold sha256 maxBytes observations, hbuild, ?_, rfl, logParts_partOf maxBytes observations,
    rfl, ?_, ?_, ?_, rfl, rfl, rfl, ?_⟩
  · rw [Json.size_join]
    exact logParts_size maxBytes observations
  · exact List.map_map
  · exact List.map_map
  · exact List.map_map
  · intro observations' hpair
    rw [← buildCommandEvidence_eq hpair maxBytes]
    exact hbuild

/-- A login with a password behind its flag. -/
def login (password : String) : Observation :=
  { operation := "run_command", command := ["npm", "login", "--password", password, "--token"], exitCode := some 0
    timedOut := false, truncated := false, stdout := "ok", stderr := "" }

/-- Two passwords leave one evidence, cut at ninety bytes. -/
theorem command_evidence_login : ∃ log manifest, log.utf8ByteSize ≤ 90 ∧
    buildCommandEvidence id (fun _ => "0") [login "hunter2", login ""] 90 = some (log, manifest) ∧
    buildCommandEvidence id (fun _ => "0") [login "swordfish", login "long and secret"] 90 = some (log, manifest) := by
  obtain ⟨log, manifest, parts, hbuild, hsize, -, -, -, -, -, -, -, -, -, hsame⟩ :=
    command_evidence id (fun _ => "0") [login "hunter2", login ""] (by decide) 90
  refine ⟨log, manifest, hsize, hbuild, hsame _ ?_⟩
  have hpair : ∀ password password', Indistinguishable id (login password) (login password') := by
    intro password password'
    refine ⟨?_, rfl⟩
    refine .same "npm" _ _ (.same "login" _ _ (.same "--password" _ _ ?_))
    exact .secret _ _ _ _ (.same "--token" _ _ (.nil _))
  exact .cons (hpair _ _) (.cons (hpair _ _) .nil)

end LilTweak.Evidence
