import LilTweak.Install.Snapshot
import LilTweak.Lib.Outcome
import Mathlib

/-!
# The configuration of the core

`Config.from_env` strips the white space of the values it looks up, white space of every kind, and an
optional value of which nothing is left counts as missing. The GitHub runner checks its token and its
repository again.
-/

namespace LilTweak.Install

open LilTweak.Lib LilTweak.Signing LilTweak.Github

/-- What stops the core from starting. -/
inductive ConfigError
  | missing (s : Setting)
  /-- Also where `json` or `encode` raises another `ValueError`. -/
  | signingKeys
  | imageNotPinned
  | endpointNotHttps
  /-- `urlsplit` raises. -/
  | url
  | galorUrl
  | gitHosts
  | executionLimits
  | inodeCapacity
  | ownerScope
  | executionBackend
  | githubRunner
  /-- `None` has no `encode`. -/
  | attribute
  deriving DecidableEq

def ConfigError.message : ConfigError → String
  | .missing s => "missing configuration: " ++ s.name
  | .signingKeys => "invalid signing key configuration"
  | .imageNotPinned => "runner image must be digest-pinned"
  | .endpointNotHttps => "evidence endpoint must use HTTPS"
  | .url => "Invalid IPv6 URL"
  | .galorUrl => "invalid GALOR read-only URL"
  | .gitHosts => "invalid Git host allowlist"
  | .executionLimits => "invalid execution limits"
  | .inodeCapacity => "invalid work root inode capacity"
  | .ownerScope => "invalid canonical owner scope"
  | .executionBackend => "invalid execution backend"
  | .githubRunner => "invalid GitHub runner configuration"
  | .attribute => "'NoneType' object has no attribute 'encode'"

/-- `TRUSTED_WORK_ROOT_INODES`. -/
def trustedWorkRootInodes : Int := 3 * 65536 + 8192

structure Config where
  databaseUrl : List Char
  signingKeys : List (List Char × List UInt8)
  canonicalOwnerId : List Char
  openaiApiKey : List Char
  openaiModel : List Char
  runnerImage : List Char
  workRoot : List Char
  workRootInodes : Int
  evidenceBucket : List Char
  evidenceEndpoint : List Char
  awsAccessKeyId : List Char
  awsSecretAccessKey : List Char
  gitAllowedHosts : List (List Char)
  galorReadonlyUrl : Option (List Char)
  maxAdmittedJobs : Int
  jobTimeoutSeconds : Int
  executionBackend : List Char
  githubToken : Option (List Char)
  githubRepository : Option (List Char)

/-- `required`. -/
def required (values : Values) (s : Setting) : Except ConfigError (List Char) :=
  let value := trim isSpace ((values.get s).getD [])
  if value = [] then .error (.missing s) else .ok value

/-- `values.get(name, "").strip() or None`. -/
def optional (values : Values) (s : Setting) : Option (List Char) :=
  let value := trim isSpace ((values.get s).getD [])
  if value = [] then none else some value

/-- The signing keys. -/
def readSigningKeys (values : Values) : Except ConfigError (List (List Char × List UInt8)) := do
  let text ← required values .signingKeysJson
  match PyJson.loadsBy PyJson.dictHook text with
  | some (.obj fields) =>
    match fields.mapM signingKey with
    | some keys => if fields = [] then .error .signingKeys else .ok keys
    | none => .error .signingKeys
  | _ => .error .signingKeys

def readRunnerImage (values : Values) : Except ConfigError (List Char) := do
  let image ← required values .runnerImage
  if occursIn "@sha256:".toList image = false then .error .imageNotPinned else .ok image

def readOwner (values : Values) : Except ConfigError (List Char) := do
  let owner ← required values .canonicalOwnerId
  if owner ≠ canonicalOwnerScope then .error .ownerScope else .ok owner

/-- The backend, the token and the repository. -/
def readExecution (values : Values) :
    Except ConfigError (List Char × Option (List Char) × Option (List Char)) :=
  let backend := trim isSpace ((values.get .executionBackend).getD "local_podman".toList)
  let token := optional values .githubToken
  let repository := optional values .githubRepository
  if backend ≠ "local_podman".toList ∧ backend ≠ "github_actions".toList then .error .executionBackend
  else if backend = "github_actions".toList ∧
      ¬((token.any fun t => 32 ≤ (encodeUtf8 t).length) = true ∧
        (repository.any fun r => validGithubRepository (String.ofList r)) = true) then .error .githubRunner
  else if backend ≠ "github_actions".toList ∧ (token ≠ none ∨ repository ≠ none) then .error .githubRunner
  else .ok (backend, token, repository)

section
variable (T : Tables)

def decimalDigit (c : Char) : Option ℕ :=
  if c.isDigit then some (c.toNat - 48) else if c.toNat < 128 then none else T.digit c

/-- `int` of a text; it takes at most 4300 digits. -/
def readInt (text : List Char) : Option Int :=
  let body := trim isSpace text
  let digits := if body.head? = some '+' ∨ body.head? = some '-' then body.tail else body
  ((digits.splitOn '_').mapM fun group => if group = [] then none else group.mapM (decimalDigit T)).bind fun groups =>
    if 4300 < groups.flatten.length then none
    else
      let n : ℕ := groups.flatten.foldl (fun n d => 10 * n + d) 0
      some (if body.head? = some '-' then -(n : Int) else n)

def readEndpoint (values : Values) : Except ConfigError (List Char) := do
  let endpoint ← required values .evidenceEndpoint
  match splitUrl T endpoint with
  | none => .error .url
  | some parsed => if parsed.scheme ≠ "https".toList then .error .endpointNotHttps else .ok endpoint

def readGalor (values : Values) : Except ConfigError (Option (List Char)) :=
  match optional values .galorReadonlyUrl with
  | none => .ok none
  | some galor =>
    match splitUrl T galor with
    | none => .error .url
    | some parsed =>
      if parsed.scheme ≠ "https".toList ∨ parsed.hostname T = [] ∨ parsed.userinfo ≠ (none, none) ∨ parsed.query ≠ [] ∨
          parsed.fragment ≠ [] then .error .galorUrl
      else .ok (some galor)

def readHosts (values : Values) : Except ConfigError (List (List Char)) :=
  let hosts := gitHosts T ((values.get .gitAllowedHosts).getD [])
  if validGitHosts hosts = false then .error .gitHosts else .ok hosts

/-- The number of jobs and the seconds a job may take. -/
def readLimits (values : Values) : Except ConfigError (Int × Int) :=
  match readInt T ((values.get .maxAdmittedJobs).getD "1".toList),
    readInt T ((values.get .jobTimeoutSeconds).getD "1200".toList) with
  | some jobs, some seconds =>
    if jobs ≠ 1 ∨ ¬(60 ≤ seconds ∧ seconds ≤ 3600) then .error .executionLimits else .ok (jobs, seconds)
  | _, _ => .error .executionLimits

def readInodes (values : Values) : Except ConfigError Int :=
  match readInt T ((values.get .workRootInodes).getD []) with
  | none => .error .inodeCapacity
  | some inodes => if inodes ≠ trustedWorkRootInodes then .error .inodeCapacity else .ok inodes

/-- `Config.from_env`. -/
def Config.fromEnv (values : Values) : Except ConfigError Config := do
  let signingKeys ← readSigningKeys values
  let runnerImage ← readRunnerImage values
  let evidenceEndpoint ← readEndpoint T values
  let galorReadonlyUrl ← readGalor T values
  let gitAllowedHosts ← readHosts T values
  let (maxAdmittedJobs, jobTimeoutSeconds) ← readLimits T values
  let workRootInodes ← readInodes T values
  let canonicalOwnerId ← readOwner values
  let (executionBackend, githubToken, githubRepository) ← readExecution values
  let databaseUrl ← required values .databaseUrl
  let openaiApiKey ← required values .openaiApiKey
  let openaiModel ← required values .openaiModel
  let workRoot ← required values .workRoot
  let evidenceBucket ← required values .evidenceBucket
  let awsAccessKeyId ← required values .r2AccessKeyId
  let awsSecretAccessKey ← required values .r2SecretAccessKey
  .ok { databaseUrl, signingKeys, canonicalOwnerId, openaiApiKey, openaiModel, runnerImage, workRoot, workRootInodes
        evidenceBucket, evidenceEndpoint, awsAccessKeyId, awsSecretAccessKey, gitAllowedHosts, galorReadonlyUrl
        maxAdmittedJobs, jobTimeoutSeconds, executionBackend, githubToken, githubRepository }

end

/-! ## The runner -/

/-- `_WORKFLOW`. -/
def workflowName (s : List Char) : Bool :=
  s.all nameChar && ((".yml".toList.isSuffixOf s && decide (4 < s.length)) ||
    (".yaml".toList.isSuffixOf s && decide (5 < s.length)))

structure GithubActionsRunner where
  token : List Char
  repository : List Char
  workflow : List Char

/-- The workflow a runner is made for where none is named. -/
def defaultWorkflow : List Char := "tueiq-runner.yml".toList

/-- `GitHubActionsRunner.__init__`. -/
def GithubActionsRunner.init (token repository workflow : List Char) : Except ConfigError GithubActionsRunner :=
  if (encodeUtf8 token).length < 32 ∨ validGithubRepository (String.ofList repository) = false ∨
      workflowName workflow = false then .error .githubRunner
  else .ok ⟨token, repository, workflow⟩

/-- `_build_github_runner_verifier`: the runner of a configuration with this backend. -/
def buildGithubRunner (config : Config) : Except ConfigError (Option GithubActionsRunner) :=
  if config.executionBackend ≠ "github_actions".toList then .ok none
  else
    match config.githubToken, config.githubRepository with
    | some token, some repository => (GithubActionsRunner.init token repository defaultWorkflow).map some
    | _, _ => .error .attribute

end LilTweak.Install
