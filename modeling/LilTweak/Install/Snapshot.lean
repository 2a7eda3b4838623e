import LilTweak.Github.Manifest
import LilTweak.Install.Urlsplit
import LilTweak.Lib.JsonHooks
import Mathlib

/-!
# The installer's check of `core.env`

The installer reads the file of the core's settings line by line before it changes the host. A value is
kept as it is written; it begins and ends with no space, tab or control character, but other white space
is let through where the setting has no shape of its own.
-/

namespace LilTweak.Install

open LilTweak.Lib LilTweak.Signing LilTweak.Github

/-- The settings the core reads. -/
inductive Setting
  | databaseUrl
  | signingKeysJson
  | canonicalOwnerId
  | openaiApiKey
  | openaiModel
  | runnerImage
  | executionBackend
  | workRoot
  | workRootInodes
  | maxAdmittedJobs
  | jobTimeoutSeconds
  | evidenceBucket
  | evidenceEndpoint
  | r2AccessKeyId
  | r2SecretAccessKey
  | gitAllowedHosts
  | githubRepository
  | githubToken
  | galorReadonlyUrl
  deriving DecidableEq

def Setting.name : Setting → String
  | .databaseUrl => "LIL_TWEAK_DATABASE_URL"
  | .signingKeysJson => "LIL_TWEAK_SIGNING_KEYS_JSON"
  | .canonicalOwnerId => "LIL_TWEAK_CANONICAL_OWNER_ID"
  | .openaiApiKey => "OPENAI_API_KEY"
  | .openaiModel => "LIL_TWEAK_OPENAI_MODEL"
  | .runnerImage => "LIL_TWEAK_RUNNER_IMAGE"
  | .executionBackend => "LIL_TWEAK_EXECUTION_BACKEND"
  | .workRoot => "LIL_TWEAK_WORK_ROOT"
  | .workRootInodes => "LIL_TWEAK_WORK_ROOT_INODES"
  | .maxAdmittedJobs => "LIL_TWEAK_MAX_ADMITTED_JOBS"
  | .jobTimeoutSeconds => "LIL_TWEAK_JOB_TIMEOUT_SECONDS"
  | .evidenceBucket => "LIL_TWEAK_EVIDENCE_BUCKET"
  | .evidenceEndpoint => "LIL_TWEAK_EVIDENCE_ENDPOINT"
  | .r2AccessKeyId => "LIL_TWEAK_R2_ACCESS_KEY_ID"
  | .r2SecretAccessKey => "LIL_TWEAK_R2_SECRET_ACCESS_KEY"
  | .gitAllowedHosts => "LIL_TWEAK_GIT_ALLOWED_HOSTS"
  | .githubRepository => "LIL_TWEAK_GITHUB_REPOSITORY"
  | .githubToken => "LIL_TWEAK_GITHUB_TOKEN"
  | .galorReadonlyUrl => "LIL_TWEAK_GALOR_READONLY_URL"

/-- `REQUIRED_CORE_KEYS`. -/
def requiredCoreKeys : List Setting :=
  [.databaseUrl, .signingKeysJson, .canonicalOwnerId, .openaiApiKey, .openaiModel, .runnerImage, .executionBackend,
    .workRoot, .workRootInodes, .maxAdmittedJobs, .jobTimeoutSeconds, .evidenceBucket, .evidenceEndpoint, .r2AccessKeyId,
    .r2SecretAccessKey]

/-- `OPTIONAL_CORE_KEYS`. -/
def optionalCoreKeys : List Setting := [.gitAllowedHosts, .githubRepository, .githubToken]

/-- Names and their values, as a dictionary keeps them. -/
abbrev Values := List (List Char × List Char)

/-- The value of a setting. -/
def Values.get (values : Values) (s : Setting) : Option (List Char) := values.lookup s.name.toList

/-- `CANONICAL_OWNER_SCOPE`, in both programs. -/
def canonicalOwnerScope : List Char := "ab43c7488fb38a90c7bb9c4bcc0e23e5".toList

/-! ## The lines -/

/-- `_contains_noncharacter`. -/
def containsNoncharacter (value : List Char) : Bool :=
  value.any fun c => (0xFDD0 ≤ c.toNat && c.toNat ≤ 0xFDEF) || c.toNat % 0x10000 == 0xFFFE || c.toNat % 0x10000 == 0xFFFF

/-- One text stands somewhere in another. -/
def occursIn (part text : List Char) : Bool := text.tails.any part.isPrefixOf

def upper (c : Char) : Bool := decide ('A' ≤ c) && decide (c ≤ 'Z')

/-- `ASSIGNMENT_PATTERN`: a name and its value. -/
def assignment (line : List Char) : Option (List Char × List Char) :=
  let name := line.takeWhile (· ≠ '=')
  let value := (line.drop name.length).tail
  if (name.head?.any upper && name.all fun c => upper c || c.isDigit || c = '_') = true ∧ value ≠ [] then some (name, value)
  else none

/-- One line of the file, after the lines before it. -/
def readLine (values : Values) (line : List Char) : Option Values :=
  if ('\\' ∈ line) ∨ (line.any fun c => c.toNat < 32 || c.toNat = 127) = true then none
  else if line = [] ∨ line.head? = some '#' then some values
  else
    match assignment line with
    | none => none
    | some (name, value) =>
      if (values.lookup name).isSome ∨ value.head? ∈ [some '\'', some '"', some ' ', some '\t'] ∨
          value.getLast? ∈ [some ' ', some '\t'] then none
      else some (values ++ [(name, value)])

/-- The assignments of a text, which ends with a line feed. -/
def assignments (text : List Char) : Option Values := (text.dropLast.splitOn '\n').foldlM readLine []

/-! ## The shapes of values -/

def lowerAlnum (c : Char) : Bool := (decide ('a' ≤ c) && decide (c ≤ 'z')) || c.isDigit

/-- One component of a repository: letters and digits, with single separators between them. -/
def imageComponent (s : List Char) : Bool :=
  s.head?.any lowerAlnum && s.getLast?.any lowerAlnum &&
    (s.splitBy fun a b => lowerAlnum a == lowerAlnum b).all fun run =>
      run.all lowerAlnum || run = ['.'] || run = ['_'] || run = ['_', '_'] || run.all (· = '-')

/-- `IMAGE_PATTERN`, and the bound on the port. -/
def validImageReference (value : List Char) : Bool :=
  let registry := value.takeWhile fun c => !(c == ':' || c == '/')
  let rest := value.dropWhile fun c => !(c == ':' || c == '/')
  let port := if rest.head? = some ':' then rest.tail.takeWhile (· ≠ '/') else []
  let rest := if rest.head? = some ':' then rest.tail.dropWhile (· ≠ '/') else rest
  let repository := rest.tail.takeWhile (· ≠ '@')
  let digest := rest.tail.dropWhile (· ≠ '@')
  decide (registry.length ≤ 253) && registry.head?.any lowerAlnum && registry.getLast?.any lowerAlnum &&
    registry.all (fun c => lowerAlnum c || c = '.' || c = '-') &&
    (((value.dropWhile fun c => !(c == ':' || c == '/')).head? ≠ some ':') ||
      (decide (1 ≤ port.length) && decide (port.length ≤ 5) && port.all Char.isDigit && decide (port.head? ≠ some '0') &&
        decide (Nat.ofDigitChars 10 port 0 ≤ 65535))) &&
    decide (rest.head? = some '/') && (repository.splitOn '/').all imageComponent &&
    "@sha256:".toList.isPrefixOf digest && decide (digest.length = 72) && (digest.drop 8).all Github.hexDigit

/-- `[A-Za-z0-9_-]`. -/
def passwordChar (c : Char) : Bool := c.isAlphanum || c = '_' || c = '-'

/-- `DATABASE_PATTERN`: the password of the URL. -/
def databasePassword (value : List Char) : Option (List Char) :=
  let front := "postgresql://lil_tweak_app:".toList
  let password := (value.drop front.length).takeWhile passwordChar
  if front.isPrefixOf value = true ∧ 32 ≤ password.length ∧ password.length ≤ 128 ∧
      value.drop (front.length + password.length) = "@lil-tweak-postgres:5432/lil_tweak".toList then some password
  else none

/-- `SIGNING_KEY_ID_PATTERN`, the same in both programs. -/
def signingKeyId (key : PyStr) : Bool :=
  match key.mapM CodePoint.char? with
  | some (c :: rest) => c.isAlphanum && decide (rest.length ≤ 63) && rest.all nameChar
  | _ => false

/-- `str.encode("utf-8")`, which raises on a surrogate. -/
def encodeStr (s : PyStr) : Option (List UInt8) := (s.mapM CodePoint.char?).map encodeUtf8

/-- A field of the signing keys. -/
def signingKey (field : PyStr × PyJson) : Option (List Char × List UInt8) :=
  match field with
  | (key, .str secret) =>
    if signingKeyId key = true then
      match key.mapM CodePoint.char?, encodeStr secret with
      | some name, some bytes => if 32 ≤ bytes.length then some (name, bytes) else none
      | _, _ => none
    else none
  | _ => none

/-- `_valid_signing_keys`. What raises there makes the file refused all the same. -/
def validSigningKeys (value : List Char) : Bool :=
  match PyJson.loadsBy PyJson.objectOf value with
  | some (.obj fields) => fields ≠ [] && fields.all fun field => (signingKey field).isSome
  | _ => false

/-- `_valid_git_hosts`, of the hosts it lists. -/
def validGitHosts (hosts : List (List Char)) : Bool :=
  hosts.all fun host =>
    decide (1 ≤ host.length) && decide (host.length ≤ 253) && host.all (fun c => c.isAlphanum || c = '.' || c = '-') &&
      decide (host.head? ≠ some '.') && decide (host.getLast? ≠ some '.')

section
variable (T : Tables)

/-- The hosts of an allowlist, read by both programs. -/
def gitHosts (value : List Char) : List (List Char) :=
  ((value.splitOn ',').map (trim isSpace)).filter (· ≠ []) |>.map T.lower

/-- `_valid_https_endpoint`; `none` where `urlsplit` raises. -/
def validHttpsEndpoint (value : List Char) : Option Bool :=
  (splitUrl T value).map fun parsed =>
    match parsed.port with
    | none => false
    | some port =>
      let host := parsed.hostname T
      if parsed.scheme ≠ "https".toList ∨ host = [] ∨ parsed.userinfo ≠ (none, none) ∨ parsed.query ≠ [] ∨
          parsed.fragment ≠ [] ∨ ¬(parsed.path = [] ∨ parsed.path = ['/']) ∨ port = some 0 then false
      else
        let host := if ':' ∈ host then '[' :: host ++ [']'] else host
        let netloc := match port with
          | none => host
          | some n => host ++ ':' :: Nat.toDigits 10 n
        let canonical := "https://".toList ++ netloc
        value = canonical || value = canonical ++ ['/']

/-! ## The file -/

/-- The values a file may have. -/
def checkValues (values : Values) (appPassword : List Char) : Option (List Char) :=
  let backend := values.get .executionBackend
  let repository := values.get .githubRepository
  let token := values.get .githubToken
  if (requiredCoreKeys.all fun s => (values.get s).isSome) = false then none
  else if (values.all fun v => (requiredCoreKeys ++ optionalCoreKeys).any fun s => s.name.toList = v.1) = false then none
  else if (values.get .galorReadonlyUrl).isSome then none
  else if (values.get .runnerImage).any validImageReference = false then none
  else if values.get .workRoot ≠ some "/var/lib/lil-tweak/work".toList then none
  else if values.get .workRootInodes ≠ some "204800".toList then none
  else if values.get .maxAdmittedJobs ≠ some "1".toList then none
  else if values.get .jobTimeoutSeconds ≠ some "1200".toList then none
  else if values.get .canonicalOwnerId ≠ some canonicalOwnerScope then none
  else if (values.get .signingKeysJson).any validSigningKeys = false then none
  else if ((values.get .evidenceEndpoint).bind (validHttpsEndpoint T)) ≠ some true then none
  else if ((values.get .gitAllowedHosts).all fun value => validGitHosts (gitHosts T value)) = false then none
  else if values.get .executionBackend = some "github_actions".toList ∧
      ¬((repository.any fun r => validGithubRepository (String.ofList r)) = true ∧
        (token.any fun t => 32 ≤ (encodeUtf8 t).length) = true) then none
  else if backend ≠ some "github_actions".toList ∧
      (backend ≠ some "local_podman".toList ∨ repository ≠ none ∨ token ≠ none) then none
  else if (values.get .databaseUrl).bind databasePassword ≠ some appPassword then none
  else values.get .runnerImage

/-- The text of a file: it ends with one line feed, and holds no byte order mark, noncharacter or placeholder. -/
def readText (data : List UInt8) : Option (List Char) :=
  if data.reverse.head? ≠ some 10 ∨ data.reverse.take 2 = [10, 10] then none
  else (decodeUtf8 data).bind fun text =>
    if '\ufeff' ∈ text ∨ containsNoncharacter text = true ∨ occursIn "CHANGE_ME".toList text = true then none else some text

/-- The assignments of a file. -/
def coreEnvironment (data : List UInt8) : Option Values := (readText data).bind assignments

/-- `_parse_core_environment`; `none` where it raises. -/
def parseCoreEnvironment (data : List UInt8) (appPassword : List Char) : Option (List Char) :=
  (coreEnvironment data).bind fun values => checkValues T values appPassword

end

end LilTweak.Install
