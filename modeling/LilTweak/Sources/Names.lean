import LilTweak.Lib.Unicode
import Mathlib

/-!
# Portable paths

`_safe_name` and `validate_portable_path`: what a path in a source archive, a checkout or a
workspace may look like. `casefold` stands for `str.casefold`.
-/

namespace LilTweak.Sources

open LilTweak.Lib

/-- The codes of the `ArchiveError`s a path can raise. -/
inductive PathError
  | unsafePath
  | pathTooDeep
  deriving DecidableEq

/-- `_BLOCKED_SOURCE_COMPONENTS`. -/
def blockedSourceComponents : List String :=
  [".git", ".hg", ".svn", ".ssh", ".aws", ".gnupg", ".npmrc", ".pypirc", "credentials", "id_rsa", "id_ed25519"]

variable (casefold : String → String)

/-- `_blocked_source_component`. -/
def blockedSourceComponent (component : String) : Bool :=
  let folded := casefold component
  folded ∈ blockedSourceComponents || folded = ".env" ||
    (".env.".toList.isPrefixOf folded.toList && folded ∉ [".env.example", ".env.sample"])

/-- `_WINDOWS_DRIVE.match`. -/
def windowsDrive : List Char → Bool
  | c :: ':' :: _ => c.isAlpha
  | _ => false

/-- `PurePosixPath(path).parts` of a path that is not absolute. -/
def pathParts (path : List Char) : List String :=
  ((path.splitOn '/').filter fun part => part ≠ [] && part ≠ ['.']).map String.ofList

/-- `PurePosixPath(path).as_posix()`. -/
def asPosix (parts : List String) : String := if parts = [] then "." else "/".intercalate parts

/-- `ArchiveLimits.max_depth`. -/
def defaultMaxDepth : Nat := 32

/-- `_safe_name`: the path, and whether its name says it is a directory. -/
def safeName (raw : String) (maxDepth : Nat) : Except PathError (String × Bool) :=
  if raw = "" ∨ raw.toList.any (fun c => decide (c.toNat < 32) || c.toNat = 127) = true then .error .unsafePath
  else
    let normalized := raw.toList.map fun c => if c = '\\' then '/' else c
    if normalized.head? = some '/' ∨ "\\\\".toList.isPrefixOf raw.toList = true ∨ windowsDrive normalized = true then
      .error .unsafePath
    else
      let isDirectory := normalized.getLast? = some '/'
      let stripped := normalized.rdropWhile (· = '/')
      let parts := pathParts stripped
      if stripped = [] ∨ ".." ∈ parts then .error .unsafePath
      else if parts.any (fun part => decide (255 < part.utf8ByteSize) || blockedSourceComponent casefold part) = true then
        .error .unsafePath
      else if maxDepth < parts.length then .error .pathTooDeep
      else .ok (asPosix parts, isDirectory)

/-- `validate_portable_path` with the default limits. -/
def validatePortablePath (raw : String) : Except PathError String :=
  (safeName casefold raw defaultMaxDepth).map Prod.fst

example : validatePortablePath id "src/./main.py" = .ok "src/main.py" ∧
    validatePortablePath id "a/../b" = .error .unsafePath ∧
    validatePortablePath id ".git/config" = .error .unsafePath := by decide +kernel

end LilTweak.Sources
