import LilTweak.Evidence.RoundTrip
import LilTweak.Sources.Names
import Mathlib

/-!
# Who reads the paths of a patch

Three readers name the files a patch is about: `_declared_patch_paths` of the agent, which
counts the lines of every hunk, `_patch_paths` of the GitHub runner, which looks at header lines
wherever they stand, and `workspace_changed_paths`, which compares the snapshots themselves. Both
of the former cut the patch with `str.splitlines`.
-/

namespace LilTweak.Evidence

open LilTweak.Lib LilTweak.Sources

/-! ## Lines -/

/-- A line without the break it ends with. -/
def chomp (line : Text) : Text :=
  match line.getLast? with
  | none => line
  | some c =>
    if c = '\n' ∧ line.dropLast.getLast? = some '\r' then line.dropLast.dropLast
    else if lineBreak c then line.dropLast
    else line

/-- `text.splitlines()`. -/
def textLines (text : Text) : List Text := (splitlines text).map chomp

/-- `line.startswith(front)`. -/
def startsWith (front : String) (line : Text) : Bool := front.toList.isPrefixOf line

/-! ## `_declared_patch_paths` -/

/-- The zeros of the decimal digits beyond ASCII that `\d` matches. -/
def decimalZeros : List Nat :=
  [0x660, 0x6f0, 0x7c0, 0x966, 0x9e6, 0xa66, 0xae6, 0xb66, 0xbe6, 0xc66, 0xce6, 0xd66, 0xde6, 0xe50, 0xed0,
    0xf20, 0x1040, 0x1090, 0x17e0, 0x1810, 0x1946, 0x19d0, 0x1a80, 0x1a90, 0x1b50, 0x1bb0, 0x1c40, 0x1c50,
    0xa620, 0xa8d0, 0xa900, 0xa9d0, 0xa9f0, 0xaa50, 0xabf0, 0xff10, 0x104a0, 0x10d30, 0x11066, 0x110f0,
    0x11136, 0x111d0, 0x112f0, 0x11450, 0x114d0, 0x11650, 0x116c0, 0x11730, 0x118e0, 0x11950, 0x11c50,
    0x11d50, 0x11da0, 0x11f50, 0x16a60, 0x16ac0, 0x16b50, 0x1d7ce, 0x1d7d8, 0x1d7e2, 0x1d7ec, 0x1d7f6,
    0x1e140, 0x1e2f0, 0x1e4f0, 0x1e950, 0x1fbf0]

/-- The value of a decimal digit. -/
def decimalValue (c : Char) : Option Nat :=
  if c.isDigit then some (c.toNat - 48)
  else (decimalZeros.find? fun z => z ≤ c.toNat ∧ c.toNat ≤ z + 9).map (c.toNat - ·)

/-- `\d+`: the number, and what follows. -/
def readDecimal (text : Text) : Option (Nat × Text) :=
  match text.takeWhile fun c => (decimalValue c).isSome with
  | [] => none
  | digits => some (digits.foldl (fun n c => 10 * n + (decimalValue c).getD 0) 0,
      text.dropWhile fun c => (decimalValue c).isSome)

/-- `\d+(?:,(\d+))?`: the count, one where none is given, and what follows. -/
def readCount (text : Text) : Option (Nat × Text) :=
  match readDecimal text with
  | some (_, ',' :: rest) => readDecimal rest
  | some (_, rest) => some (1, rest)
  | none => none

/-- `_HUNK_HEADER.fullmatch`: the old and the new count. -/
def matchHunkHeader (line : Text) : Option (Nat × Nat) := do
  let text ← stripPrefix "@@ -".toList line
  let (old, text) ← readCount text
  let text ← stripPrefix " +".toList text
  let (new, text) ← readCount text
  let text ← stripPrefix " @@".toList text
  if text = [] ∨ text.head? = some ' ' then some (old, new) else none

variable (casefold : String → String)

/-- `_patch_path`: the path a header names, nothing for `/dev/null`. -/
def patchPath (header : Text) (side : String) : Option (Option String) :=
  let raw := (header.drop 4).takeWhile (· ≠ '\t')
  if raw = "/dev/null".toList then some none
  else if startsWith side raw = false then none
  else
    let relative := String.ofList (raw.drop 2)
    match validatePortablePath casefold relative with
    | .ok portable => if portable = relative then some (some portable) else none
    | .error _ => none

/-- One path is recorded under its folded form, unless another one is there. -/
def declare (declared : Dict String String) (path : Option String) : Option (Dict String String) :=
  match path with
  | none => some declared
  | some path =>
    match declared.get? (casefold path) with
    | some existing =>
      if existing ≠ path then none else some (declared.set (casefold path) path)
    | none => some (declared.set (casefold path) path)

/-- The loop over the lines a hunk counts: `old` and `new` lines are to come, and `seen` says that
a counted line has just been read, so that a note may follow. -/
def readCounted : Bool → Nat → Nat → List Text → Option (List Text)
  | _, old, new, [] => if old = 0 ∧ new = 0 then some [] else none
  | seen, old, new, line :: rest =>
    if seen = true ∧ startsWith "\\ No newline" line = true then readCounted false old new rest
    else if old = 0 ∧ new = 0 then some (line :: rest)
    else
      match line with
      | ' ' :: _ => if old = 0 ∨ new = 0 then none else readCounted true (old - 1) (new - 1) rest
      | '-' :: _ => if old = 0 then none else readCounted true (old - 1) new rest
      | '+' :: _ => if new = 0 then none else readCounted true old (new - 1) rest
      | _ => none

/-- The hunks of a file, up to the next `---` line; `n` bounds the lines that are read. -/
def readFileHunks : Nat → Nat → List Text → Option (Nat × List Text)
  | _, hunks, [] => some (hunks, [])
  | 0, _, _ => none
  | n + 1, hunks, line :: rest =>
    if startsWith "--- " line then some (hunks, line :: rest)
    else if startsWith "+++ " line then none
    else
      match matchHunkHeader line with
      | none => readFileHunks n hunks rest
      | some (old, new) =>
        match readCounted false old new rest with
        | none => none
        | some rest => readFileHunks n (hunks + 1) rest

/-- The loop over the files; `n` bounds the lines that are read. -/
def readDeclared : Nat → Dict String String → Nat → List Text → Option (Dict String String × Nat)
  | _, declared, pairs, [] => some (declared, pairs)
  | 0, _, _, _ => none
  | n + 1, declared, pairs, line :: rest =>
    if startsWith "+++ " line then none
    else if startsWith "--- " line = false then readDeclared n declared pairs rest
    else
      match rest with
      | [] => none
      | next :: rest =>
        if startsWith "+++ " next = false then none
        else do
          let before ← patchPath casefold line "a/"
          let after ← patchPath casefold next "b/"
          if before.isNone = after.isNone ∧ (before.isNone ∨ before ≠ after) then none
          else do
            let declared ← declare casefold declared before
            let declared ← declare casefold declared after
            let (hunks, rest) ← readFileHunks rest.length 0 rest
            if hunks = 0 then none else readDeclared n declared (pairs + 1) rest

/-- `_declared_patch_paths`. -/
def declaredPatchPaths (patch : Text) : Option (List String) := do
  let lines := textLines patch
  let (declared, pairs) ← readDeclared casefold lines.length ∅ 0 lines
  if pairs = 0 then none else some declared.values

/-! ## `_patch_paths` -/

/-- `_PATH.fullmatch`. -/
def pathShape (path : Text) : Bool :=
  (path.splitOn '/').all fun part => part ≠ [] && part.all fun c => c.isAlphanum || c ∈ ['_', '.', '-']

/-- The path is one a runner takes. -/
def runnerPath (path : Text) : Bool := pathShape path && !startsWith ".git/" path

/-- The path a `---` line and the line after it select. -/
def selectedPath (line next : Text) : Text :=
  let before := line.drop 4
  let after := next.drop 4
  let selected := if after ≠ "/dev/null".toList then after else before
  if startsWith "a/" selected || startsWith "b/" selected then selected.drop 2 else selected

/-- The path of a `diff --git` line. -/
def gitHeaderPath (line : Text) : Option Text :=
  match line.splitOn ' ' with
  | [_, _, before, after] =>
    if startsWith "a/" before = false ∨ startsWith "b/" after = false then none
    else if before.drop 2 ≠ after.drop 2 ∨ runnerPath (after.drop 2) = false then none
    else some (after.drop 2)
  | _ => none

/-- The loop over the lines. -/
def readPaths : List Text → List Text → Option (List Text)
  | paths, [] => some paths
  | paths, line :: rest =>
    if startsWith "diff --git a/" line then
      match gitHeaderPath line with
      | none => none
      | some path => readPaths (if path ∈ paths then paths else paths ++ [path]) rest
    else if startsWith "--- " line = false then readPaths paths rest
    else
      match rest with
      | [] => none
      | next :: _ =>
        if startsWith "+++ " next = false then none
        else if runnerPath (selectedPath line next) = false then none
        else readPaths (paths ++ [selectedPath line next]) rest

/-- `_patch_paths`. -/
def patchPaths (patch : Text) : Option (List String) :=
  (readPaths [] (textLines patch)).map fun paths => paths.eraseDups.map String.ofList

/-! ## `workspace_changed_paths` -/

def workspaceChangedPaths (sha256 : Sha256) (before after : WorkspaceSnapshot) : List String :=
  (patchNames before after).filter fun name =>
    snapshotIdentity sha256 (before.files.get? name) ≠ snapshotIdentity sha256 (after.files.get? name)

end LilTweak.Evidence
