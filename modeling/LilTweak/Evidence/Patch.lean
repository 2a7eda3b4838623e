import LilTweak.Evidence.Difflib
import LilTweak.Core.Contracts
import Mathlib.Data.List.Sort
import Mathlib.Data.String.Basic

/-!
# Workspace snapshots and the patch between two of them

`build_workspace_patch` reads the changed files of two snapshots, cuts them with
`str.splitlines`, marks a missing final newline with a NUL sentinel, and prints
the unified diff of the lines.
-/

namespace LilTweak.Evidence

open LilTweak.Lib

abbrev Bytes := List UInt8

/-- A text as its characters. -/
abbrev Text := List Char

/-! ## Lines -/

/-- The characters `str.splitlines` breaks after. -/
def lineBreak (c : Char) : Bool :=
  [0x0a, 0x0b, 0x0c, 0x0d, 0x1c, 0x1d, 0x1e, 0x85, 0x2028, 0x2029].contains c.toNat

/-- A break falls after `c`, unless `c` is the carriage return of a `\r\n`. -/
def breaksAfter (c : Char) (rest : Text) : Bool :=
  lineBreak c && !(c == '\r' && rest.head? == some '\n')

/-- `text.splitlines(keepends=True)`. -/
def splitlines (text : Text) : List Text := splitAfter breaksAfter text

/-- `text and not text.endswith(("\n", "\r"))`. -/
def lacksNewline (text : Text) : Bool :=
  match text.getLast? with
  | some c => c ≠ '\n' && c ≠ '\r'
  | none => false

/-- The text as `_patch_lines` cuts it: a NUL stands for the missing newline. -/
def marked (text : Text) : Text := if lacksNewline text then text ++ ['\x00', '\n'] else text

/-- `_patch_lines`. -/
def patchLines (text : Text) : List Text := splitlines (marked text)

/-! ## The unified diff -/

/-- `_format_range_unified`. -/
def formatRangeUnified (start stop : Nat) : Text :=
  if stop - start = 1 then Nat.toDigits 10 (start + 1)
  else
    Nat.toDigits 10 (if stop - start = 0 then start else start + 1) ++
      ',' :: Nat.toDigits 10 (stop - start)

/-- The lines of one opcode. -/
def opcodeLines (a b : List Text) (o : Opcode) : List Text :=
  match o.tag with
  | .equal => (slice a o.i1 o.i2).map (' ' :: ·)
  | .replace => (slice a o.i1 o.i2).map ('-' :: ·) ++ (slice b o.j1 o.j2).map ('+' :: ·)
  | .delete => (slice a o.i1 o.i2).map ('-' :: ·)
  | .insert => (slice b o.j1 o.j2).map ('+' :: ·)

/-- The ranges a group of opcodes spans. -/
def groupSpan (g : List Opcode) : Nat × Nat × Nat × Nat :=
  match g.head?, g.getLast? with
  | some first, some last => (first.i1, last.i2, first.j1, last.j2)
  | _, _ => (0, 0, 0, 0)

/-- The `@@` line of a group. -/
def hunkHeader (g : List Opcode) : Text :=
  let (i1, i2, j1, j2) := groupSpan g
  "@@ -".toList ++ formatRangeUnified i1 i2 ++ " +".toList ++ formatRangeUnified j1 j2 ++
    " @@\n".toList

/-- `difflib.unified_diff(a, b, fromfile, tofile, lineterm="\n")`. -/
def unifiedDiff (a b : List Text) (fromfile tofile : Text) : List Text :=
  let groups := getGroupedOpcodes a b 3
  (if groups = [] then []
    else ["--- ".toList ++ fromfile ++ ['\n'], "+++ ".toList ++ tofile ++ ['\n']]) ++
    groups.flatMap fun g => hunkHeader g :: g.flatMap (opcodeLines a b)

/-! ## Snapshots -/

/-- A file of a snapshot: its bytes in memory, or staged on disk under the size
and digest they had when they were captured. `onDisk` is what reading the staged
copy gives. -/
inductive SnapshotValue
  | inline (data : Bytes)
  | staged (data : Bytes) (onDisk : Option Bytes)
  deriving DecidableEq

/-- The bytes that were captured. -/
def SnapshotValue.data : SnapshotValue → Bytes
  | .inline data => data
  | .staged data _ => data

/-- `validate_portable_path` admits no control character in a path. -/
def controlFree (name : String) : Prop := ∀ c ∈ name.toList, 0x20 ≤ c.toNat ∧ c.toNat ≠ 0x7f

instance (name : String) : Decidable (controlFree name) :=
  List.decidableBAll (fun c : Char => 0x20 ≤ c.toNat ∧ c.toNat ≠ 0x7f) name.toList

structure WorkspaceSnapshot where
  files : Dict String SnapshotValue
  portable : ∀ name ∈ files.keys, controlFree name

theorem portable_empty : ∀ name ∈ (∅ : Dict String SnapshotValue).keys, controlFree name :=
  fun _ h => absurd h List.not_mem_nil

/-- The file map the snapshot stands for. -/
def WorkspaceSnapshot.contents (s : WorkspaceSnapshot) : Dict String Bytes :=
  s.files.mapValues SnapshotValue.data

/-- `hashlib.sha256(data).hexdigest()`. -/
abbrev Sha256 := Bytes → String

/-- The `WorkspaceEvidenceError` messages of patch building. -/
inductive PatchFault
  | patchTooLarge
  | snapshotUnavailable
  | snapshotChanged
  | binaryChangeUnsupported
  deriving DecidableEq

variable (sha256 : Sha256)

/-- `_snapshot_identity`. -/
def snapshotIdentity (value : Option SnapshotValue) : Option (Nat × String) :=
  value.map fun v => (v.data.length, sha256 v.data)

/-- `_snapshot_bytes`. -/
def snapshotBytes : Option SnapshotValue → Except PatchFault (Option Bytes)
  | none => .ok none
  | some (.inline data) => .ok (some data)
  | some (.staged _ none) => .error .snapshotUnavailable
  | some (.staged data (some found)) =>
    if found.length ≠ data.length ∨ sha256 found ≠ sha256 data then .error .snapshotChanged
    else .ok (some found)

/-- The 8-byte big-endian encoding of a length. -/
def bigEndian8 (n : Nat) : Bytes :=
  [56, 48, 40, 32, 24, 16, 8, 0].map fun shift => UInt8.ofNat (n / 2 ^ shift)

def nameBefore (a b : String) : Prop := a ≤ b

instance : DecidableRel nameBefore := fun a b => inferInstanceAs (Decidable (a ≤ b))

/-- The `source_digest` `capture_workspace` computes. -/
def WorkspaceSnapshot.sourceDigest (s : WorkspaceSnapshot) : String :=
  sha256 (encodeUtf8 "lil-tweak-source-v1\x00".toList ++
    (s.files.keys.insertionSort nameBefore).flatMap fun name =>
      match s.files.get? name with
      | some v =>
        bigEndian8 (encodeUtf8 name.toList).length ++ encodeUtf8 name.toList ++
          bigEndian8 v.data.length ++ v.data
      | none => [])

/-! ## `build_workspace_patch` -/

/-- `append_bounded`: the text joins what is encoded so far, within the bound. -/
def appendBounded (maxBytes : Int) (encoded : Bytes) (text : Text) : Except PatchFault Bytes :=
  if maxBytes - encoded.length < (encodeUtf8 text).length then .error .patchTooLarge
  else .ok (encoded ++ encodeUtf8 text)

/-- `"\\ No newline at end of file\n"`. -/
def noNewline : Text := "\\ No newline at end of file\n".toList

/-- One printed line: a sentinel is replaced by the note on the missing newline. -/
def appendLine (maxBytes : Int) (encoded : Bytes) (line : Text) : Except PatchFault Bytes :=
  if '\x00' ∈ line then do
    let encoded ← appendBounded maxBytes encoded (line.filter (· ≠ '\x00'))
    appendBounded maxBytes encoded noNewline
  else appendBounded maxBytes encoded line

/-- `"" if data is None else data.decode("utf-8")`. -/
def decodeText : Option Bytes → Except PatchFault Text
  | none => .ok []
  | some data =>
    match decodeUtf8 data with
    | some text => .ok text
    | none => .error .binaryChangeUnsupported

/-- The name a diff header gives to one side of a change. -/
def headerName (side : String) (name : String) (data : Option Bytes) : Text :=
  match data with
  | none => "/dev/null".toList
  | some _ => side.toList ++ name.toList

/-- The body of the loop over the names. -/
def appendFile (baseline final : WorkspaceSnapshot) (maxBytes : Int) (encoded : Bytes)
    (name : String) : Except PatchFault Bytes :=
  if snapshotIdentity sha256 (baseline.files.get? name) =
      snapshotIdentity sha256 (final.files.get? name) then .ok encoded
  else do
    let before ← snapshotBytes sha256 (baseline.files.get? name)
    let after ← snapshotBytes sha256 (final.files.get? name)
    if (before.getD []).contains 0 || (after.getD []).contains 0 then
      .error .binaryChangeUnsupported
    else do
      let beforeText ← decodeText before
      let afterText ← decodeText after
      (unifiedDiff (patchLines beforeText) (patchLines afterText) (headerName "a/" name before)
        (headerName "b/" name after)).foldlM (appendLine maxBytes) encoded

/-- `sorted(set(baseline.files) | set(final.files))`. -/
def patchNames (baseline final : WorkspaceSnapshot) : List String :=
  (baseline.files.keys ++ final.files.keys).dedup.insertionSort nameBefore

/-- `build_workspace_patch`. -/
def buildWorkspacePatch (baseline final : WorkspaceSnapshot) (maxBytes : Int) :
    Except PatchFault Bytes :=
  if maxBytes < 0 then .error .patchTooLarge
  else (patchNames baseline final).foldlM (appendFile sha256 baseline final maxBytes) []

end LilTweak.Evidence
