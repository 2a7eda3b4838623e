import LilTweak.Evidence.Patch

/-!
# Applying a patch strictly

A unified diff read byte by byte: lines end only at a line feed, the counts of a
hunk count such lines, every kept or dropped line must be in the file where the
hunk says it is, a note takes the line feed off the line before it, and
`/dev/null` stands for an absent file. Anything else is refused.
-/

namespace LilTweak.Evidence

open LilTweak.Lib

/-- The lines of a file, each with its line feed; the last may lack one. -/
def physicalLines (data : Bytes) : List Bytes := splitAfter (fun c _ => c == 10) data

/-- What a line of a hunk does. -/
inductive Marker
  | keep
  | drop
  | add
  deriving DecidableEq

/-- The character a hunk line starts with. -/
def Marker.char : Marker → Char
  | keep => ' '
  | drop => '-'
  | add => '+'

/-- What a line that starts with this byte does. -/
def markerOf (c : UInt8) : Option Marker :=
  if c = 32 then some .keep else if c = 45 then some .drop else if c = 43 then some .add else none

/-- One for a line of the old file. -/
def Marker.old : Marker → Nat
  | keep | drop => 1
  | add => 0

/-- One for a line of the new file. -/
def Marker.new : Marker → Nat
  | keep | add => 1
  | drop => 0

structure Hunk where
  oldStart : Nat
  oldLen : Nat
  newStart : Nat
  newLen : Nat
  body : List (Marker × Bytes)

/-- The changes of one file; no name stands for `/dev/null`. -/
structure FileDiff where
  old : Option String
  new : Option String
  hunks : List Hunk

/-! ## Reading -/

/-- The text without a prefix it must have. -/
def stripPrefix (front text : List α) [DecidableEq α] : Option (List α) :=
  if front.isPrefixOf text then some (text.drop front.length) else none

/-- The text without an ending it must have. -/
def stripSuffix (back text : List α) [DecidableEq α] : Option (List α) :=
  if back.isSuffixOf text then some (text.take (text.length - back.length)) else none

/-- A decimal number and what follows it. -/
def readNumber (text : Text) : Option (Nat × Text) :=
  match text.takeWhile Char.isDigit with
  | [] => none
  | digits => some (Nat.ofDigitChars 10 digits 0, text.dropWhile Char.isDigit)

/-- `start,length`, or `start` alone for a length of one, and what follows. -/
def readRange (text : Text) : Option ((Nat × Nat) × Text) :=
  match readNumber text with
  | some (start, ',' :: rest) =>
    match readNumber rest with
    | some (length, rest) => some ((start, length), rest)
    | none => none
  | some (start, rest) => some ((start, 1), rest)
  | none => none

/-- The ranges of an `@@` line. -/
def readHunkHeader (line : Bytes) : Option ((Nat × Nat) × Nat × Nat) := do
  let text ← stripPrefix "@@ -".toList (line.map fun b => Char.ofNat b.toNat)
  let (old, text) ← readRange text
  let text ← stripPrefix " +".toList text
  let (new, text) ← readRange text
  if text = " @@\n".toList then some (old, new) else none

/-- The lines of a hunk: `r` and `s` lines of the old and new file are to come,
`body` has been read, last line first. -/
def readBody : Nat → Nat → List (Marker × Bytes) → List Bytes →
    Option (List (Marker × Bytes) × List Bytes)
  | r, s, body, [] => if r = 0 ∧ s = 0 then some (body.reverse, []) else none
  | r, s, body, line :: rest =>
    if line = encodeUtf8 noNewline then
      match body with
      | (m, content) :: body =>
        match stripSuffix [10] content with
        | some content => readBody r s ((m, content) :: body) rest
        | none => none
      | [] => none
    else if r = 0 ∧ s = 0 then some (body.reverse, line :: rest)
    else match line with
      | [] => none
      | c :: content =>
        match markerOf c with
        | some m =>
          if m.old ≤ r ∧ m.new ≤ s ∧ content.getLast? = some 10 then
            readBody (r - m.old) (s - m.new) ((m, content) :: body) rest
          else none
        | none => none

/-- The hunks that follow; `n` bounds their number. -/
def readHunks : Nat → List Bytes → Option (List Hunk × List Bytes)
  | 0, _ => none
  | _ + 1, [] => some ([], [])
  | n + 1, line :: rest =>
    match readHunkHeader line with
    | none => some ([], line :: rest)
    | some ((oldStart, oldLen), newStart, newLen) =>
      match readBody oldLen newLen [] rest with
      | none => none
      | some (body, rest) =>
        (readHunks n rest).map fun r =>
          ({ oldStart, oldLen, newStart, newLen, body } :: r.1, r.2)

/-- The name in a `---` or `+++` line. -/
def readName (mark side : Text) (line : Bytes) : Option (Option String) := do
  let text ← decodeUtf8 line
  let text ← stripPrefix mark text
  let text ← stripSuffix ['\n'] text
  if text = "/dev/null".toList then some none
  else (stripPrefix side text).map fun name => some (String.ofList name)

/-- The file diffs of a patch; `n` bounds their number. -/
def readFiles : Nat → List Bytes → Option (List FileDiff)
  | _, [] => some []
  | 0, _ => none
  | _, [_] => none
  | n + 1, l₁ :: l₂ :: rest => do
    let old ← readName "--- ".toList "a/".toList l₁
    let new ← readName "+++ ".toList "b/".toList l₂
    let (hunks, rest) ← readHunks (rest.length + 1) rest
    let files ← readFiles n rest
    if hunks = [] then none else some ({ old, new, hunks } :: files)

/-! ## Applying -/

/-- The lines a hunk leaves, and the old lines it has not reached. -/
def applyBody : List (Marker × Bytes) → List Bytes → Option (List Bytes × List Bytes)
  | [], lines => some ([], lines)
  | (.add, content) :: body, lines =>
    (applyBody body lines).map fun r => (content :: r.1, r.2)
  | (.keep, content) :: body, line :: lines =>
    if line = content then (applyBody body lines).map fun r => (content :: r.1, r.2) else none
  | (.drop, content) :: body, line :: lines =>
    if line = content then applyBody body lines else none
  | (_, _) :: _, [] => none

/-- The number of lines in front of a range. -/
def linesBefore (start length : Nat) : Nat := if length = 0 then start else start - 1

/-- The lines of the new file: `i` and `j` lines of the old and new file are done,
`lines` are the old ones that are left. -/
def applyHunks : Nat → Nat → List Bytes → List Hunk → Option (List Bytes)
  | _, _, lines, [] => some lines
  | i, j, lines, h :: hunks =>
    let gap := linesBefore h.oldStart h.oldLen - i
    if i ≤ linesBefore h.oldStart h.oldLen ∧ gap ≤ lines.length ∧
        j + gap = linesBefore h.newStart h.newLen then
      match applyBody h.body (lines.drop gap) with
      | some (new, rest) =>
        (applyHunks (i + gap + h.oldLen) (j + gap + h.newLen) rest hunks).map fun r =>
          lines.take gap ++ new ++ r
      | none => none
    else none

/-- One file diff applied to a file map. -/
def applyFile (files : Dict String Bytes) (d : FileDiff) : Option (Dict String Bytes) :=
  match d.old, d.new with
  | some name, some name' =>
    if name ≠ name' then none
    else match files.get? name with
      | some data => (applyHunks 0 0 (physicalLines data) d.hunks).map fun ls => files.set name ls.flatten
      | none => none
  | none, some name =>
    match files.get? name with
    | some _ => none
    | none => (applyHunks 0 0 [] d.hunks).map fun ls => files.set name ls.flatten
  | some name, none =>
    match files.get? name with
    | some data =>
      match applyHunks 0 0 (physicalLines data) d.hunks with
      | some [] => some (files.erase name)
      | _ => none
    | none => none
  | none, none => none

/-- A patch applied to a file map. -/
def applyPatch (patch : Bytes) (files : Dict String Bytes) : Option (Dict String Bytes) :=
  (readFiles (physicalLines patch).length (physicalLines patch)).bind fun diffs =>
    diffs.foldlM applyFile files

end LilTweak.Evidence
