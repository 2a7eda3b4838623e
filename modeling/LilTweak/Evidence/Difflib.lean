import LilTweak.Lib.Text
import LilTweak.Lib.Dict

/-!
# Matching sequences

`difflib.SequenceMatcher` without a junk predicate, as `unified_diff` uses it:
the index of the second sequence with its popular elements purged, the longest
match of two ranges, the matching blocks, the opcodes and their groups. What the
patch needs of it is that the blocks are matches and the opcodes cover both
sequences in order.
-/

namespace LilTweak.Evidence

open LilTweak.Lib

variable {α : Type*} [DecidableEq α]

/-- `a[i:j]`. -/
def slice (a : List α) (i j : Nat) : List α := (a.drop i).take (j - i)

/-- `Match`: `a[i:i+size] == b[j:j+size]`. -/
structure Match where
  i : Nat
  j : Nat
  size : Nat
  deriving DecidableEq, Repr

/-- The positions of an element, ascending. -/
def indices (b : List α) (x : α) : List Nat :=
  (b.zipIdx.filter fun e => e.1 = x).map Prod.snd

/-- `b2j.get(x, [])` after popular elements are purged. -/
def b2j (b : List α) (x : α) : List Nat :=
  if 200 ≤ b.length ∧ b.length / 100 + 1 < (indices b x).length then [] else indices b x

/-- The state of the double loop of `find_longest_match`: the best match so far,
and the lengths of the matches that end at a column of the previous row. -/
structure Scan where
  best : Match
  j2len : List (Nat × Nat)

/-- `j2len.get(j-1, 0) + 1`. -/
def Scan.extend (j2len : List (Nat × Nat)) (j : Nat) : Nat :=
  match j with
  | 0 => 1
  | j + 1 => (Entries.lookup j j2len).getD 0 + 1

/-- One row of the double loop; `js` are the columns of `b2j` inside the range,
`row` is `newj2len` so far. -/
def scanRow (i : Nat) (j2len : List (Nat × Nat)) :
    List Nat → Match → List (Nat × Nat) → Scan
  | [], best, row => ⟨best, row⟩
  | j :: js, best, row =>
    let k := Scan.extend j2len j
    scanRow i j2len js (if best.size < k then ⟨i + 1 - k, j + 1 - k, k⟩ else best) (row ++ [(j, k)])

/-- The rows `i, i+1, …`, one for each remaining element of `a[i:ahi]`. -/
def scanRows (b : List α) (blo bhi : Nat) : Nat → List α → Scan → Match
  | _, [], s => s.best
  | i, x :: rest, s =>
    scanRows b blo bhi (i + 1) rest
      (scanRow i s.j2len ((b2j b x).filter fun j => blo ≤ j && j < bhi) s.best [])

/-- The loop that extends a match to the left; `n` bounds its iterations. -/
def extendLeft (a b : List α) (alo blo : Nat) : Nat → Match → Match
  | 0, m => m
  | n + 1, m =>
    if alo < m.i ∧ blo < m.j ∧ a[m.i - 1]? = b[m.j - 1]? then
      extendLeft a b alo blo n ⟨m.i - 1, m.j - 1, m.size + 1⟩
    else m

/-- The loop that extends a match to the right; `n` bounds its iterations. -/
def extendRight (a b : List α) (ahi bhi : Nat) : Nat → Match → Match
  | 0, m => m
  | n + 1, m =>
    if m.i + m.size < ahi ∧ m.j + m.size < bhi ∧ a[m.i + m.size]? = b[m.j + m.size]? then
      extendRight a b ahi bhi n ⟨m.i, m.j, m.size + 1⟩
    else m

/-- `find_longest_match`. -/
def findLongestMatch (a b : List α) (alo ahi blo bhi : Nat) : Match :=
  let m := scanRows b blo bhi alo (slice a alo ahi) ⟨⟨alo, blo, 0⟩, []⟩
  extendRight a b ahi bhi ahi (extendLeft a b alo blo m.i m)

/-- The recursion of `get_matching_blocks`, in the order the blocks are sorted
in; `n` bounds its depth, which is at most the length of `a`. -/
def matchIn (a b : List α) : Nat → Nat → Nat → Nat → Nat → List Match
  | 0, _, _, _, _ => []
  | n + 1, alo, ahi, blo, bhi =>
    let m := findLongestMatch a b alo ahi blo bhi
    if m.size = 0 then []
    else
      (if alo < m.i ∧ blo < m.j then matchIn a b n alo m.i blo m.j else []) ++ [m] ++
        if m.i + m.size < ahi ∧ m.j + m.size < bhi then
          matchIn a b n (m.i + m.size) ahi (m.j + m.size) bhi
        else []

/-- The loop that collapses adjacent blocks; `m` is the block held back. -/
def collapse (m : Match) : List Match → List Match
  | [] => if m.size = 0 then [] else [m]
  | m2 :: rest =>
    if m.i + m.size = m2.i ∧ m.j + m.size = m2.j then
      collapse ⟨m.i, m.j, m.size + m2.size⟩ rest
    else if m.size = 0 then collapse m2 rest
    else m :: collapse m2 rest

/-- `get_matching_blocks`. -/
def getMatchingBlocks (a b : List α) : List Match :=
  collapse ⟨0, 0, 0⟩ (matchIn a b (a.length + 1) 0 a.length 0 b.length) ++
    [⟨a.length, b.length, 0⟩]

inductive Tag
  | replace
  | delete
  | insert
  | equal
  deriving DecidableEq, Repr

structure Opcode where
  tag : Tag
  i1 : Nat
  i2 : Nat
  j1 : Nat
  j2 : Nat
  deriving DecidableEq, Repr

/-- What `get_opcodes` puts in front of a block at `(ai, bj)` when it stands at `(i, j)`. -/
def gapOpcode (i ai j bj : Nat) : List Opcode :=
  if i < ai ∧ j < bj then [⟨.replace, i, ai, j, bj⟩]
  else if i < ai then [⟨.delete, i, ai, j, bj⟩]
  else if j < bj then [⟨.insert, i, ai, j, bj⟩]
  else []

/-- The loop of `get_opcodes`. -/
def opcodesFrom (i j : Nat) : List Match → List Opcode
  | [] => []
  | m :: rest =>
    gapOpcode i m.i j m.j ++
      (if m.size = 0 then [] else [⟨.equal, m.i, m.i + m.size, m.j, m.j + m.size⟩]) ++
      opcodesFrom (m.i + m.size) (m.j + m.size) rest

/-- `get_opcodes`. -/
def getOpcodes (a b : List α) : List Opcode := opcodesFrom 0 0 (getMatchingBlocks a b)

/-- Drop all but the last `n` lines of an `equal` opcode. -/
def Opcode.trimStart (n : Nat) (o : Opcode) : Opcode :=
  if o.tag = .equal then { o with i1 := max o.i1 (o.i2 - n), j1 := max o.j1 (o.j2 - n) } else o

/-- Drop all but the first `n` lines of an `equal` opcode. -/
def Opcode.trimEnd (n : Nat) (o : Opcode) : Opcode :=
  if o.tag = .equal then { o with i2 := min o.i2 (o.i1 + n), j2 := min o.j2 (o.j1 + n) } else o

/-- The loop of `get_grouped_opcodes`; `group` is the group being built. -/
def groupFrom (n : Nat) : List Opcode → List Opcode → List (List Opcode)
  | [], group =>
    if group = [] ∨ (group.length = 1 ∧ group.head?.map Opcode.tag = some .equal) then [] else [group]
  | o :: rest, group =>
    if o.tag = .equal ∧ n + n < o.i2 - o.i1 then
      (group ++ [o.trimEnd n]) :: groupFrom n rest [o.trimStart n]
    else groupFrom n rest (group ++ [o])

/-- `codes[0] = …; codes[-1] = …`. -/
def trimOuter (n : Nat) (codes : List Opcode) : List Opcode :=
  ((codes.modifyHead (Opcode.trimStart n)).reverse.modifyHead (Opcode.trimEnd n)).reverse

/-- `get_grouped_opcodes`. -/
def getGroupedOpcodes (a b : List α) (n : Nat) : List (List Opcode) :=
  let codes := getOpcodes a b
  groupFrom n (trimOuter n (if codes = [] then [⟨.equal, 0, 1, 0, 1⟩] else codes)) []

end LilTweak.Evidence
