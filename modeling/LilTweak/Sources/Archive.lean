import LilTweak.Lib.Dict
import LilTweak.Lib.Unpack
import LilTweak.Sources.Paths
import Mathlib

/-!
# Source archives

`inspect_zip` goes through the members of an archive once and refuses a path it has seen, a path under a
file and a file above a path, ignoring case; `extract_zip` goes through them again and writes what was
inspected.
-/

namespace LilTweak.Sources

open LilTweak.Lib

abbrev Bytes := List UInt8

/-- `str.casefold`: every character is folded for itself, and nothing but a slash to a slash. -/
structure CaseFolding where
  fold : Char → List Char
  slash : fold '/' = ['/']
  other : ∀ c, c ≠ '/' → fold c ≠ [] ∧ '/' ∉ fold c

def CaseFolding.casefold (F : CaseFolding) (s : String) : String := String.ofList (s.toList.flatMap F.fold)

structure ArchiveLimits where
  maxEntries : Int := 20000
  maxDepth : Int := 32
  maxFileBytes : Int := 25 * 1024 * 1024
  maxTotalBytes : Int := 128 * 1024 * 1024
  maxCompressionRatio : ℚ := 100

structure ArchiveEntry where
  path : String
  size : Int
  isDirectory : Bool
  deriving DecidableEq

/-- What is read of a `ZipInfo`. -/
structure ZipInfo where
  filename : String
  flagBits : Nat
  externalAttr : Nat
  fileSize : Int
  compressSize : Int
  deriving DecidableEq

/-- The codes of an `ArchiveError`, and the `ValueError` of the limits. -/
inductive ArchiveError
  | unsafePath
  | pathTooDeep
  | encryptedEntry
  | unsupportedType
  | invalidZip
  | fileTooLarge
  | compressionRatio
  | tooManyEntries
  | duplicatePath
  | pathConflict
  | archiveTooLarge
  | extractionFailed
  | limitsNotPositive
  deriving DecidableEq

def PathError.archive : PathError → ArchiveError
  | .unsafePath => .unsafePath
  | .pathTooDeep => .pathTooDeep

/-- `stat.S_IFMT((external_attr >> 16) & 0xFFFF)`. -/
def ZipInfo.kind (info : ZipInfo) : Nat := (info.externalAttr >>> 16) &&& 0o170000

/-- The name of a member says that it is a directory. -/
def namedDirectory (filename : String) : Bool := (slashed filename).getLast? == some '/'

/-- A member is a directory by its name or by its type. -/
def ZipInfo.isDirectory (info : ZipInfo) : Bool := namedDirectory info.filename || info.kind == 0o040000

section
variable (F : CaseFolding) (divide : Int → Int → ℚ) (limits : ArchiveLimits)

/-- `_validate_info`: the entry, and its folded path. `divide` is the division of two integers. -/
def validateInfo (info : ZipInfo) : Except ArchiveError (ArchiveEntry × String) :=
  match safeName F.casefold info.filename limits.maxDepth.toNat with
  | .error e => .error e.archive
  | .ok (path, nameIsDirectory) =>
    let isDirectory := info.filename.toList.getLast? == some '/' || nameIsDirectory || info.kind == 0o040000
    if info.flagBits &&& 1 ≠ 0 then .error .encryptedEntry
    else if info.kind ≠ 0 ∧ info.kind ≠ 0o100000 ∧ info.kind ≠ 0o040000 then .error .unsupportedType
    else if isDirectory = true ∧ info.fileSize ≠ 0 then .error .unsupportedType
    else if info.fileSize < 0 ∨ info.compressSize < 0 then .error .invalidZip
    else if limits.maxFileBytes < info.fileSize then .error .fileTooLarge
    else if info.fileSize ≠ 0 ∧ (info.compressSize = 0 ∨
        limits.maxCompressionRatio < divide info.fileSize info.compressSize) then .error .compressionRatio
    else .ok ({ path, size := info.fileSize, isDirectory }, F.casefold path)

/-- The parents of a path below the root, the nearest first. -/
def properParents (parts : List String) : List (List String) :=
  ((List.range parts.length).drop 1).reverse.map parts.take

/-- The state of the loop of `inspect_zip`. -/
structure Inspection where
  entries : List ArchiveEntry := []
  seen : List String := []
  entryTypes : Dict String Bool := ∅
  total : Int := 0

/-- One round of the loop of `inspect_zip`. -/
def inspectInfo (s : Inspection) (info : ZipInfo) : Except ArchiveError Inspection :=
  match validateInfo F divide limits info with
  | .error e => .error e
  | .ok (entry, folded) =>
    if folded ∈ s.seen then .error .duplicatePath
    else if (properParents (pathParts entry.path.toList)).any
        (fun parent => s.entryTypes.get? (F.casefold (asPosix parent)) == some false) = true then .error .pathConflict
    else if entry.isDirectory = false ∧
        s.entryTypes.keys.any (fun existing => (folded.toList ++ ['/']).isPrefixOf existing.toList) = true then
      .error .pathConflict
    else if limits.maxTotalBytes < s.total + entry.size then .error .archiveTooLarge
    else .ok { entries := s.entries ++ [entry], seen := folded :: s.seen
               entryTypes := s.entryTypes.set folded entry.isDirectory, total := s.total + entry.size }

/-- `inspect_zip` on an archive with these members. -/
def inspectZip (infos : List ZipInfo) : Except ArchiveError (List ArchiveEntry) :=
  if limits.maxEntries < 0 ∨ limits.maxDepth < 0 ∨ limits.maxFileBytes < 0 ∨ limits.maxTotalBytes < 0 ∨
      limits.maxCompressionRatio ≤ 0 then .error .limitsNotPositive
  else if limits.maxEntries < infos.length then .error .tooManyEntries
  else (infos.foldlM (inspectInfo F divide limits) {}).map Inspection.entries

/-! ## `extract_zip` -/

/-- A member of an archive: what its header says, and what reading it gives. -/
structure Member where
  info : ZipInfo
  content : Option Bytes

/-- What stands in the destination, by the components of a path below it. -/
abbrev Destination := FileTree String Bytes

/-- An empty directory. -/
def emptyDirectory : Destination := fun path => if path = [] then some .dir else none

/-- `mkdir(parents=True, exist_ok=True)`. -/
def makeDirectories (t : Destination) (path : List String) : Option Destination :=
  if path.inits.any t.isFile = true then none else some fun q => if q <+: path then some .dir else t q

/-- What has been extracted, and where. -/
structure Extraction where
  tree : Destination
  extracted : List (List String) := []

/-- One round of the loop of `extract_zip`: nothing below the destination is a link, so that a path
resolves to itself, and only the destination itself has its parent outside. -/
def extractMember (s : Extraction) (m : Member × ArchiveEntry) : Except ArchiveError Extraction :=
  let parts := pathParts m.2.path.toList
  if parts = [] then .error .unsafePath
  else if m.2.isDirectory then
    match makeDirectories s.tree parts with
    | none => .error .extractionFailed
    | some tree => .ok { s with tree }
  else
    match m.1.content with
    | none => .error .extractionFailed
    | some data =>
      match s.tree.create parts data with
      | none => .error .extractionFailed
      | some tree =>
        if (data.length : Int) ≠ m.2.size then .error .invalidZip
        else .ok { tree, extracted := s.extracted ++ [parts] }

/-- `extract_zip` into a destination. -/
def extractZip (members : List Member) (destination : Destination) : Except ArchiveError Extraction :=
  match inspectZip F divide limits (members.map Member.info) with
  | .error e => .error e
  | .ok entries => (members.zip entries).foldlM extractMember { tree := destination }

end

/-! ## Folded paths -/

variable {F : CaseFolding} {divide : Int → Int → ℚ} {limits : ArchiveLimits}

/-- The components of a path, folded. -/
def ArchiveEntry.folded (F : CaseFolding) (e : ArchiveEntry) : List String := (pathParts e.path.toList).map F.casefold

theorem casefold_toList (F : CaseFolding) (s : String) : (F.casefold s).toList = s.toList.flatMap F.fold := by
  rw [CaseFolding.casefold, String.toList_ofList]

theorem casefold_unslashed {s : String} (h : '/' ∉ s.toList) : '/' ∉ (F.casefold s).toList := by
  rw [casefold_toList, List.mem_flatMap]
  intro hmem
  obtain ⟨c, hc, hslash⟩ := hmem
  have hne : c ≠ '/' := fun heq => h (heq ▸ hc)
  exact (F.other c hne).2 hslash

theorem casefold_nonempty {s : String} (h : s ≠ "") : F.casefold s ≠ "" := by
  intro hempty
  have hchars : s.toList.flatMap F.fold = [] := by
    rw [← casefold_toList, hempty]
    rfl
  apply h
  apply String.toList_injective
  cases hs : s.toList with
  | nil => rfl
  | cons c rest =>
    rw [hs, List.flatMap_cons] at hchars
    have hfold := (List.append_eq_nil_iff.mp hchars).1
    by_cases hc : c = '/'
    · rw [hc, F.slash] at hfold
      cases hfold
    · exact absurd hfold (F.other c hc).1

/-- A joined path is folded component by component. -/
theorem casefold_join (F : CaseFolding) (parts : List String) :
    F.casefold ("/".intercalate parts) = "/".intercalate (parts.map F.casefold) := by
  apply String.toList_injective
  rw [casefold_toList]
  induction parts with
  | nil => rfl
  | cons first rest ih =>
    cases rest with
    | nil =>
      rw [List.map_singleton, String.intercalate_singleton, String.intercalate_singleton, casefold_toList]
    | cons second rest =>
      rw [List.map_cons, List.map_cons, String.intercalate_cons_cons, String.intercalate_cons_cons, String.toList_append,
        String.toList_append, String.toList_append, String.toList_append, List.flatMap_append, List.flatMap_append, ih,
        casefold_toList, List.map_cons]
      have hslash : ("/" : String).toList.flatMap F.fold = "/".toList := by
        show F.fold '/' ++ [] = ['/']
        rw [F.slash]
        rfl
      rw [hslash]

/-- Folded components are told by their joined text. -/
theorem join_injective {a b : List String} (ha : ∀ s ∈ a, '/' ∉ s.toList) (hb : ∀ s ∈ b, '/' ∉ s.toList)
    (hane : a ≠ []) (hbne : b ≠ []) (h : "/".intercalate a = "/".intercalate b) : a = b := by
  have hsplit : ∀ l : List String, (∀ s ∈ l, '/' ∉ s.toList) → l ≠ [] →
      ("/".intercalate l).toList.splitOn '/' = l.map String.toList := by
    intro l hl hne
    rw [String.toList_intercalate]
    apply List.splitOn_intercalate
    · intro chars hchars
      obtain ⟨part, hpart, rfl⟩ := List.mem_map.mp hchars
      exact hl part hpart
    · simpa using hne
  have hsame := (hsplit a ha hane).symm.trans (h ▸ hsplit b hb hbne)
  exact List.map_injective_iff.mpr (fun _ _ heq => String.toList_injective heq) hsame

/-- A proper prefix of some components and a slash are a prefix of their joined text. -/
theorem join_prefix {a b : List String} (hane : a ≠ []) (hbegins : a <+: b) (hne : a ≠ b) :
    ("/".intercalate a).toList ++ ['/'] <+: ("/".intercalate b).toList := by
  obtain ⟨rest, rfl⟩ := hbegins
  cases rest with
  | nil => exact absurd (List.append_nil a).symm hne
  | cons next rest =>
    have hjoin : "/".intercalate (a ++ next :: rest) = "/".intercalate a ++ "/" ++ "/".intercalate (next :: rest) := by
      clear hne
      induction a with
      | nil => exact absurd rfl hane
      | cons first a ih =>
        cases a with
        | nil =>
          rw [String.intercalate_singleton]
          exact String.intercalate_cons_cons
        | cons second a =>
          rw [List.cons_append, List.cons_append, String.intercalate_cons_cons, String.intercalate_cons_cons,
            ← List.cons_append, ih (List.cons_ne_nil _ _)]
          simp only [String.append_assoc]
    rw [hjoin, String.toList_append, String.toList_append]
    exact ⟨_, rfl⟩

end LilTweak.Sources
