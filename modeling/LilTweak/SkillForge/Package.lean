import LilTweak.Evidence.Readers
import LilTweak.SkillForge.Text
import Mathlib

/-!
# Skill packages

A package is a map from paths to contents that passes `verify_package`. A draft is compiled into one,
and a release adds an evidence file and its digest. The digest of contents is a parameter.
-/

namespace LilTweak.SkillForge

open LilTweak.Lib
open LilTweak.Evidence (textLines)

abbrev Bytes := List UInt8

/-- A map from paths to contents. -/
abbrev Files := Dict PyStr Bytes

def maxFileBytes : ℕ := 128 * 1024

def maxPackageBytes : ℕ := 1024 * 1024

def maxResources : ℕ := 64

/-! ## JSON -/

/-- The text of `canonical(value)`. -/
def canonicalText (value : PyJson) : List Char := (PyJson.sortKeys value).text ++ ['\n']

/-- `canonical(value)`. -/
def canonical (value : PyJson) : Bytes := encodeUtf8 (canonicalText value)

/-- `parse_json` of a text. -/
def parseJson (t : List Char) : Except Fault PyJson :=
  match PyJson.loads t with
  | some value => .ok value
  | none => .error (.forge "invalid_json")

/-- `parse_json` of a content that holds no NUL: `json.loads` reads it as UTF-8, behind a byte order mark. -/
def parseBytes (content : Bytes) : Except Fault PyJson :=
  match decodeUtf8 content with
  | none => .error (.forge "invalid_json")
  | some t => parseJson (if t.head? = some '\ufeff' then t.tail else t)

/-- `value[name]`. -/
def item (name : String) (fields : List (PyStr × PyJson)) : Except Fault PyJson :=
  match Entries.lookup (PyStr.ofText name) fields with
  | some value => .ok value
  | none => .error (.python "KeyError")

/-- `set(value) == names`. -/
def keysAre (names : List String) (fields : List (PyStr × PyJson)) : Bool :=
  (fields.all fun f => (names.map PyStr.ofText).contains f.1) &&
    names.all fun name => (fields.map Prod.fst).contains (PyStr.ofText name)

/-! ## Files -/

/-- The paths of the directories a file is in. -/
def parents (path : List Char) : List (List Char) :=
  (List.range' 1 ((path.splitOn '/').length - 1)).map fun n => ['/'].intercalate ((path.splitOn '/').take n)

section

theorem lawfulBEq_text : LawfulBEq (List Char) := inferInstance

attribute [local instance] lawfulBEq_text

/-- One file of `_check_files`; the case-folded paths that were seen, and the bytes. -/
def checkFile (s : List (List Char) × ℕ) (file : PyStr × Bytes) : Except Fault (List (List Char) × ℕ) := do
  let path ← checkedPath false (.str file.1)
  if lower path ∈ s.1 then .error (.forge "path_collision")
  else if maxFileBytes < file.2.length then .error (.forge "file_size_limit")
  else if maxPackageBytes < s.2 + file.2.length then .error (.forge "package_size_limit")
  else
    match decodeUtf8 file.2 with
    | none => .error (.forge "invalid_utf8")
    | some decoded => do
      let _ ← text maxFileBytes true (strOf decoded)
      .ok (s.1 ++ [lower path], s.2 + file.2.length)

end

/-- The path of a file, which `_check_files` has checked. -/
def pathText (path : PyStr) : List Char := (path.mapM CodePoint.char?).getD []

/-- `_check_files`. -/
def checkFiles (files : Files) : Except Fault Unit :=
  if files.entries.length < 3 ∨ maxResources + 4 < files.entries.length then .error (.forge "file_count_limit")
  else do
    let seen ← files.entries.foldlM checkFile ([], 0)
    if files.keys.any (fun path => (parents (pathText path)).any fun parent => seen.1.contains (lower parent)) then
      .error (.forge "path_collision")
    else .ok ()

/-- `sorted(files.items())`. -/
def sortedFiles (files : Files) : List (PyStr × Bytes) := files.entries.insertionSort fun a b => a.1 ≤ b.1

/-- `value.startswith(front)`. -/
def startsWith (front value : List Char) : Bool := front.isPrefixOf value

/-- The text before the first occurrence of another. -/
def textBefore (sep : List Char) : List Char → Option (List Char)
  | [] => if sep = [] then some [] else none
  | c :: rest => if sep.isPrefixOf (c :: rest) then some [] else (textBefore sep rest).map (c :: ·)

/-- `json.dumps` of a text. -/
def dumped (t : List Char) : List Char := (strOf t).text

/-- What the compatibility line of a skill says. -/
def compatibilityText (requirements : List (List Char)) : List Char :=
  "Requires tools: ".toList ++ [',', ' '].intercalate requirements ++ ". Host permissions still apply.".toList

section
variable (sha : Bytes → List Char)

/-- `_tree_digest`. -/
def treeDigest (files : Files) : List Char :=
  sha (canonical (.obj ((sortedFiles files).map fun file => (file.1, strOf (sha file.2)))))

/-- The digests of all files but the manifest. -/
def contentHashes (files : Files) : List (PyStr × List Char) :=
  ((sortedFiles files).filter fun file => file.1 ≠ PyStr.ofText "manifest.json").map fun file => (file.1, sha file.2)

/-- A mapping of JSON is equal to a map of texts. -/
def sameHashes (value : PyJson) (hashes : List (PyStr × List Char)) : Bool :=
  match value with
  | .obj fields =>
    (fields.all fun f =>
      match f.2, Entries.lookup f.1 hashes with
      | .str s, some hash => s = hash.map CodePoint.ofChar
      | _, _ => false) && hashes.all fun hash => (fields.map Prod.fst).contains hash.1
  | _ => false

/-- What a manifest says. -/
structure Manifest where
  name : List Char
  version : List Char
  requirements : List (List Char)
  agentId : List Char
  sourceDigest : List Char
  evidenceDigest : List Char
  contentHashes : PyJson

def originFields : List String := ["agent_id", "source_digest", "evidence_digest"]

def manifestFields : List String := ["schema_version", "name", "version", "requirements", "origin", "content_hashes"]

/-- An origin of three fields. -/
def readOrigin : PyJson → Except Fault (List Char × List Char × List Char)
  | .obj origin =>
    if keysAre originFields origin = false then .error (.forge "invalid_origin")
    else do
      let agentId ← item "agent_id" origin >>= identifier
      let sourceDigest ← item "source_digest" origin >>= digestValue
      let evidenceDigest ← item "evidence_digest" origin >>= digestValue
      .ok (agentId, sourceDigest, evidenceDigest)
  | _ => .error (.forge "invalid_origin")

/-- The requirements of a draft or a manifest. -/
def readRequirements (value : PyJson) : Except Fault (List (List Char)) := do
  let requirements ← strings 8 value
  if requirements.all requirementShape = false then .error (.forge "invalid_tool_requirement")
  else .ok requirements

/-- The schema version is the integer one. -/
def schemaOne : PyJson → Bool
  | .int i => i = 1
  | _ => false

/-- The manifest of a package, field by field. -/
def readManifest : PyJson → Except Fault Manifest
  | .obj fields =>
    if keysAre manifestFields fields = false then .error (.forge "invalid_manifest")
    else do
      let schema ← item "schema_version" fields
      if schemaOne schema = false then .error (.forge "invalid_manifest")
      else
        let name ← item "name" fields >>= skillName
        let version ← item "version" fields >>= skillVersion
        let requirements ← item "requirements" fields >>= readRequirements
        let origin ← item "origin" fields >>= readOrigin
        let contentHashes ← item "content_hashes" fields
        .ok { name, version, requirements, agentId := origin.1, sourceDigest := origin.2.1,
              evidenceDigest := origin.2.2, contentHashes }
  | _ => .error (.forge "invalid_manifest")

/-- The document begins with the name, ends its header, and is short. -/
def documentShape (name skill : List Char) : Bool :=
  startsWith ("---\nname: ".toList ++ dumped name ++ ['\n']) skill && (textBefore "\n---\n\n".toList skill).isSome &&
    (textLines skill).length ≤ 500

/-- The lines of the header of `SKILL.md`. -/
def headerLines (skill : List Char) : List (List Char) := textLines ((textBefore "\n---\n\n".toList skill).getD [])

/-- The header has the fields the compiler writes. -/
def headerShape (version : List Char) (header : List (List Char)) : Bool :=
  header.length = 7 && startsWith "description: ".toList (header.getD 2 []) &&
    startsWith "compatibility: ".toList (header.getD 3 []) && header.getD 4 [] = "metadata:".toList &&
    header.getD 5 [] = "  skill-forge-version: \"1\"".toList &&
    header.getD 6 [] = "  version: ".toList ++ dumped version

/-- The document agrees with the manifest. -/
def checkDocument (manifest : Manifest) (skill : List Char) : Except Fault Unit :=
  if documentShape manifest.name skill = false then .error (.forge "invalid_skill_document")
  else if headerShape manifest.version (headerLines skill) = false then .error (.forge "invalid_skill_frontmatter")
  else do
    let _ ← parseJson (((headerLines skill).getD 2 []).drop 13) >>= text 1024 true
    let compatibility ← parseJson (((headerLines skill).getD 3 []).drop 15) >>= text 500 true
    if compatibility ≠ compatibilityText manifest.requirements then .error (.forge "invalid_skill_compatibility")
    else .ok ()

/-- `files[path]`. -/
def fileAt (path : String) (files : Files) : Except Fault Bytes :=
  match files.get? (PyStr.ofText path) with
  | some content => .ok content
  | none => .error (.forge "required_file_missing")

/-- `content.decode("utf-8")` of a content that was decoded before. -/
def decoded (content : Bytes) : List Char := (decodeUtf8 content).getD []

/-- `verify_package(files, expected_digest=expected)`. -/
def verifyPackage (files : Files) (expected : Option PyJson) : Except Fault (List Char) := do
  checkFiles files
  let skill ← fileAt "SKILL.md" files
  let content ← fileAt "manifest.json" files
  let _ ← fileAt "tests/examples.json" files
  let manifest ← parseBytes content >>= readManifest
  if sameHashes manifest.contentHashes (contentHashes sha files) = false then .error (.forge "integrity_mismatch")
  else do
    checkDocument manifest (decoded skill)
    match expected with
    | none => .ok (treeDigest sha files)
    | some value => do
      let digest ← digestValue value
      if digest ≠ treeDigest sha files then .error (.forge "trusted_digest_mismatch")
      else .ok (treeDigest sha files)

/-! ## Packages -/

/-- `Package.__post_init__`. -/
def checkPackage (name version : List Char) (requirements : List (List Char)) (originId : List Char) (files : Files) :
    Except Fault Unit := do
  let _ ← verifyPackage sha files none
  let content ← fileAt "manifest.json" files
  let manifest ← parseBytes content >>= readManifest
  if name ≠ manifest.name ∨ version ≠ manifest.version ∨ requirements ≠ manifest.requirements ∨
      originId ≠ manifest.agentId then
    .error (.forge "package_manifest_mismatch")
  else .ok ()

/-- A package whose files were verified and whose fields are those of its manifest. -/
structure Package where
  name : List Char
  version : List Char
  requirements : List (List Char)
  originId : List Char
  files : Files
  checked : checkPackage sha name version requirements originId files = .ok ()

end

end LilTweak.SkillForge
