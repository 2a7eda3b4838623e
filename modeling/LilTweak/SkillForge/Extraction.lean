import LilTweak.Lib.Unpack
import LilTweak.SkillForge.Compiler
import Mathlib

/-!
# Extraction of a verified package

What `verify_package` checks of the files of a package, and what an extractor needs of them: every
path stays below the directory of the skill, and no two files meet, even where names differ in their
case only. So the archive of a verified package is extracted whole, each file once, wherever nothing
stands in its directory.
-/

namespace LilTweak.SkillForge

open LilTweak.Lib

/-! ## What is checked of the files -/

/-- A file that `_check_files` accepts. -/
structure SafeFile (file : PyStr × Bytes) : Prop where
  path : file.1 = (pathText file.1).map CodePoint.ofChar
  shape : Accepted 180 true (pathText file.1)
  safe : SafePath (pathText file.1)
  size : file.2.length ≤ maxFileBytes
  legible : ∃ t, decodeUtf8 file.2 = some t ∧ Accepted maxFileBytes true t

/-- The paths of some files as `_check_files` compares them. -/
def foldedPaths (files : List (PyStr × Bytes)) : List (List Char) := files.map fun file => lower (pathText file.1)

/-- The files `_check_files` accepts. -/
structure CheckedFiles (files : Files) : Prop where
  enough : 3 ≤ files.entries.length
  few : files.entries.length ≤ maxResources + 4
  each : ∀ file ∈ files.entries, SafeFile file
  distinct : (foldedPaths files.entries).Nodup
  clear : ∀ file ∈ files.entries, ∀ parent ∈ parents (pathText file.1), lower parent ∉ foldedPaths files.entries
  total : (files.entries.map fun file => file.2.length).sum ≤ maxPackageBytes

theorem pathText_ofChar (path : List Char) : pathText (path.map CodePoint.ofChar) = path := by
  rw [pathText, PyStr.mapM_ofChar, Option.getD_some]

theorem checkFile_ok {s s' : List (List Char) × ℕ} {file : PyStr × Bytes} (h : checkFile s file = .ok s') :
    SafeFile file ∧ lower (pathText file.1) ∉ s.1 ∧ s.2 + file.2.length ≤ maxPackageBytes ∧
      s' = (s.1 ++ [lower (pathText file.1)], s.2 + file.2.length) := by
  unfold checkFile at h
  obtain ⟨path, hpath, h⟩ := of_bind_ok h
  obtain ⟨hkey, hshape, hsafe, _⟩ := checkedPath_ok hpath
  have hkey' : file.1 = path.map CodePoint.ofChar := PyJson.str.inj hkey
  have hpathText : pathText file.1 = path := by rw [hkey', pathText_ofChar]
  obtain ⟨hnew, h⟩ := unless_ok h
  obtain ⟨hsize, h⟩ := unless_ok h
  obtain ⟨htotal, h⟩ := unless_ok h
  cases hdecode : decodeUtf8 file.2 with
  | none =>
    rw [hdecode] at h
    cases h
  | some t =>
    simp only [hdecode] at h
    obtain ⟨u, htext, h⟩ := of_bind_ok h
    obtain ⟨chars, hchars, haccepted, _⟩ := text_ok_iff.mp htext
    have hsame : t = chars := List.map_injective_iff.mpr CodePoint.ofChar_injective (PyJson.str.inj hchars)
    refine ⟨⟨?_, ?_, ?_, Nat.not_lt.mp hsize, t, hdecode, hsame ▸ haccepted⟩, ?_, Nat.not_lt.mp htotal, ?_⟩
    · rw [hpathText, hkey']
    · rw [hpathText]
      exact hshape
    · rw [hpathText]
      exact hsafe
    · rw [hpathText]
      exact hnew
    · rw [hpathText]
      exact (Except.ok.inj h).symm

/-- All files in turn. -/
theorem checkFile_all {files : List (PyStr × Bytes)} {s s' : List (List Char) × ℕ}
    (h : files.foldlM checkFile s = .ok s') (hdistinct : s.1.Nodup) (htotal : s.2 ≤ maxPackageBytes) :
    (∀ file ∈ files, SafeFile file) ∧ s'.1 = s.1 ++ foldedPaths files ∧ s'.1.Nodup ∧
      s'.2 = s.2 + (files.map fun file => file.2.length).sum ∧ s'.2 ≤ maxPackageBytes := by
  induction files generalizing s with
  | nil =>
    obtain rfl := Except.ok.inj h
    exact ⟨by simp, by simp [foldedPaths], hdistinct, by simp, htotal⟩
  | cons file rest ih =>
    rw [List.foldlM_cons] at h
    obtain ⟨mid, hfile, h⟩ := of_bind_ok h
    obtain ⟨hsafe, hnew, hroom, rfl⟩ := checkFile_ok hfile
    have hdistinct' : (s.1 ++ [lower (pathText file.1)]).Nodup :=
      List.Nodup.append hdistinct (List.nodup_singleton _) (List.disjoint_singleton.mpr hnew)
    obtain ⟨hrest, hpaths, hnodup, hsum, hbound⟩ := ih h hdistinct' hroom
    refine ⟨?_, ?_, hnodup, ?_, hbound⟩
    · intro other hother
      rcases List.mem_cons.mp hother with rfl | hmem
      · exact hsafe
      · exact hrest other hmem
    · rw [hpaths, List.append_assoc]
      rfl
    · rw [hsum, List.map_cons, List.sum_cons, Nat.add_assoc]

theorem checkFiles_ok {files : Files} (h : checkFiles files = .ok ()) : CheckedFiles files := by
  unfold checkFiles at h
  obtain ⟨hcount, h⟩ := unless_ok h
  rw [not_or, Nat.not_lt, Nat.not_lt] at hcount
  obtain ⟨seen, hfold, h⟩ := of_bind_ok h
  obtain ⟨hclear, _⟩ := unless_ok h
  obtain ⟨heach, hpaths, hnodup, hsum, hbound⟩ := checkFile_all hfold List.nodup_nil (Nat.zero_le _)
  rw [List.nil_append] at hpaths
  rw [Nat.zero_add] at hsum
  refine ⟨hcount.1, hcount.2, heach, hpaths ▸ hnodup, ?_, hsum ▸ hbound⟩
  intro file hfile parent hparent hmem
  have hkey : file.1 ∈ files.keys := List.mem_map_of_mem hfile
  have hnone := of_not_any (of_not_any hclear file.1 hkey ▸ Bool.false_ne_true) parent hparent
  rw [List.contains_eq_mem, decide_eq_false_iff_not, hpaths] at hnone
  exact hnone hmem

theorem normalized_eq_self {chars : List Char} (h : '\n' ∉ chars) : normalized chars = chars := by
  induction chars with
  | nil => rfl
  | cons c rest ih =>
    have hrest : '\n' ∉ rest := fun hmem => h (List.mem_cons_of_mem _ hmem)
    rw [normalized_cons, if_neg fun hbreak => hrest (List.mem_of_head? hbreak.2), ih hrest]

theorem checkedPath_safe {path : List Char} (haccepted : Accepted 180 true path) (hsafe : SafePath path) :
    checkedPath false (strOf path) = .ok path := by
  have htext : text 180 true (strOf path) = .ok path :=
    text_ok_iff.mpr ⟨path, rfl, haccepted, (normalized_eq_self hsafe.unfed).symm⟩
  unfold checkedPath
  rw [htext, ok_bind]
  dsimp only
  rw [if_neg]
  · split
    · next hplaced =>
      have hroot : 2 ≤ (path.splitOn '/').length ∧ String.ofList ((path.splitOn '/').headD []) ∈ roots := by
        rcases hplaced with hother | hresource
        · exact hsafe.placed.resolve_left hother
        · cases hresource
      rw [if_neg]
      rintro (hshort | hoff)
      · exact absurd hroot.1 (Nat.not_le.mpr hshort)
      · exact hoff hroot.2
    · rfl
  · rintro (hmany | hunsafe)
    · exact absurd hsafe.few (Nat.not_le.mpr hmany)
    · rw [List.all_eq_true.mpr hsafe.parts] at hunsafe
      cases hunsafe

theorem checkFile_safe {s : List (List Char) × ℕ} {file : PyStr × Bytes} (h : SafeFile file)
    (hnew : lower (pathText file.1) ∉ s.1) (hroom : s.2 + file.2.length ≤ maxPackageBytes) :
    checkFile s file = .ok (s.1 ++ [lower (pathText file.1)], s.2 + file.2.length) := by
  obtain ⟨t, hdecode, haccepted⟩ := h.legible
  have hpath : checkedPath false (.str file.1) = .ok (pathText file.1) := by
    rw [show PyJson.str file.1 = strOf (pathText file.1) from congrArg PyJson.str h.path]
    exact checkedPath_safe h.shape h.safe
  have htext : text maxFileBytes true (strOf t) = .ok (normalized t) := text_ok_iff.mpr ⟨t, rfl, haccepted, rfl⟩
  unfold checkFile
  rw [hpath, ok_bind, if_neg hnew, if_neg (Nat.not_lt.mpr h.size), if_neg (Nat.not_lt.mpr hroom)]
  simp only [hdecode, htext, ok_bind]

theorem checkFile_fold {files : List (PyStr × Bytes)} {s : List (List Char) × ℕ}
    (heach : ∀ file ∈ files, SafeFile file) (hdistinct : (s.1 ++ foldedPaths files).Nodup)
    (hroom : s.2 + (files.map fun file => file.2.length).sum ≤ maxPackageBytes) :
    files.foldlM checkFile s = .ok (s.1 ++ foldedPaths files, s.2 + (files.map fun file => file.2.length).sum) := by
  induction files generalizing s with
  | nil =>
    rw [show foldedPaths [] = [] from rfl, List.append_nil]
    rfl
  | cons file rest ih =>
    rw [List.map_cons, List.sum_cons] at hroom
    have hsplit : s.1 ++ foldedPaths (file :: rest) = s.1 ++ [lower (pathText file.1)] ++ foldedPaths rest := by
      rw [List.append_assoc]
      rfl
    rw [hsplit] at hdistinct
    have hnew : lower (pathText file.1) ∉ s.1 := by
      have hfront := hdistinct.of_append_left
      exact fun hmem => (List.disjoint_of_nodup_append hfront) hmem List.mem_cons_self
    rw [List.foldlM_cons, checkFile_safe (heach file List.mem_cons_self) hnew (by omega), ok_bind,
      ih (fun f hf => heach f (List.mem_cons_of_mem _ hf)) hdistinct (by dsimp only; omega)]
    rw [hsplit, List.map_cons, List.sum_cons, Nat.add_assoc]

theorem checkFiles_ok_iff {files : Files} : checkFiles files = .ok () ↔ CheckedFiles files := by
  constructor
  · exact checkFiles_ok
  · intro h
    unfold checkFiles
    rw [if_neg, checkFile_fold h.each (by rw [List.nil_append]; exact h.distinct)
      (by rw [Nat.zero_add]; exact h.total), ok_bind, if_neg]
    · intro hany
      obtain ⟨key, hkey, hparents⟩ := List.any_eq_true.mp hany
      obtain ⟨file, hfile, rfl⟩ := List.mem_map.mp hkey
      obtain ⟨parent, hparent, hmem⟩ := List.any_eq_true.mp hparents
      rw [List.contains_eq_mem, decide_eq_true_eq, List.nil_append] at hmem
      exact h.clear file hfile parent hparent hmem
    · rw [not_or, Nat.not_lt, Nat.not_lt]
      exact ⟨h.enough, h.few⟩

/-! ## What is verified -/

/-- The manifest of some files. -/
def manifestOf (files : Files) : Except Fault Manifest := do
  let content ← fileAt "manifest.json" files
  parseBytes content >>= readManifest

section
variable {sha : Bytes → List Char} {files : Files} {digest : List Char}

/-- What `verify_package` finds in the files it accepts. -/
structure Verified (sha : Bytes → List Char) (files : Files) (manifest : Manifest) : Prop where
  checked : CheckedFiles files
  skill : ∃ content, fileAt "SKILL.md" files = .ok content ∧ checkDocument manifest (decoded content) = .ok ()
  examples : ∃ content, fileAt "tests/examples.json" files = .ok content
  described : manifestOf files = .ok manifest
  hashes : sameHashes manifest.contentHashes (contentHashes sha files) = true

theorem verifyPackage_ok {expected : Option PyJson} (h : verifyPackage sha files expected = .ok digest) :
    digest = treeDigest sha files ∧ ∃ manifest, Verified sha files manifest := by
  unfold verifyPackage at h
  obtain ⟨_, hchecked, h⟩ := of_bind_ok h
  obtain ⟨skill, hskill, h⟩ := of_bind_ok h
  obtain ⟨content, hcontent, h⟩ := of_bind_ok h
  obtain ⟨examples, hexamples, h⟩ := of_bind_ok h
  obtain ⟨manifest, hmanifest, h⟩ := of_bind_ok h
  obtain ⟨hhashes, h⟩ := unless_ok h
  obtain ⟨_, hdocument, h⟩ := of_bind_ok h
  refine ⟨?_, manifest, checkFiles_ok hchecked, ⟨skill, hskill, hdocument⟩, ⟨examples, hexamples⟩, ?_,
    Bool.not_eq_false _ ▸ hhashes⟩
  · cases expected with
    | none => exact (Except.ok.inj h).symm
    | some value =>
      obtain ⟨trusted, _, h⟩ := of_bind_ok h
      exact (Except.ok.inj (unless_ok h).2).symm
  · unfold manifestOf
    rw [hcontent, ok_bind]
    exact hmanifest

/-! ### The manifest -/

/-- The fields a manifest was read from. -/
structure ManifestRead (fields : List (PyStr × PyJson)) (m : Manifest) : Prop where
  keys : keysAre manifestFields fields = true
  schema : ∃ schema, item "schema_version" fields = .ok schema ∧ schemaOne schema = true
  name : item "name" fields >>= skillName = .ok m.name
  version : item "version" fields >>= skillVersion = .ok m.version
  requirements : item "requirements" fields >>= readRequirements = .ok m.requirements
  origin : item "origin" fields >>= readOrigin = .ok (m.agentId, m.sourceDigest, m.evidenceDigest)
  hashes : item "content_hashes" fields = .ok m.contentHashes

theorem readManifest_ok {value : PyJson} {m : Manifest} (h : readManifest value = .ok m) :
    ∃ fields, value = .obj fields ∧ ManifestRead fields m := by
  cases value with
  | obj fields =>
    unfold readManifest at h
    obtain ⟨hkeys, h⟩ := unless_ok h
    obtain ⟨schema, hschema, h⟩ := of_bind_ok h
    obtain ⟨hone, h⟩ := unless_ok h
    obtain ⟨name, hname, h⟩ := of_bind_ok h
    obtain ⟨version, hversion, h⟩ := of_bind_ok h
    obtain ⟨requirements, hrequirements, h⟩ := of_bind_ok h
    obtain ⟨origin, horigin, h⟩ := of_bind_ok h
    obtain ⟨hashes, hhashes, h⟩ := of_bind_ok h
    obtain rfl := Except.ok.inj h
    exact ⟨fields, rfl, Bool.not_eq_false _ ▸ hkeys, ⟨schema, hschema, Bool.not_eq_false _ ▸ hone⟩, hname, hversion,
      hrequirements, horigin, hhashes⟩
  | null | bool _ | int _ | float _ | str _ | arr _ => cases h

/-- A character of a name of a skill. -/
def skillNameChar (c : Char) : Bool := ('a' ≤ c && c ≤ 'z') || c.isDigit || c = '-'

theorem skillNameShape_chars {s : List Char} (h : skillNameShape s = true) : ∀ c ∈ s, skillNameChar c = true := by
  intro c hc
  rcases (mem_parts hc : c = '-' ∨ _) with rfl | ⟨part, hpart, hmem⟩
  · decide
  · have hshape := List.all_eq_true.mp h part hpart
    rw [Bool.and_eq_true] at hshape
    have hchar := List.all_eq_true.mp hshape.2 c hmem
    unfold skillNameChar
    rw [hchar, Bool.true_or]

theorem skillName_ok {value : PyJson} {name : List Char} (h : skillName value = .ok name) :
    value = strOf name ∧ Accepted 64 true name ∧ skillNameShape name = true ∧ String.ofList name ∉ reserved := by
  unfold skillName at h
  obtain ⟨checked, htext, h⟩ := of_bind_ok h
  obtain ⟨hshape, h⟩ := unless_ok h
  obtain rfl := Except.ok.inj h
  rw [not_or, Bool.not_eq_false] at hshape
  have hunfed : '\n' ∉ checked := fun hfeed => absurd (skillNameShape_chars hshape.1 '\n' hfeed) (by decide)
  obtain ⟨hvalue, haccepted⟩ := text_ok_unfed htext hunfed
  exact ⟨hvalue, haccepted, hshape⟩

/-- The name a manifest gives. -/
theorem manifestOf_name {manifest : Manifest} (h : manifestOf files = .ok manifest) :
    Accepted 64 true manifest.name ∧ skillNameShape manifest.name = true ∧ String.ofList manifest.name ∉ reserved := by
  unfold manifestOf at h
  obtain ⟨content, _, h⟩ := of_bind_ok h
  obtain ⟨value, _, h⟩ := of_bind_ok h
  obtain ⟨fields, rfl, hread⟩ := readManifest_ok h
  obtain ⟨name, _, hname⟩ := of_bind_ok hread.name
  exact (skillName_ok hname).2

/-! ## What an extractor needs -/

/-- The names a device of Windows answers to. -/
def devices : List String :=
  ["con", "prn", "aux", "nul", "com1", "com2", "com3", "com4", "com5", "com6", "com7", "com8", "com9", "lpt1", "lpt2",
    "lpt3", "lpt4", "lpt5", "lpt6", "lpt7", "lpt8", "lpt9"]

/-- A name that is one of a file or directory on every system. -/
structure OrdinaryName (name : List Char) : Prop where
  nonempty : name ≠ []
  undotted : name ≠ ['.'] ∧ name ≠ ['.', '.']
  plain : ∀ c ∈ name, c ≠ '/' ∧ c ≠ '\\' ∧ c ≠ ':'
  nodevice : ∀ device ∈ devices, lower (name.takeWhile (· ≠ '.')) ≠ device.toList

/-- Where a file stands on a system that ignores the case of names. -/
def place (path : List Char) : List (List Char) := (path.splitOn '/').map lower

/-- The digests a manifest lists. -/
def Manifest.listed (m : Manifest) : List (PyStr × PyJson) :=
  match m.contentHashes with
  | .obj fields => fields
  | _ => []

/-- Files with ordinary relative paths, which do not meet even without regard to case, bounded, legible, and listed with
their digests. -/
structure Extractable (sha : Bytes → List Char) (files : Files) (manifest : Manifest) : Prop where
  paths : ∀ file ∈ files.entries, file.1 = (pathText file.1).map CodePoint.ofChar
  components : ∀ file ∈ files.entries, ∀ part ∈ (pathText file.1).splitOn '/', OrdinaryName part
  distinct : ∀ a ∈ files.entries, ∀ b ∈ files.entries, lower (pathText a.1) = lower (pathText b.1) → a = b
  unnested : ∀ a ∈ files.entries, ∀ b ∈ files.entries, place (pathText a.1) <+: place (pathText b.1) → a = b
  contents : ∀ file ∈ files.entries, file.2.length ≤ maxFileBytes ∧ ∃ t, decodeUtf8 file.2 = some t
  bounded : files.entries.length ≤ maxResources + 4 ∧
    (files.entries.map fun file => file.2.length).sum ≤ maxPackageBytes
  listed : ∀ path hash, Entries.lookup path manifest.listed = some hash ↔
    ∃ content, files.get? path = some content ∧ path ≠ PyStr.ofText "manifest.json" ∧ hash = strOf (sha content)

theorem ordinary_of_safe {part : List Char} (h : safePart part = true) : OrdinaryName part := by
  obtain ⟨first, rest, rfl, hfirst⟩ := safePart_head h
  have hdot : first ≠ '.' := by
    rintro rfl
    cases hfirst
  refine ⟨List.cons_ne_nil _ _, ⟨?_, ?_⟩, ?_, ?_⟩
  · exact fun heq => hdot (List.cons.inj heq).1
  · exact fun heq => hdot (List.cons.inj heq).1
  · intro c hc
    have hchar := safePart_chars h c hc
    refine ⟨?_, ?_, ?_⟩
    · rintro rfl
      cases hchar
    · rintro rfl
      cases hchar
    · rintro rfl
      cases hchar
  · intro device hdevice heq
    obtain ⟨_, _, _, hreserved⟩ := safePart_iff.mp h
    unfold reservedPart at hreserved
    rw [heq, String.ofList_toList, decide_eq_false_iff_not] at hreserved
    have hsubset : ∀ device ∈ devices, device ∈ reserved := by decide
    exact hreserved (hsubset device hdevice)

theorem lower_intercalate (parts : List (List Char)) :
    lower (['/'].intercalate parts) = ['/'].intercalate (parts.map lower) := by
  induction parts with
  | nil => rfl
  | cons part rest ih =>
    cases rest with
    | nil => rw [List.map_cons, List.map_nil, List.intercalate_singleton, List.intercalate_singleton]
    | cons next rest =>
      rw [List.intercalate_cons_cons, List.map_cons, List.map_cons, List.intercalate_cons_cons, ← List.map_cons, ← ih]
      unfold lower
      rw [List.map_append, List.map_append]
      rfl

theorem lower_path (path : List Char) : lower path = ['/'].intercalate (place path) := by
  unfold place
  rw [← lower_intercalate, List.intercalate_splitOn]

/-- A file whose place is above that of another one, or the same, is that file. -/
theorem CheckedFiles.unnested (h : CheckedFiles files) {a b : PyStr × Bytes} (ha : a ∈ files.entries)
    (hb : b ∈ files.entries) (hbegins : place (pathText a.1) <+: place (pathText b.1)) : a = b := by
  have hmem : lower (pathText a.1) ∈ foldedPaths files.entries := List.mem_map_of_mem ha
  have htake : (((pathText b.1).splitOn '/').take ((pathText a.1).splitOn '/').length).map lower =
      place (pathText a.1) := by
    have hlength : (place (pathText a.1)).length = ((pathText a.1).splitOn '/').length := List.length_map _
    rw [List.map_take, ← hlength]
    exact (List.prefix_iff_eq_take.mp hbegins).symm
  have hle := hbegins.length_le
  unfold place at hle
  rw [List.length_map, List.length_map] at hle
  rcases Nat.lt_or_eq_of_le hle with hlt | heq
  · -- the path of `a` is that of a directory above `b`
    have hpos : 0 < ((pathText a.1).splitOn '/').length := List.length_pos_iff.mpr (List.splitOn_ne_nil _ _)
    have hparent : ['/'].intercalate (((pathText b.1).splitOn '/').take ((pathText a.1).splitOn '/').length) ∈
        parents (pathText b.1) := by
      apply List.mem_map_of_mem
      rw [List.mem_range'_1]
      omega
    refine absurd ?_ (h.clear b hb _ hparent)
    rw [lower_intercalate, htake, ← lower_path]
    exact hmem
  · rw [heq, List.take_length] at htake
    have hlower : lower (pathText a.1) = lower (pathText b.1) := by
      rw [lower_path, lower_path, ← htake]
      rfl
    exact List.inj_on_of_nodup_map h.distinct ha hb hlower

theorem mem_sortedFiles {file : PyStr × Bytes} : file ∈ sortedFiles files ↔ file ∈ files.entries :=
  (List.perm_insertionSort (fun a b : PyStr × Bytes => a.1 ≤ b.1) files.entries).mem_iff

/-- The digests that must be listed. -/
theorem lookup_contentHashes {path : PyStr} {hash : List Char} :
    Entries.lookup path (contentHashes sha files) = some hash ↔
      ∃ content, files.get? path = some content ∧ path ≠ PyStr.ofText "manifest.json" ∧ hash = sha content := by
  have hnodup : ((contentHashes sha files).map Prod.fst).Nodup := by
    unfold contentHashes
    rw [List.map_map]
    exact (inOrder files).nodup.sublist (List.filter_sublist.map _)
  have hmem : (path, hash) ∈ contentHashes sha files ↔
      ∃ content, files.get? path = some content ∧ path ≠ PyStr.ofText "manifest.json" ∧ hash = sha content := by
    unfold contentHashes
    rw [List.mem_map]
    constructor
    · rintro ⟨⟨key, content⟩, hfile, heq⟩
      obtain ⟨hsorted, hother⟩ := List.mem_filter.mp hfile
      obtain ⟨rfl, rfl⟩ := Prod.mk.inj heq
      exact ⟨content, (files.mem_entries_iff key content).mp (mem_sortedFiles.mp hsorted), of_decide_eq_true hother, rfl⟩
    · rintro ⟨content, hget, hother, rfl⟩
      have hsorted := mem_sortedFiles.mpr ((files.mem_entries_iff path content).mpr hget)
      exact ⟨(path, content), List.mem_filter.mpr ⟨hsorted, decide_eq_true hother⟩, rfl⟩
  rw [← hmem]
  exact ⟨Entries.mem_of_lookup, Entries.lookup_of_mem hnodup⟩

theorem lookup_of_key {α : Type} {key : PyStr} {l : List (PyStr × α)} (h : key ∈ l.map Prod.fst) :
    ∃ value, Entries.lookup key l = some value := by
  induction l with
  | nil => cases h
  | cons p rest ih =>
    obtain ⟨k, v⟩ := p
    by_cases hkey : k = key
    · exact ⟨v, if_pos hkey⟩
    · rw [List.map_cons] at h
      obtain ⟨value, hvalue⟩ := ih (List.mem_of_ne_of_mem (Ne.symm hkey) h)
      exact ⟨value, (if_neg hkey).trans hvalue⟩

/-- What a manifest lists where it agrees with the files. -/
theorem lookup_listed {manifest : Manifest}
    (h : sameHashes manifest.contentHashes (contentHashes sha files) = true) {path : PyStr} {hash : PyJson} :
    Entries.lookup path manifest.listed = some hash ↔
      ∃ content, files.get? path = some content ∧ path ≠ PyStr.ofText "manifest.json" ∧ hash = strOf (sha content) := by
  unfold Manifest.listed
  cases hvalue : manifest.contentHashes with
  | obj fields =>
    rw [hvalue] at h
    obtain ⟨hfields, hkeys⟩ := (Bool.and_eq_true _ _).mp h
    have heach : ∀ {value : PyJson}, Entries.lookup path fields = some value →
        ∃ listed, Entries.lookup path (contentHashes sha files) = some listed ∧ value = strOf listed := by
      intro value hlookup
      have hmatch := List.all_eq_true.mp hfields (path, value) (Entries.mem_of_lookup hlookup)
      simp only at hmatch
      split at hmatch
      · next s listed hlisted =>
        exact ⟨listed, hlisted, congrArg PyJson.str (of_decide_eq_true hmatch)⟩
      · cases hmatch
    constructor
    · intro hlookup
      obtain ⟨listed, hlisted, rfl⟩ := heach hlookup
      obtain ⟨content, hget, hother, rfl⟩ := lookup_contentHashes.mp hlisted
      exact ⟨content, hget, hother, rfl⟩
    · rintro ⟨content, hget, hother, rfl⟩
      have hlisted := (lookup_contentHashes : Entries.lookup _ (contentHashes sha _) = _ ↔ _).mpr ⟨content, hget, hother, rfl⟩
      have hkey := List.all_eq_true.mp hkeys _ (Entries.mem_of_lookup hlisted)
      rw [List.contains_eq_mem, decide_eq_true_eq] at hkey
      obtain ⟨value, hlookup⟩ := lookup_of_key hkey
      obtain ⟨listed, hlisted', rfl⟩ := heach hlookup
      rw [hlisted] at hlisted'
      rw [hlookup, Option.some.inj hlisted']
  | null | bool _ | int _ | float _ | str _ | arr _ =>
    rw [hvalue] at h
    cases h

/-- What `verify_package` accepts can be extracted. -/
theorem Verified.extractable {manifest : Manifest} (h : Verified sha files manifest) :
    Extractable sha files manifest where
  paths := fun file hfile => (h.checked.each file hfile).path
  components := fun file hfile part hpart => ordinary_of_safe ((h.checked.each file hfile).safe.parts part hpart)
  distinct := fun _ ha _ hb hlower => List.inj_on_of_nodup_map h.checked.distinct ha hb hlower
  unnested := fun _ ha _ hb hbegins => h.checked.unnested ha hb hbegins
  contents := fun file hfile => by
    obtain ⟨t, hdecode, _⟩ := (h.checked.each file hfile).legible
    exact ⟨(h.checked.each file hfile).size, t, hdecode⟩
  bounded := ⟨h.checked.few, h.checked.total⟩
  listed := fun _ _ => lookup_listed h.hashes


/-! ## The archive -/

/-- An archive without its headers: the names of its members and what they hold. -/
abbrev Archive := List (List Char × Bytes)

/-- The bytes of a stored archive: a local and a central record for each member, and the end record. -/
def archiveSize (members : Archive) : ℕ :=
  (members.map fun m => 30 + m.1.length + m.2.length + (46 + m.1.length)).sum + 22

/-- `_archive(name, files)`. -/
def archive (name : List Char) (files : Files) : Except Fault Archive :=
  let members := (sortedFiles files).map fun file => (name ++ '/' :: pathText file.1, file.2)
  if 2 * 1024 * 1024 < archiveSize members then .error (.forge "archive_size_limit") else .ok members

/-- The place a name stands for below the directory an archive is extracted into, if it does not leave it. -/
def resolve : List (List Char) → List (List Char) → Option (List (List Char))
  | stack, [] => some stack.reverse
  | stack, part :: rest =>
    if part = [] ∨ part = ['.'] then resolve stack rest
    else if part = ['.', '.'] then
      match stack with
      | [] => none
      | _ :: above => resolve above rest
    else resolve (part :: stack) rest

/-- The place of a member of an archive. -/
def memberPlace (name : List Char) : Option (List (List Char)) :=
  if (name.splitOn '/').head? = some [] then none else (resolve [] (name.splitOn '/')).map fun parts => parts.map lower

/-- Extract an archive where names are compared without regard to case. -/
def extract (t : FileTree (List Char) Bytes) (members : Archive) : Option (FileTree (List Char) Bytes) := do
  let located ← members.mapM fun m => (memberPlace m.1).map fun place => (place, m.2)
  t.unpack located

theorem resolve_ordinary {parts : List (List Char)} (h : ∀ part ∈ parts, OrdinaryName part) (stack : List (List Char)) :
    resolve stack parts = some (stack.reverse ++ parts) := by
  induction parts generalizing stack with
  | nil => rw [resolve, List.append_nil]
  | cons part rest ih =>
    have hpart := h part List.mem_cons_self
    have hkeep : ¬(part = [] ∨ part = ['.']) := by
      rintro (hempty | hdot)
      · exact hpart.nonempty hempty
      · exact hpart.undotted.1 hdot
    unfold resolve
    rw [if_neg hkeep, if_neg hpart.undotted.2, ih fun p hp => h p (List.mem_cons_of_mem _ hp)]
    rw [List.reverse_cons, List.append_assoc]
    rfl

/-- A member of the archive stands where its path says, below the directory of the skill. -/
theorem memberPlace_file {name path : List Char} (hname : OrdinaryName name)
    (hpath : ∀ part ∈ path.splitOn '/', OrdinaryName part) :
    memberPlace (name ++ '/' :: path) = some (lower name :: place path) := by
  have hslash : '/' ∉ name := fun hmem => (hname.plain '/' hmem).1 rfl
  have hsplit : (name ++ '/' :: path).splitOn '/' = name :: path.splitOn '/' :=
    List.splitOn_append_cons_self_of_not_mem hslash path
  have hall : ∀ part ∈ name :: path.splitOn '/', OrdinaryName part := by
    intro part hpart
    rcases List.mem_cons.mp hpart with rfl | hrest
    · exact hname
    · exact hpath part hrest
  unfold memberPlace
  rw [hsplit, List.head?_cons, if_neg, resolve_ordinary hall]
  · rfl
  · exact fun heq => hname.nonempty (Option.some.inj heq)

theorem toLower_skillNameChar {c : Char} (h : skillNameChar c = true) : c.toLower = c := by
  have hnot : ¬(c.val ≥ 'A'.val ∧ c.val ≤ 'Z'.val) := by
    rintro ⟨hlow, hhigh⟩
    unfold skillNameChar at h
    rw [Bool.or_eq_true, Bool.or_eq_true, Bool.and_eq_true, decide_eq_true_eq, decide_eq_true_eq, decide_eq_true_eq] at h
    rcases h with (⟨hsmall, _⟩ | hdigit) | rfl
    · exact absurd (UInt32.le_trans (show 'a'.val ≤ c.val from hsmall) hhigh) (by decide)
    · unfold Char.isDigit at hdigit
      rw [Bool.and_eq_true, decide_eq_true_eq, decide_eq_true_eq] at hdigit
      exact absurd (UInt32.le_trans hlow hdigit.2) (by decide)
    · exact absurd hlow (by decide)
  unfold Char.toLower
  rw [dif_neg hnot]

theorem lower_skillName {name : List Char} (h : skillNameShape name = true) : lower name = name := by
  have hchars := skillNameShape_chars h
  unfold lower
  calc
    name.map Char.toLower = name.map id := List.map_congr_left fun c hc => toLower_skillNameChar (hchars c hc)
    _ = name := List.map_id name

theorem ordinary_of_skillName {name : List Char} (haccepted : Accepted 64 true name) (hshape : skillNameShape name = true)
    (hreserved : String.ofList name ∉ reserved) : OrdinaryName name := by
  have hchars := skillNameShape_chars hshape
  have hnodot : '.' ∉ name := fun hdot => absurd (hchars '.' hdot) (by decide)
  have hlower := lower_skillName hshape
  refine ⟨?_, ⟨?_, ?_⟩, ?_, ?_⟩
  · rintro rfl
    obtain ⟨c, hc, _⟩ := haccepted.nonblank
    cases hc
  · rintro rfl
    exact hnodot List.mem_cons_self
  · rintro rfl
    exact hnodot List.mem_cons_self
  · intro c hc
    have hchar := hchars c hc
    refine ⟨?_, ?_, ?_⟩
    · rintro rfl
      cases hchar
    · rintro rfl
      cases hchar
    · rintro rfl
      cases hchar
  · intro device hdevice heq
    have htake : name.takeWhile (· ≠ '.') = name := by
      rw [List.takeWhile_eq_self_iff]
      intro c hc
      exact decide_eq_true fun hdot => hnodot (hdot ▸ hc)
    rw [htake, hlower] at heq
    have hsubset : ∀ device ∈ devices, device ∈ reserved := by decide
    rw [heq, String.ofList_toList] at hreserved
    exact hreserved (hsubset device hdevice)

theorem archiveSize_le {name : List Char} {l : List (PyStr × Bytes)} (hname : name.length ≤ 64)
    (hpaths : ∀ file ∈ l, (pathText file.1).length ≤ 180) :
    archiveSize (l.map fun file => (name ++ '/' :: pathText file.1, file.2)) ≤
      566 * l.length + (l.map fun file => file.2.length).sum + 22 := by
  induction l with
  | nil => exact Nat.le_refl 22
  | cons file rest ih =>
    have hrest := ih fun f hf => hpaths f (List.mem_cons_of_mem _ hf)
    have hpath := hpaths file List.mem_cons_self
    unfold archiveSize at hrest ⊢
    simp only [List.map_cons, List.sum_cons, List.length_append, List.length_cons] at hrest ⊢
    omega

theorem archive_ok {manifest : Manifest} (h : Verified sha files manifest) :
    archive manifest.name files =
      .ok ((sortedFiles files).map fun file => (manifest.name ++ '/' :: pathText file.1, file.2)) := by
  obtain ⟨haccepted, _, _⟩ := manifestOf_name h.described
  have hperm : (sortedFiles files).Perm files.entries := List.perm_insertionSort _ files.entries
  have hle := archiveSize_le (l := sortedFiles files) haccepted.short fun file hfile =>
    (h.checked.each file (mem_sortedFiles.mp hfile)).shape.short
  have hlength := hperm.length_eq
  have hsum := (hperm.map fun file => file.2.length).sum_eq
  have hfew := h.checked.few
  have htotal := h.checked.total
  have hmax : maxResources = 64 := rfl
  have hbytes : maxPackageBytes = 1048576 := rfl
  unfold archive
  apply if_neg
  omega

/-- The files of a package stand in the directory of the skill, each with its content, and nothing else was written. -/
structure Extracted (t : FileTree (List Char) Bytes) (name : List Char) (files : Files)
    (t' : FileTree (List Char) Bytes) : Prop where
  whole : ∀ file ∈ files.entries, t' (name :: place (pathText file.1)) = some (.file file.2)
  only : ∀ q content, [name] <+: q → t' q = some (.file content) →
    ∃ file ∈ files.entries, q = name :: place (pathText file.1) ∧ content = file.2
  outside : ∀ q, q ≠ [] → ¬[name] <+: q → t' q = t q

theorem mapM_members {name : List Char} (hname : OrdinaryName name) {l : List (PyStr × Bytes)}
    (hpaths : ∀ file ∈ l, ∀ part ∈ (pathText file.1).splitOn '/', OrdinaryName part) :
    (l.map fun file => (name ++ '/' :: pathText file.1, file.2)).mapM
        (fun m => (memberPlace m.1).map fun place => (place, m.2)) =
      some (l.map fun file => (lower name :: place (pathText file.1), file.2)) := by
  induction l with
  | nil => rfl
  | cons file rest ih =>
    rw [List.map_cons, List.mapM_cons, memberPlace_file hname (hpaths file List.mem_cons_self),
      ih fun f hf => hpaths f (List.mem_cons_of_mem _ hf)]
    rfl

theorem apart_of_ne {manifest : Manifest} (h : Extractable sha files manifest) {a b : PyStr × Bytes}
    (ha : a ∈ files.entries) (hb : b ∈ files.entries) (hne : a ≠ b) (name : List Char) :
    FileTree.Apart (name :: place (pathText a.1)) (name :: place (pathText b.1)) := by
  constructor
  · intro hbegins
    exact hne (h.unnested a ha b hb (List.cons_prefix_cons.mp hbegins).2)
  · intro hbegins
    exact hne (h.unnested b hb a ha (List.cons_prefix_cons.mp hbegins).2).symm

/-- Extracting the archive of a verified package where nothing stands in its way. -/
theorem Verified.extracts {manifest : Manifest} (h : Verified sha files manifest) {t : FileTree (List Char) Bytes}
    (hvacant : ∀ q, [manifest.name] <+: q → t q = none) (hroot : t.isFile [] = false) :
    ∃ t', extract t ((sortedFiles files).map fun file => (manifest.name ++ '/' :: pathText file.1, file.2)) = some t' ∧
      Extracted t manifest.name files t' := by
  obtain ⟨haccepted, hshape, hreserved⟩ := manifestOf_name h.described
  have hname := ordinary_of_skillName haccepted hshape hreserved
  have hlower := lower_skillName hshape
  have hextractable := h.extractable
  have hsorted : ∀ {file}, file ∈ sortedFiles files → file ∈ files.entries := fun hfile => mem_sortedFiles.mp hfile
  have hmembers := mapM_members hname (l := sortedFiles files) fun file hfile =>
    hextractable.components file (hsorted hfile)
  rw [hlower] at hmembers
  have hnodup : (sortedFiles files).Nodup := (inOrder files).nodup.of_map
  have hapart : ((sortedFiles files).map fun file => (manifest.name :: place (pathText file.1), file.2)).Pairwise
      fun e f => FileTree.Apart e.1 f.1 := by
    rw [List.pairwise_map]
    exact hnodup.pairwise_of_forall_ne fun a ha b hb hne =>
      apart_of_ne hextractable (hsorted ha) (hsorted hb) hne manifest.name
  have hfree : ∀ e ∈ (sortedFiles files).map fun file => (manifest.name :: place (pathText file.1), file.2),
      t.Vacant e.1 := by
    intro e he
    obtain ⟨file, _, rfl⟩ := List.mem_map.mp he
    constructor
    · exact hvacant _ (List.cons_prefix_cons.mpr ⟨rfl, List.nil_prefix⟩)
    · intro q hq
      cases q with
      | nil => exact hroot
      | cons first rest =>
        have hfirst : [manifest.name] <+: first :: rest :=
          List.cons_prefix_cons.mpr ⟨(List.cons_prefix_cons.mp hq).1.symm, List.nil_prefix⟩
        unfold FileTree.isFile
        rw [hvacant _ hfirst]
  obtain ⟨t', hunpack, hlaid⟩ := FileTree.unpack_laid hapart hfree
  refine ⟨t', ?_, ?_, ?_, ?_⟩
  · unfold extract
    rw [hmembers]
    exact hunpack
  · intro file hfile
    exact hlaid.files _ (List.mem_map_of_mem (mem_sortedFiles.mpr hfile))
  · intro q content hq hfile
    by_cases hcovered : ∃ e ∈ (sortedFiles files).map fun file => (manifest.name :: place (pathText file.1), file.2),
        q <+: e.1
    · obtain ⟨e, he, hbegins⟩ := hcovered
      by_cases hsame : q = e.1
      · obtain ⟨file, hmem, rfl⟩ := List.mem_map.mp he
        rw [hsame, hlaid.files _ he] at hfile
        exact ⟨file, hsorted hmem, hsame, (Node.file.inj (Option.some.inj hfile)).symm⟩
      · rw [hlaid.dirs e he q hbegins hsame] at hfile
        cases hfile
    · rw [hlaid.outside q fun e he hbegins => hcovered ⟨e, he, hbegins⟩, hvacant q hq] at hfile
      cases hfile
  · intro q hne hq
    apply hlaid.outside
    intro e he hbegins
    obtain ⟨file, _, rfl⟩ := List.mem_map.mp he
    cases q with
    | nil => exact hne rfl
    | cons first rest =>
      exact hq (List.cons_prefix_cons.mpr ⟨(List.cons_prefix_cons.mp hbegins).1.symm, List.nil_prefix⟩)

/-- Whatever files `verify_package` accepts can be extracted, and their archive is extracted whole into a directory of
its own. -/
theorem verified_extractable {expected : Option PyJson} (h : verifyPackage sha files expected = .ok digest) :
    ∃ manifest, manifestOf files = .ok manifest ∧ Extractable sha files manifest ∧
      ∃ members, archive manifest.name files = .ok members ∧ members.length = files.entries.length ∧
        ∀ t : FileTree (List Char) Bytes, (∀ q, [manifest.name] <+: q → t q = none) → t.isFile [] = false →
          ∃ t', extract t members = some t' ∧ Extracted t manifest.name files t' := by
  obtain ⟨_, manifest, hverified⟩ := verifyPackage_ok h
  have hperm : (sortedFiles files).Perm files.entries := List.perm_insertionSort _ files.entries
  refine ⟨manifest, hverified.described, hverified.extractable, _, archive_ok hverified, ?_, ?_⟩
  · rw [List.length_map, hperm.length_eq]
  · exact fun t hvacant hroot => hverified.extracts hvacant hroot

end

/-! ## A small skill -/

/-- The document of a skill that sorts rows. -/
def sortDocument : List Char :=
  "---\nname: \"sort\"\ndescription: \"Sorts.\"\n".toList ++
    "compatibility: \"Requires tools: sort. Host permissions still apply.\"\nmetadata:\n".toList ++
    "  skill-forge-version: \"1\"\n  version: \"1.0.0\"\n---\n\nSort.\n".toList

/-- Its public examples. -/
def sortExamples : List Char := "[\x7b\"expected\":\"a\\nb\",\"input\":\"b\\na\"\x7d]\n".toList

/-- Its manifest. -/
def sortManifest : List Char :=
  "\x7b\"content_hashes\":\x7b\"SKILL.md\":\"61b25d224ee3a1032d567155027ff3328d56bf61c2335873a5e13fed58ae09a6\",".toList ++
    "\"tests/examples.json\":\"6dc6183c6fb937f898ceb4f2c837d569c3760c70d52139e48fe6bdfdb562ac7b\"\x7d,".toList ++
    "\"name\":\"sort\",\"origin\":\x7b\"agent_id\":\"ada\",".toList ++
    "\"evidence_digest\":\"911169ddaaf146aff539f58c26c489af3b892dff0fe283c1c264c65ae5aa59a2\",".toList ++
    "\"source_digest\":\"aea8a04c2f293417e499bf5de2def8ebb1ed40264d128a67180ea56fbe4600ff\"\x7d,".toList ++
    "\"requirements\":[\"sort\"],\"schema_version\":1,\"version\":\"1.0.0\"\x7d\n".toList

/-- The files of the skill. -/
def sortFiles : Files :=
  ⟨[(PyStr.ofText "SKILL.md", encodeUtf8 sortDocument), (PyStr.ofText "manifest.json", encodeUtf8 sortManifest),
    (PyStr.ofText "tests/examples.json", encodeUtf8 sortExamples)], by decide +kernel⟩

/-- The list of their digests. -/
def sortTree : List Char :=
  "\x7b\"SKILL.md\":\"61b25d224ee3a1032d567155027ff3328d56bf61c2335873a5e13fed58ae09a6\",".toList ++
    "\"manifest.json\":\"e5dc8868d47987a4967a7b822509a2d83c7278c521368c737f8333a358941a20\",".toList ++
    "\"tests/examples.json\":\"6dc6183c6fb937f898ceb4f2c837d569c3760c70d52139e48fe6bdfdb562ac7b\"\x7d\n".toList

/-- A digest function that also knows this text. -/
def learned (sha : Bytes → List Char) (content : List Char) (digest : String) : Bytes → List Char := fun b =>
  if b = encodeUtf8 content then digest.toList else sha b

theorem learned_same (sha : Bytes → List Char) (content : List Char) (digest : String) :
    learned sha content digest (encodeUtf8 content) = digest.toList := if_pos rfl

theorem learned_other {sha : Bytes → List Char} {content t : List Char} {digest : String} (h : t ≠ content) :
    learned sha content digest (encodeUtf8 t) = sha (encodeUtf8 t) := if_neg fun he => h (encodeUtf8_injective he)

/-- The text of a request about the skill. -/
def sortRequest (nonce task tools : String) : List Char :=
  "\x7b\"files\":\x7b\"SKILL.md\":\"61b25d224ee3a1032d567155027ff3328d56bf61c2335873a5e13fed58ae09a6\"\x7d,".toList ++
    "\"max_output_bytes\":8192,\"max_steps\":12,\"nonce\":\"".toList ++ nonce.toList ++
    "\",\"package_digest\":\"28e87d2b99f1b94d460be52a2423821d584a54b8b9c842e7675a99092fcbdf25\",".toList ++
    "\"task\":\"".toList ++ task.toList ++ "\",\"timeout_seconds\":30.0,\"tools\":[".toList ++ tools.toList ++
    "]\x7d\n".toList

/-- The text of a suite for the skill. -/
def sortSuite : List Char :=
  "[\x7b\"case_id\":\"rows\",\"expected\":\"y\\nz\",\"kind\":\"positive\",\"task\":\"z\\ny\"\x7d,".toList ++
    "\x7b\"case_id\":\"no-rows\",\"expected\":\"no rows\",\"kind\":\"negative\",\"task\":\"-\"\x7d,".toList ++
    "\x7b\"case_id\":\"no-tool\",\"expected\":\"no sort\",\"kind\":\"missing_tool\",\"task\":\"x\\nw\"\x7d]\n".toList

/-- SHA-256 on the texts of an evaluation of the skill: its suite, its requests, its sessions and its outputs. -/
def evaluationSha : Bytes → List Char :=
  [(sortSuite, "522e475004ee9bce027705cb4783345245db232c77a16a69d0b5d0b1b9aff789"),
    (sortRequest "00000000000000000000000000000001" "z\\ny" "\"sort\"",
      "655d3ea7cfb020462e26b912591d2c5d792555ab61e0c55b685879844edc3ef8"),
    (sortRequest "00000000000000000000000000000002" "-" "\"sort\"",
      "d1aa8085f209aa0eb20679fac2e1592e82456a927eee20869b0a93497a92d84f"),
    (sortRequest "00000000000000000000000000000003" "x\\nw" "",
      "73da7f6e1391726df3af3ea3bd0a61efbf30f0f1f6fc7f6a3e026285d85a9e75"),
    ("session-1".toList, "84097828fc31a8c8d29210df48901a85de7fd013f686b17be77d1be29cb7a98b"),
    ("session-2".toList, "5d9061408048c12d053925aed45333a142997f26a2cd1e0c4a87678c53a1e3ae"),
    ("session-3".toList, "eb278475f606714397df8cb657e1c7ee252f4c85e62e2cb65c5fea66b2ec4fb0"),
    ("y\nz".toList, "154fe76ca1499d78110a59ca47b7f239fb95cefeb8928fbc2b8935a718d14615"),
    ("no rows".toList, "c9039c6dfee534e6c5a55263017d32f10fc93d2faf34f61f2ac0b20c0b3892fc"),
    ("no sort".toList, "3c9b7947bddbce51c7c628f62e3ee9236de4eb2a936b14909510acc72e4644a6")].foldl
    (fun sha known => learned sha known.1 known.2) fun _ => []

/-- SHA-256 also on the files and on the list of their digests. -/
def sortSha : Bytes → List Char :=
  [(sortTree, "28e87d2b99f1b94d460be52a2423821d584a54b8b9c842e7675a99092fcbdf25"),
    (sortManifest, "e5dc8868d47987a4967a7b822509a2d83c7278c521368c737f8333a358941a20"),
    (sortExamples, "6dc6183c6fb937f898ceb4f2c837d569c3760c70d52139e48fe6bdfdb562ac7b"),
    (sortDocument, "61b25d224ee3a1032d567155027ff3328d56bf61c2335873a5e13fed58ae09a6")].foldl
    (fun sha known => learned sha known.1 known.2) evaluationSha

def sortDigest : List Char := "28e87d2b99f1b94d460be52a2423821d584a54b8b9c842e7675a99092fcbdf25".toList

/-- `_check_files` accepts a file whose content is the encoding of a text. -/
theorem checkFile_text {s : List (List Char) × ℕ} {path : PyStr} {p t t' : List Char} {n : ℕ}
    (htext : (encodeUtf8 t).length = n ∧ text maxFileBytes true (strOf t) = .ok t')
    (hpath : checkedPath false (.str path) = .ok p) (hnew : lower p ∉ s.1) (hfile : n ≤ maxFileBytes)
    (hpackage : s.2 + n ≤ maxPackageBytes) : checkFile s (path, encodeUtf8 t) = .ok (s.1 ++ [lower p], s.2 + n) := by
  unfold checkFile
  dsimp only
  rw [hpath, ok_bind, if_neg hnew, htext.1, if_neg (by omega), if_neg (by omega), decodeUtf8_encodeUtf8]
  dsimp only
  rw [htext.2, ok_bind]

theorem parseBytes_encoded (t : List Char) :
    parseBytes (encodeUtf8 t) = parseJson (if t.head? = some '\ufeff' then t.tail else t) := by
  unfold parseBytes
  rw [decodeUtf8_encodeUtf8]

theorem sortFiles_checked : checkFiles sortFiles = .ok () := by
  -- The characters of a literal are those it is written with; the kernel would decode its bytes one by one.
  have hdocument : (encodeUtf8 sortDocument).length = 175 ∧ text maxFileBytes true (strOf sortDocument) = .ok sortDocument := by
    unfold sortDocument
    repeat rw [String.toList_ofList]
    decide +kernel
  have hmanifest : (encodeUtf8 sortManifest).length = 459 ∧ text maxFileBytes true (strOf sortManifest) = .ok sortManifest := by
    unfold sortManifest
    repeat rw [String.toList_ofList]
    decide +kernel
  have hexamples : (encodeUtf8 sortExamples).length = 37 ∧ text maxFileBytes true (strOf sortExamples) = .ok sortExamples := by
    unfold sortExamples
    rw [String.toList_ofList]
    decide +kernel
  have hfiles : sortFiles.entries.foldlM checkFile ([], 0) =
      .ok (["skill.md".toList, "manifest.json".toList, "tests/examples.json".toList], 671) := by
    unfold sortFiles
    dsimp only
    rw [List.foldlM_cons, checkFile_text (p := "SKILL.md".toList) hdocument (by decide +kernel) (by decide) (by decide)
      (by decide), ok_bind, List.foldlM_cons, checkFile_text (p := "manifest.json".toList) hmanifest (by decide +kernel)
      (by decide) (by decide) (by decide), ok_bind, List.foldlM_cons, checkFile_text (p := "tests/examples.json".toList)
      hexamples (by decide +kernel) (by decide) (by decide) (by decide), ok_bind, List.foldlM_nil]
    decide +kernel
  unfold checkFiles
  rw [if_neg (by decide), hfiles, ok_bind]
  decide +kernel

theorem sortSha_eq : sortSha = learned (learned (learned (learned evaluationSha
    sortTree "28e87d2b99f1b94d460be52a2423821d584a54b8b9c842e7675a99092fcbdf25")
    sortManifest "e5dc8868d47987a4967a7b822509a2d83c7278c521368c737f8333a358941a20")
    sortExamples "6dc6183c6fb937f898ceb4f2c837d569c3760c70d52139e48fe6bdfdb562ac7b")
    sortDocument "61b25d224ee3a1032d567155027ff3328d56bf61c2335873a5e13fed58ae09a6" := rfl

theorem sortSha_document : sortSha (encodeUtf8 sortDocument) =
    "61b25d224ee3a1032d567155027ff3328d56bf61c2335873a5e13fed58ae09a6".toList := by
  rw [sortSha_eq, learned_same]

theorem sortSha_examples : sortSha (encodeUtf8 sortExamples) =
    "6dc6183c6fb937f898ceb4f2c837d569c3760c70d52139e48fe6bdfdb562ac7b".toList := by
  have hdocument : sortExamples ≠ sortDocument := by
    unfold sortExamples sortDocument
    repeat rw [String.toList_ofList]
    decide
  rw [sortSha_eq, learned_other hdocument, learned_same]

theorem sortSha_manifest : sortSha (encodeUtf8 sortManifest) =
    "e5dc8868d47987a4967a7b822509a2d83c7278c521368c737f8333a358941a20".toList := by
  have hothers : sortManifest ≠ sortDocument ∧ sortManifest ≠ sortExamples := by
    unfold sortManifest sortDocument sortExamples
    repeat rw [String.toList_ofList]
    decide
  rw [sortSha_eq, learned_other hothers.1, learned_other hothers.2, learned_same]

theorem sortSha_tree : sortSha (encodeUtf8 sortTree) = sortDigest := by
  have hothers : sortTree ≠ sortDocument ∧ sortTree ≠ sortExamples ∧ sortTree ≠ sortManifest := by
    unfold sortTree sortDocument sortExamples sortManifest
    repeat rw [String.toList_ofList]
    decide
  rw [sortSha_eq, learned_other hothers.1, learned_other hothers.2.1, learned_other hothers.2.2]
  exact learned_same _ _ _

theorem sort_hashes : contentHashes sortSha sortFiles =
    [(PyStr.ofText "SKILL.md", "61b25d224ee3a1032d567155027ff3328d56bf61c2335873a5e13fed58ae09a6".toList),
      (PyStr.ofText "tests/examples.json", "6dc6183c6fb937f898ceb4f2c837d569c3760c70d52139e48fe6bdfdb562ac7b".toList)] := by
  have hsorted : (sortedFiles sortFiles).filter (fun file => file.1 ≠ PyStr.ofText "manifest.json") =
      [(PyStr.ofText "SKILL.md", encodeUtf8 sortDocument), (PyStr.ofText "tests/examples.json", encodeUtf8 sortExamples)] := rfl
  unfold contentHashes
  rw [hsorted]
  simp only [List.map_cons, List.map_nil, sortSha_document, sortSha_examples]

theorem sort_digest : treeDigest sortSha sortFiles = sortDigest := by
  have hsorted : sortedFiles sortFiles = sortFiles.entries := rfl
  have htree : canonicalText (.obj [(PyStr.ofText "SKILL.md",
        strOf "61b25d224ee3a1032d567155027ff3328d56bf61c2335873a5e13fed58ae09a6".toList),
      (PyStr.ofText "manifest.json", strOf "e5dc8868d47987a4967a7b822509a2d83c7278c521368c737f8333a358941a20".toList),
      (PyStr.ofText "tests/examples.json",
        strOf "6dc6183c6fb937f898ceb4f2c837d569c3760c70d52139e48fe6bdfdb562ac7b".toList)]) = sortTree := by
    unfold sortTree
    repeat rw [String.toList_ofList]
    decide +kernel
  unfold treeDigest canonical
  rw [hsorted]
  unfold sortFiles
  simp only [List.map_cons, List.map_nil, sortSha_document, sortSha_manifest, sortSha_examples, htree, sortSha_tree]

/-- The manifest of the skill, and that it goes with its files and its document. -/
theorem sort_manifest : ∃ m, parseBytes (encodeUtf8 sortManifest) >>= readManifest = .ok m ∧
    sameHashes m.contentHashes (contentHashes sortSha sortFiles) = true ∧ checkDocument m sortDocument = .ok () := by
  have hread : (parseBytes (encodeUtf8 sortManifest) >>= readManifest).toOption.any (fun m =>
      sameHashes m.contentHashes (contentHashes sortSha sortFiles) && checkDocument m sortDocument = .ok ()) = true := by
    rw [sort_hashes, parseBytes_encoded]
    unfold sortManifest sortDocument
    repeat rw [String.toList_ofList]
    decide +kernel
  cases hm : parseBytes (encodeUtf8 sortManifest) >>= readManifest with
  | error e =>
    rw [hm] at hread
    cases hread
  | ok m =>
    rw [hm, Except.toOption, Option.any_some] at hread
    simp only [Bool.and_eq_true, decide_eq_true_eq] at hread
    exact ⟨m, rfl, hread⟩

theorem sortFiles_verified : verifyPackage sortSha sortFiles none = .ok sortDigest := by
  have hskill : fileAt "SKILL.md" sortFiles = .ok (encodeUtf8 sortDocument) := rfl
  have hmanifest : fileAt "manifest.json" sortFiles = .ok (encodeUtf8 sortManifest) := rfl
  have hexamples : fileAt "tests/examples.json" sortFiles = .ok (encodeUtf8 sortExamples) := rfl
  obtain ⟨m, hm, hhashes, hdocument⟩ := sort_manifest
  unfold verifyPackage
  rw [sortFiles_checked, ok_bind, hskill, ok_bind, hmanifest, ok_bind, hexamples, ok_bind, hm, ok_bind, hhashes,
    if_neg (by decide)]
  unfold decoded
  rw [decodeUtf8_encodeUtf8, Option.getD_some, hdocument, ok_bind, sort_digest]

theorem verified_extractable_sort : ∃ manifest, manifestOf sortFiles = .ok manifest ∧
    Extractable sortSha sortFiles manifest ∧
    ∃ members, archive manifest.name sortFiles = .ok members ∧ members.length = sortFiles.entries.length ∧
      ∀ t : FileTree (List Char) Bytes, (∀ q, [manifest.name] <+: q → t q = none) → t.isFile [] = false →
        ∃ t', extract t members = some t' ∧ Extracted t manifest.name sortFiles t' :=
  verified_extractable sortFiles_verified

end LilTweak.SkillForge
