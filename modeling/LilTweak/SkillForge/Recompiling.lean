import LilTweak.SkillForge.Extraction
import LilTweak.SkillForge.Reading
import Mathlib

/-!
# Recompiling a stored draft

The library keeps the canonical text of a draft and compiles it again whenever it needs the package.
The keys of the draft come back sorted, which changes nothing but the order in which the resources are
read, and the files of a package are the same in any order.
-/

namespace LilTweak.SkillForge

open LilTweak.Lib

/-! ## Files in another order -/

section
variable {sha : Bytes → List Char} {files files' : Files}

theorem get?_perm (h : files.entries.Perm files'.entries) (path : PyStr) : files.get? path = files'.get? path :=
  Entries.lookup_perm files.nodup h path

theorem fileAt_perm (h : files.entries.Perm files'.entries) (path : String) : fileAt path files = fileAt path files' := by
  unfold fileAt
  rw [get?_perm h]

/-- Sorted by its keys a list of entries has one order. -/
theorem sorted_eq_of_perm {l l' : List (PyStr × Bytes)} (hnodup : (l.map Prod.fst).Nodup) (h : l.Perm l') :
    l.insertionSort (fun a b => a.1 ≤ b.1) = l'.insertionSort fun a b => a.1 ≤ b.1 := by
  have hl : (l.insertionSort fun a b => a.1 ≤ b.1).Perm l := List.perm_insertionSort _ l
  have hl' : (l'.insertionSort fun a b => a.1 ≤ b.1).Perm l' := List.perm_insertionSort _ l'
  have hsame := hl.trans (h.trans hl'.symm)
  apply hsame.eq_of_pairwise _ (List.pairwise_insertionSort _ l) (List.pairwise_insertionSort _ l')
  intro a b ha hb hab hba
  have hkey : a.1 = b.1 := le_antisymm hab hba
  exact List.inj_on_of_nodup_map hnodup (hl.subset ha) (hl.subset (hsame.symm.subset hb)) hkey

theorem sortedFiles_perm (h : files.entries.Perm files'.entries) : sortedFiles files = sortedFiles files' :=
  sorted_eq_of_perm files.nodup h

theorem CheckedFiles.perm (hchecked : CheckedFiles files) (h : files.entries.Perm files'.entries) :
    CheckedFiles files' := by
  have hfolded : (foldedPaths files.entries).Perm (foldedPaths files'.entries) := h.map _
  refine ⟨?_, ?_, ?_, ?_, ?_, ?_⟩
  · rw [← h.length_eq]
    exact hchecked.enough
  · rw [← h.length_eq]
    exact hchecked.few
  · exact fun file hfile => hchecked.each file (h.mem_iff.mpr hfile)
  · exact hfolded.nodup_iff.mp hchecked.distinct
  · intro file hfile parent hparent hmem
    exact hchecked.clear file (h.mem_iff.mpr hfile) parent hparent (hfolded.mem_iff.mpr hmem)
  · rw [← (h.map fun file => file.2.length).sum_eq]
    exact hchecked.total

/-- Files that are verified are verified in any order, with one digest. -/
theorem verifyPackage_perm {expected : Option PyJson} {digest : List Char} (h : files.entries.Perm files'.entries)
    (hverify : verifyPackage sha files expected = .ok digest) : verifyPackage sha files' expected = .ok digest := by
  have hchecked : checkFiles files = .ok () := by
    unfold verifyPackage at hverify
    obtain ⟨_, hchecked, _⟩ := of_bind_ok hverify
    exact hchecked
  have hchecked' : checkFiles files' = .ok () := checkFiles_ok_iff.mpr ((checkFiles_ok hchecked).perm h)
  have hhashes : contentHashes sha files = contentHashes sha files' := by
    unfold contentHashes
    rw [sortedFiles_perm h]
  have htree : treeDigest sha files = treeDigest sha files' := by
    unfold treeDigest
    rw [sortedFiles_perm h]
  unfold verifyPackage at hverify ⊢
  rw [hchecked', ← fileAt_perm h, ← fileAt_perm h, ← fileAt_perm h, ← hhashes, ← htree]
  rw [hchecked] at hverify
  exact hverify

end

/-! ## A draft with its resources in another order -/

/-- Two dictionaries in which every key is found alike hold the same entries. -/
theorem entries_perm {α : Type} {d e : Dict PyStr α} (h : ∀ k, d.get? k = e.get? k) : d.entries.Perm e.entries := by
  apply (List.perm_ext_iff_of_nodup d.nodup.of_map e.nodup.of_map).mpr
  intro p
  obtain ⟨k, v⟩ := p
  rw [d.mem_entries_iff, e.mem_entries_iff, h]

/-- The file of a resource. -/
def resourceFile (r : List Char × List Char) : PyStr × Bytes := (r.1.map CodePoint.ofChar, encodeUtf8 r.2)

/-- The resources of a draft as files. -/
def resourceFiles (resources : List (List Char × List Char)) : Files :=
  resources.foldl (fun (files : Files) r => files.set (r.1.map CodePoint.ofChar) (encodeUtf8 r.2)) ∅

theorem get?_foldl_set {resources : List (List Char × List Char)} (hnodup : (resources.map Prod.fst).Nodup) (files : Files)
    (k : PyStr) :
    (resources.foldl (fun (files : Files) r => files.set (r.1.map CodePoint.ofChar) (encodeUtf8 r.2)) files).get? k =
      match Entries.lookup k (resources.map resourceFile) with
      | some content => some content
      | none => files.get? k := by
  induction resources generalizing files with
  | nil => rfl
  | cons r rest ih =>
    obtain ⟨hnew, hrest⟩ := List.nodup_cons.mp hnodup
    rw [List.foldl_cons, ih hrest, List.map_cons]
    by_cases hkey : r.1.map CodePoint.ofChar = k
    · have hnone : Entries.lookup k (rest.map resourceFile) = none := by
        cases hlookup : Entries.lookup k (rest.map resourceFile) with
        | none => rfl
        | some content =>
          obtain ⟨other, hother, heq⟩ := List.mem_map.mp (Entries.mem_of_lookup hlookup)
          have hsame : other.1 = r.1 := by
            apply List.map_injective_iff.mpr CodePoint.ofChar_injective
            rw [hkey]
            exact (Prod.mk.inj heq).1
          exact absurd (hsame ▸ List.mem_map_of_mem hother) hnew
      rw [hnone]
      show (files.set (r.1.map CodePoint.ofChar) (encodeUtf8 r.2)).get? k = _
      rw [Dict.get?_set, if_pos hkey.symm]
      unfold resourceFile
      rw [Entries.lookup, if_pos hkey]
    · unfold resourceFile at ih ⊢
      rw [Entries.lookup, if_neg hkey, Dict.get?_set, if_neg fun heq => hkey heq.symm]

theorem get?_resourceFiles {resources : List (List Char × List Char)} (hnodup : (resources.map Prod.fst).Nodup)
    (k : PyStr) : (resourceFiles resources).get? k = Entries.lookup k (resources.map resourceFile) := by
  unfold resourceFiles
  rw [get?_foldl_set hnodup]
  cases Entries.lookup k (resources.map resourceFile) with
  | some content => rfl
  | none => rfl

theorem resourceFile_keys (resources : List (List Char × List Char)) :
    (resources.map resourceFile).map Prod.fst = (resources.map Prod.fst).map fun path => path.map CodePoint.ofChar := by
  rw [List.map_map, List.map_map]
  rfl

theorem nodup_resourceFile {resources : List (List Char × List Char)} (hnodup : (resources.map Prod.fst).Nodup) :
    ((resources.map resourceFile).map Prod.fst).Nodup := by
  rw [resourceFile_keys]
  exact hnodup.map (List.map_injective_iff.mpr CodePoint.ofChar_injective)

section
variable {sha : Bytes → List Char} {d : Draft} {r' : List (List Char × List Char)}

theorem sortedPaths_perm {resources : List (List Char × List Char)} (h : r'.Perm resources) :
    sortedPaths r' = sortedPaths resources := by
  have hpaths := h.map Prod.fst
  unfold sortedPaths
  have hl := List.perm_insertionSort (fun a b : List Char => a.map CodePoint.ofChar ≤ b.map CodePoint.ofChar)
    (r'.map Prod.fst)
  have hl' := List.perm_insertionSort (fun a b : List Char => a.map CodePoint.ofChar ≤ b.map CodePoint.ofChar)
    (resources.map Prod.fst)
  apply (hl.trans (hpaths.trans hl'.symm)).eq_of_pairwise _ (List.pairwise_insertionSort _ _)
    (List.pairwise_insertionSort _ _)
  intro a b _ _ hab hba
  exact List.map_injective_iff.mpr CodePoint.ofChar_injective (le_antisymm hab hba)

theorem skillDocument_perm (h : r'.Perm d.resources) : skillDocument { d with resources := r' } = skillDocument d := by
  have hempty : r' = [] ↔ d.resources = [] := by
    constructor
    · rintro rfl
      exact h.nil_eq.symm
    · intro hnil
      rw [hnil] at h
      exact h.eq_nil
  unfold skillDocument skillLines
  simp only [sortedPaths_perm h, hempty]

theorem draftFiles_perm (hnodup : (d.resources.map Prod.fst).Nodup) (h : r'.Perm d.resources) :
    (draftFiles { d with resources := r' }).entries.Perm (draftFiles d).entries := by
  apply entries_perm
  intro k
  have hnodup' : (r'.map Prod.fst).Nodup := (h.map Prod.fst).nodup_iff.mpr hnodup
  have hresources : (resourceFiles r').get? k = (resourceFiles d.resources).get? k := by
    rw [get?_resourceFiles hnodup', get?_resourceFiles hnodup]
    exact Entries.lookup_perm (nodup_resourceFile hnodup') (h.map resourceFile) k
  unfold draftFiles
  rw [skillDocument_perm h, Dict.get?_set, Dict.get?_set, Dict.get?_set, Dict.get?_set]
  unfold resourceFiles at hresources
  rw [hresources]

theorem compiledFiles_perm (hnodup : (d.resources.map Prod.fst).Nodup) (h : r'.Perm d.resources) :
    (compiledFiles sha { d with resources := r' }).entries.Perm (compiledFiles sha d).entries := by
  have hfiles := draftFiles_perm hnodup h
  have hmanifest : manifestValue sha { d with resources := r' } (draftFiles { d with resources := r' }) =
      manifestValue sha d (draftFiles d) := by
    unfold manifestValue
    rw [sortedFiles_perm hfiles]
  apply entries_perm
  intro k
  unfold compiledFiles
  rw [Dict.get?_set, Dict.get?_set, hmanifest, get?_perm hfiles]

theorem inOrder_perm {files files' : Files} (h : files.entries.Perm files'.entries) : inOrder files = inOrder files' := by
  unfold inOrder
  simp only [sortedFiles_perm h]

/-- A draft compiles to one package, in whatever order its resources are read. -/
theorem packageOf_perm {p : Package sha} (hnodup : (d.resources.map Prod.fst).Nodup) (h : r'.Perm d.resources)
    (hp : packageOf sha d = .ok p) : packageOf sha { d with resources := r' } = .ok p := by
  have hfiles : (compiledFiles sha { d with resources := r' }).entries.Perm _ := compiledFiles_perm hnodup h
  unfold packageOf at hp ⊢
  obtain ⟨digest, hverify, hp⟩ := of_bind_ok hp
  rw [verifyPackage_perm hfiles.symm hverify, ok_bind, inOrder_perm hfiles]
  exact hp

end

/-! ## Compiling again -/

theorem resources_nodup {v : PyJson} {r : List (List Char × List Char)} (hkeyed : v.Keyed)
    (h : readResources v = .ok r) : (r.map Prod.fst).Nodup := by
  obtain ⟨fields, rfl, _, hfields⟩ := readResources_ok h
  have hkeys : ∀ {fields : List (PyStr × PyJson)} {r : List (List Char × List Char)},
      fields.mapM readResource = .ok r → fields.map Prod.fst = (r.map Prod.fst).map fun path => path.map CodePoint.ofChar := by
    intro fields
    induction fields with
    | nil =>
      intro r h
      obtain rfl := Except.ok.inj h
      rfl
    | cons f rest ih =>
      intro r h
      obtain ⟨first, others, hfirst, hothers, rfl⟩ := of_mapM_cons h
      have hkey : f.1 = first.1.map CodePoint.ofChar :=
        PyJson.str.inj (checkedPath_ok (readResource_ok hfirst).1).1
      rw [List.map_cons, List.map_cons, List.map_cons, ih hothers, hkey]
  have hnodup := hkeyed.1
  rw [hkeys hfields] at hnodup
  exact hnodup.of_map

theorem DraftRead.resources_nodup {fields : List (PyStr × PyJson)} {d : Draft} (h : DraftRead fields d)
    (hkeyed : PyJson.Keyed (.obj fields)) : (d.resources.map Prod.fst).Nodup := by
  have hresources := h.resources
  cases hlookup : Entries.lookup (PyStr.ofText "resources") fields with
  | none =>
    rw [hlookup] at hresources
    have hnil : [] = d.resources := Except.ok.inj hresources
    rw [← hnil]
    exact List.nodup_nil
  | some v =>
    rw [hlookup] at hresources
    have hv := PyJson.keyedFields_iff.mp hkeyed.2 _ (Entries.mem_of_lookup hlookup)
    exact SkillForge.resources_nodup hv hresources

/-- The canonical text of a draft that compiles parses and compiles to the same package. -/
theorem compileDraft_canonical {sha : Bytes → List Char} {data : PyJson} {p : Package sha} (hkeyed : data.Keyed)
    (h : compileDraft sha data = .ok p) : (parseJson (canonicalText data) >>= compileDraft sha) = .ok p := by
  unfold compileDraft at h
  obtain ⟨d, hread, hp⟩ := of_bind_ok h
  obtain ⟨hparse, r', hread', hperm⟩ := readDraft_canonical hkeyed hread
  obtain ⟨fields, rfl, _, hfields⟩ := readDraft_ok hread
  rw [hparse, ok_bind]
  unfold compileDraft
  rw [hread', ok_bind]
  exact packageOf_perm (hfields.resources_nodup hkeyed) hperm hp

/-! ## A draft that compiles -/

/-- The draft of a skill that sorts rows, as the compiler reads it. -/
def keptDraft : Draft :=
  { name := "sort".toList, version := "1.0.0".toList, description := "Sorts.".toList, whenToUse := "Rows.".toList
    inputs := ["rows".toList], outputs := ["rows".toList], steps := ["Sort.".toList], stopConditions := ["No rows.".toList]
    requirements := ["sort".toList], agentId := "ada".toList
    sourceDigest := "aea8a04c2f293417e499bf5de2def8ebb1ed40264d128a67180ea56fbe4600ff".toList
    evidenceDigest := "911169ddaaf146aff539f58c26c489af3b892dff0fe283c1c264c65ae5aa59a2".toList
    examples := [("b\na".toList, "a\nb".toList), ("c\nb".toList, "b\nc".toList)]
    resources := [] }

/-- The draft as it is handed over. -/
def keptValue : PyJson :=
  .obj [(PyStr.ofText "name", strOf keptDraft.name), (PyStr.ofText "version", strOf keptDraft.version),
    (PyStr.ofText "description", strOf keptDraft.description), (PyStr.ofText "when_to_use", strOf keptDraft.whenToUse),
    (PyStr.ofText "inputs", .arr (keptDraft.inputs.map strOf)), (PyStr.ofText "outputs", .arr (keptDraft.outputs.map strOf)),
    (PyStr.ofText "steps", .arr (keptDraft.steps.map strOf)),
    (PyStr.ofText "requirements", .arr (keptDraft.requirements.map strOf)),
    (PyStr.ofText "stop_conditions", .arr (keptDraft.stopConditions.map strOf)),
    (PyStr.ofText "examples", examplesValue keptDraft.examples),
    (PyStr.ofText "origin", .obj [(PyStr.ofText "agent_id", strOf keptDraft.agentId),
      (PyStr.ofText "source_digest", strOf keptDraft.sourceDigest),
      (PyStr.ofText "evidence_digest", strOf keptDraft.evidenceDigest)])]

theorem kept_read : readDraft keptValue = .ok keptDraft := by decide +kernel

theorem kept_keyed : keptValue.Keyed := by
  unfold keptValue examplesValue
  simp only [PyJson.Keyed, PyJson.KeyedFields, PyJson.KeyedItems, List.map_cons, List.map_nil, strOf, keptDraft]
  decide +kernel

def keptManifest : List Char :=
  "\x7b\"content_hashes\":\x7b\"SKILL.md\":\"85278e157948f0ef305b976ee356409896e226b0d33a277260f93d06d1a2a168\",".toList ++
    "\"tests/examples.json\":\"0d00034df95fda29b53bdc8ab600b84042157d56281b00f5a1067ae2aa25342b\"\x7d,".toList ++
    "\"name\":\"sort\",\"origin\":\x7b\"agent_id\":\"ada\",".toList ++
    "\"evidence_digest\":\"911169ddaaf146aff539f58c26c489af3b892dff0fe283c1c264c65ae5aa59a2\",".toList ++
    "\"source_digest\":\"aea8a04c2f293417e499bf5de2def8ebb1ed40264d128a67180ea56fbe4600ff\"\x7d,".toList ++
    "\"requirements\":[\"sort\"],\"schema_version\":1,\"version\":\"1.0.0\"\x7d\n".toList

def keptTree : List Char :=
  "\x7b\"SKILL.md\":\"85278e157948f0ef305b976ee356409896e226b0d33a277260f93d06d1a2a168\",".toList ++
    "\"manifest.json\":\"e9e4d8b35da339f1df1afb8625f2f76893c00e5bae6cda1e28c440da611de2f5\",".toList ++
    "\"tests/examples.json\":\"0d00034df95fda29b53bdc8ab600b84042157d56281b00f5a1067ae2aa25342b\"\x7d\n".toList

/-- SHA-256 on no bytes, and on the texts of the skill. -/
def keptSha : Bytes → List Char :=
  learned (learned (learned (learned (fun _ => "e3b0c44298fc1c149afbf4c8996fb92427ae41e4649b934ca495991b7852b855".toList)
    (skillDocument keptDraft) "85278e157948f0ef305b976ee356409896e226b0d33a277260f93d06d1a2a168")
    (canonicalText (examplesValue keptDraft.examples)) "0d00034df95fda29b53bdc8ab600b84042157d56281b00f5a1067ae2aa25342b")
    keptManifest "e9e4d8b35da339f1df1afb8625f2f76893c00e5bae6cda1e28c440da611de2f5")
    keptTree "7fb52f19857092a1ce84f16a49879c5f2e64ea07469ca8e1b70151dc8d712ed8"

theorem shaped_learned {sha : Bytes → List Char} {content : List Char} {digest : String} (h : ∀ b, digestShape (sha b) = true)
    (hdigest : digestShape digest.toList = true) (b : Bytes) : digestShape (learned sha content digest b) = true := by
  unfold learned
  split
  · exact hdigest
  · exact h b

theorem keptSha_shaped : ∀ b, digestShape (keptSha b) = true :=
  shaped_learned (shaped_learned (shaped_learned (shaped_learned (fun _ => by decide +kernel) (by decide +kernel))
    (by decide +kernel)) (by decide +kernel)) (by decide +kernel)

theorem kept_heads : (skillDocument keptDraft).head? = some '-' ∧
    (canonicalText (examplesValue keptDraft.examples)).head? = some '[' ∧
    keptManifest.head? = some '\x7b' ∧ keptTree.head? = some '\x7b' := by decide +kernel

theorem ne_of_heads {s t : List Char} {c d : Char} (hs : s.head? = some c) (ht : t.head? = some d) (h : c ≠ d) : s ≠ t := by
  rintro rfl
  exact h (Option.some.inj (hs.symm.trans ht))

theorem keptSha_tree : keptSha (encodeUtf8 keptTree) =
    "7fb52f19857092a1ce84f16a49879c5f2e64ea07469ca8e1b70151dc8d712ed8".toList := by
  rw [keptSha, learned_same]

theorem keptSha_manifest : keptSha (encodeUtf8 keptManifest) =
    "e9e4d8b35da339f1df1afb8625f2f76893c00e5bae6cda1e28c440da611de2f5".toList := by
  have htree : keptManifest ≠ keptTree := by
    unfold keptManifest keptTree
    repeat rw [String.toList_ofList]
    decide
  rw [keptSha, learned_other htree, learned_same]

theorem keptSha_examples : keptSha (encodeUtf8 (canonicalText (examplesValue keptDraft.examples))) =
    "0d00034df95fda29b53bdc8ab600b84042157d56281b00f5a1067ae2aa25342b".toList := by
  obtain ⟨_, hexamples, hmanifest, htree⟩ := kept_heads
  rw [keptSha, learned_other (ne_of_heads hexamples htree (by decide)),
    learned_other (ne_of_heads hexamples hmanifest (by decide)), learned_same]

theorem keptSha_document : keptSha (encodeUtf8 (skillDocument keptDraft)) =
    "85278e157948f0ef305b976ee356409896e226b0d33a277260f93d06d1a2a168".toList := by
  obtain ⟨hdocument, hexamples, hmanifest, htree⟩ := kept_heads
  rw [keptSha, learned_other (ne_of_heads hdocument htree (by decide)),
    learned_other (ne_of_heads hdocument hmanifest (by decide)),
    learned_other (ne_of_heads hdocument hexamples (by decide)), learned_same]

theorem kept_sorted : sortedFiles (draftFiles keptDraft) =
    [(PyStr.ofText "SKILL.md", encodeUtf8 (skillDocument keptDraft)),
      (PyStr.ofText "tests/examples.json", encodeUtf8 (canonicalText (examplesValue keptDraft.examples)))] := rfl

/-- The files the draft compiles to. -/
def keptFiles : Files :=
  ⟨[(PyStr.ofText "SKILL.md", encodeUtf8 (skillDocument keptDraft)), (PyStr.ofText "manifest.json", encodeUtf8 keptManifest),
    (PyStr.ofText "tests/examples.json", encodeUtf8 (canonicalText (examplesValue keptDraft.examples)))], by decide +kernel⟩

theorem kept_hashes : contentHashes keptSha keptFiles =
    [(PyStr.ofText "SKILL.md", "85278e157948f0ef305b976ee356409896e226b0d33a277260f93d06d1a2a168".toList),
      (PyStr.ofText "tests/examples.json", "0d00034df95fda29b53bdc8ab600b84042157d56281b00f5a1067ae2aa25342b".toList)] := by
  have hsorted : (sortedFiles keptFiles).filter (fun file => file.1 ≠ PyStr.ofText "manifest.json") =
      [(PyStr.ofText "SKILL.md", encodeUtf8 (skillDocument keptDraft)),
        (PyStr.ofText "tests/examples.json", encodeUtf8 (canonicalText (examplesValue keptDraft.examples)))] := rfl
  unfold contentHashes
  rw [hsorted]
  simp only [List.map_cons, List.map_nil, keptSha_document, keptSha_examples]

theorem kept_digest : treeDigest keptSha keptFiles = "7fb52f19857092a1ce84f16a49879c5f2e64ea07469ca8e1b70151dc8d712ed8".toList := by
  have hsorted : sortedFiles keptFiles = keptFiles.entries := rfl
  have htree : canonicalText (.obj [(PyStr.ofText "SKILL.md",
        strOf "85278e157948f0ef305b976ee356409896e226b0d33a277260f93d06d1a2a168".toList),
      (PyStr.ofText "manifest.json", strOf "e9e4d8b35da339f1df1afb8625f2f76893c00e5bae6cda1e28c440da611de2f5".toList),
      (PyStr.ofText "tests/examples.json",
        strOf "0d00034df95fda29b53bdc8ab600b84042157d56281b00f5a1067ae2aa25342b".toList)]) = keptTree := by
    unfold keptTree
    repeat rw [String.toList_ofList]
    decide +kernel
  unfold treeDigest canonical
  rw [hsorted]
  unfold keptFiles
  simp only [List.map_cons, List.map_nil, keptSha_document, keptSha_examples, keptSha_manifest, htree, keptSha_tree]

/-- A manifest says what a draft says, and goes with the document. -/
def Manifest.describes (d : Draft) (hashes : List (PyStr × List Char)) (document : List Char) (m : Manifest) : Bool :=
  m.name = d.name && m.version = d.version && m.requirements = d.requirements && m.agentId = d.agentId &&
    sameHashes m.contentHashes hashes && checkDocument m document = .ok ()

theorem kept_checked : checkFiles keptFiles = .ok () := by
  -- The lines of the document are literals; their characters are read off, not decoded.
  have hdocument : (encodeUtf8 (skillDocument keptDraft)).length = 818 ∧
      text maxFileBytes true (strOf (skillDocument keptDraft)) = .ok (skillDocument keptDraft) := by
    unfold skillDocument skillLines sectionLines safetyLines compatibilityText keptDraft
    simp only [List.map_cons, List.map_nil, -String.reduceToList]
    repeat rw [String.toList_ofList]
    decide +kernel
  have hmanifest : (encodeUtf8 keptManifest).length = 459 ∧ text maxFileBytes true (strOf keptManifest) = .ok keptManifest := by
    unfold keptManifest
    repeat rw [String.toList_ofList]
    decide +kernel
  have hexamples : (encodeUtf8 (canonicalText (examplesValue keptDraft.examples))).length = 72 ∧
      text maxFileBytes true (strOf (canonicalText (examplesValue keptDraft.examples))) =
        .ok (canonicalText (examplesValue keptDraft.examples)) := by decide +kernel
  have hfiles : keptFiles.entries.foldlM checkFile ([], 0) =
      .ok (["skill.md".toList, "manifest.json".toList, "tests/examples.json".toList], 1349) := by
    unfold keptFiles
    dsimp only
    rw [List.foldlM_cons, checkFile_text (p := "SKILL.md".toList) hdocument (by decide +kernel) (by decide) (by decide)
      (by decide), ok_bind, List.foldlM_cons, checkFile_text (p := "manifest.json".toList) hmanifest (by decide +kernel)
      (by decide) (by decide) (by decide), ok_bind, List.foldlM_cons, checkFile_text (p := "tests/examples.json".toList)
      hexamples (by decide +kernel) (by decide) (by decide) (by decide), ok_bind, List.foldlM_nil]
    decide +kernel
  unfold checkFiles
  rw [if_neg (by decide), hfiles, ok_bind]
  decide +kernel

theorem kept_files : inOrder (compiledFiles keptSha keptDraft) = keptFiles := by
  have htext : canonicalText (manifestValue keptSha keptDraft (draftFiles keptDraft)) = keptManifest := by
    unfold manifestValue
    rw [kept_sorted]
    simp only [List.map_cons, List.map_nil, keptSha_document, keptSha_examples, -String.reduceToList]
    unfold keptManifest
    repeat rw [String.toList_ofList]
    decide +kernel
  have hcanonical : canonical (manifestValue keptSha keptDraft (draftFiles keptDraft)) = encodeUtf8 keptManifest :=
    congrArg encodeUtf8 htext
  unfold compiledFiles
  rw [hcanonical]
  rfl

theorem kept_manifest : ∃ m, parseBytes (encodeUtf8 keptManifest) >>= readManifest = .ok m ∧ m.name = keptDraft.name ∧
    m.version = keptDraft.version ∧ m.requirements = keptDraft.requirements ∧ m.agentId = keptDraft.agentId ∧
    sameHashes m.contentHashes (contentHashes keptSha keptFiles) = true ∧
    checkDocument m (skillDocument keptDraft) = .ok () := by
  have hread : (parseBytes (encodeUtf8 keptManifest) >>= readManifest).toOption.any
      (Manifest.describes keptDraft (contentHashes keptSha keptFiles) (skillDocument keptDraft)) = true := by
    rw [kept_hashes, parseBytes_encoded]
    unfold keptManifest skillDocument skillLines sectionLines safetyLines compatibilityText keptDraft
    simp only [List.map_cons, List.map_nil, -String.reduceToList]
    repeat rw [String.toList_ofList]
    decide +kernel
  cases hm : parseBytes (encodeUtf8 keptManifest) >>= readManifest with
  | error e =>
    rw [hm] at hread
    cases hread
  | ok m =>
    rw [hm] at hread
    rw [Except.toOption, Option.any_some] at hread
    unfold Manifest.describes at hread
    simp only [Bool.and_eq_true, decide_eq_true_eq, and_assoc] at hread
    exact ⟨m, rfl, hread⟩

theorem kept_verified : verifyPackage keptSha keptFiles none =
    .ok "7fb52f19857092a1ce84f16a49879c5f2e64ea07469ca8e1b70151dc8d712ed8".toList := by
  have hskill : fileAt "SKILL.md" keptFiles = .ok (encodeUtf8 (skillDocument keptDraft)) := rfl
  have hmanifest : fileAt "manifest.json" keptFiles = .ok (encodeUtf8 keptManifest) := rfl
  have hexamples : fileAt "tests/examples.json" keptFiles =
      .ok (encodeUtf8 (canonicalText (examplesValue keptDraft.examples))) := rfl
  obtain ⟨m, hm, _, _, _, _, hhashes, hdocument⟩ := kept_manifest
  unfold verifyPackage
  rw [kept_checked, ok_bind, hskill, ok_bind, hmanifest, ok_bind, hexamples, ok_bind, hm, ok_bind, hhashes,
    if_neg (by decide)]
  unfold decoded
  rw [decodeUtf8_encodeUtf8, Option.getD_some, hdocument, ok_bind, kept_digest]

theorem makePackage_ok {name version : List Char} {requirements : List (List Char)} {originId : List Char} {files : Files}
    {sha : Bytes → List Char} (h : checkPackage sha name version requirements originId files = .ok ()) :
    makePackage sha name version requirements originId files = .ok ⟨name, version, requirements, originId, files, h⟩ := by
  unfold makePackage
  split
  · rfl
  · next e he =>
    rw [h] at he
    cases he

/-- The draft compiles, to a package of its digest. -/
theorem kept_compiles : ∃ p, compileDraft keptSha keptValue = .ok p ∧
    p.digest = .ok "7fb52f19857092a1ce84f16a49879c5f2e64ea07469ca8e1b70151dc8d712ed8".toList := by
  have hperm : keptFiles.entries.Perm (compiledFiles keptSha keptDraft).entries := by
    rw [← kept_files]
    exact List.perm_insertionSort _ (compiledFiles keptSha keptDraft).entries
  have hmanifest : fileAt "manifest.json" keptFiles = .ok (encodeUtf8 keptManifest) := rfl
  obtain ⟨m, hm, hname, hversion, hrequirements, hagent, _⟩ := kept_manifest
  have hpackage : checkPackage keptSha keptDraft.name keptDraft.version keptDraft.requirements keptDraft.agentId keptFiles = .ok () := by
    unfold checkPackage
    rw [kept_verified, ok_bind, hmanifest, ok_bind, hm, ok_bind, hname, hversion, hrequirements, hagent]
    exact if_neg (by simp)
  refine ⟨⟨_, _, _, _, keptFiles, hpackage⟩, ?_, kept_verified⟩
  unfold compileDraft packageOf
  rw [kept_read, ok_bind, verifyPackage_perm hperm kept_verified, ok_bind, kept_files]
  exact makePackage_ok hpackage

end LilTweak.SkillForge
