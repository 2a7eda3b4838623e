import LilTweak.Sources.Inspection
import Mathlib

/-!
# What an archive is extracted to

The second walk over the members never overwrites: a file is opened only where nothing stands, with
nothing but directories above it. So what it leaves in an empty directory are the files it has listed,
whatever the first walk let through.
-/

namespace LilTweak.Sources

open LilTweak.Lib

variable {F : CaseFolding} {divide : Int → Int → ℚ} {limits : ArchiveLimits}

/-- The files of some entries have been created, once each and in their order, and nothing else. -/
structure Exactly (entries : List ArchiveEntry) (s : Extraction) : Prop where
  order : s.extracted = (entries.filter fun e => !e.isDirectory).map fun e => pathParts e.path.toList
  once : s.extracted.Nodup
  files : ∀ q, s.tree.isFile q = true ↔ q ∈ s.extracted
  sizes : ∀ e ∈ entries, e.isDirectory = false →
    ∃ data, s.tree (pathParts e.path.toList) = some (.file data) ∧ (data.length : Int) = e.size
  below : ∀ q ∈ s.extracted, q ≠ []

theorem exactly_start : Exactly [] { tree := emptyDirectory } where
  order := rfl
  once := List.nodup_nil
  files q := by
    have hnone : FileTree.isFile emptyDirectory q = false := by
      unfold FileTree.isFile emptyDirectory
      split
      · next heq =>
        split at heq
        · cases heq
        · cases heq
      · rfl
    rw [hnone]
    exact iff_of_false Bool.false_ne_true List.not_mem_nil
  sizes e he := by cases he
  below q hq := by cases hq

theorem isFile_of_some {t : Destination} {q : List String} {data : Bytes} (h : t q = some (.file data)) :
    t.isFile q = true := by
  unfold FileTree.isFile
  rw [h]

theorem makeDirectories_some {t t' : Destination} {path : List String} (h : makeDirectories t path = some t') :
    (∀ q, q <+: path → t.isFile q = false) ∧ t' = fun q => if q <+: path then some .dir else t q := by
  unfold makeDirectories at h
  split at h
  · cases h
  · next hclear =>
    refine ⟨fun q hq => ?_, (Option.some.inj h).symm⟩
    rw [List.any_eq_true, not_exists] at hclear
    exact eq_false_of_ne_true fun hfile => hclear q ⟨(List.mem_inits q path).mpr hq, hfile⟩

theorem create_some {t t' : Destination} {path : List String} {data : Bytes} (h : t.create path data = some t') :
    t path = none ∧ (∀ q, q <+: path → t.isFile q = false) ∧
      t' = fun q => if q = path then some (.file data) else if q <+: path then some .dir else t q := by
  unfold FileTree.create at h
  split at h
  · cases h
  · next hclear =>
    rw [not_or, Bool.not_eq_true, Option.isSome_eq_false_iff, Option.isNone_iff_eq_none, List.any_eq_true,
      not_exists] at hclear
    refine ⟨hclear.1, fun q hq => ?_, (Option.some.inj h).symm⟩
    exact eq_false_of_ne_true fun hfile => hclear.2 q ⟨(List.mem_inits q path).mpr hq, hfile⟩

/-- Making directories leaves the files as they are. -/
theorem Exactly.directories {entries : List ArchiveEntry} {s : Extraction} {e : ArchiveEntry} {tree : Destination}
    (h : Exactly entries s) (hdir : e.isDirectory = true)
    (hmake : makeDirectories s.tree (pathParts e.path.toList) = some tree) :
    Exactly (entries ++ [e]) { s with tree } := by
  obtain ⟨hclear, rfl⟩ := makeDirectories_some hmake
  constructor
  · show s.extracted = _
    rw [h.order, List.filter_append, List.filter_cons_of_neg (by rw [hdir]; decide), List.filter_nil, List.append_nil]
  · exact h.once
  · intro q
    rw [← h.files q]
    unfold FileTree.isFile
    dsimp only
    by_cases hq : q <+: pathParts e.path.toList
    · have hold := hclear q hq
      unfold FileTree.isFile at hold
      rw [if_pos hq, hold]
    · rw [if_neg hq]
  · intro f hf hfile
    rcases List.mem_append.mp hf with hold | hlast
    · obtain ⟨data, hdata, hsize⟩ := h.sizes f hold hfile
      refine ⟨data, ?_, hsize⟩
      have hnot : ¬pathParts f.path.toList <+: pathParts e.path.toList := by
        intro hbegins
        have hclearf := hclear _ hbegins
        rw [isFile_of_some hdata] at hclearf
        cases hclearf
      exact (if_neg hnot).trans hdata
    · rw [List.mem_singleton.mp hlast, hdir] at hfile
      cases hfile
  · exact h.below

/-- A file created with its declared size is one more. -/
theorem Exactly.file {entries : List ArchiveEntry} {s : Extraction} {e : ArchiveEntry} {tree : Destination} {data : Bytes}
    (h : Exactly entries s) (hfile : e.isDirectory = false) (hne : pathParts e.path.toList ≠ [])
    (hcreate : s.tree.create (pathParts e.path.toList) data = some tree) (hsize : (data.length : Int) = e.size) :
    Exactly (entries ++ [e]) { tree, extracted := s.extracted ++ [pathParts e.path.toList] } := by
  obtain ⟨hvacant, hclear, rfl⟩ := create_some hcreate
  have hnew : pathParts e.path.toList ∉ s.extracted := by
    intro hmem
    have hold := (h.files _).mpr hmem
    rw [hclear _ (List.prefix_refl _)] at hold
    cases hold
  constructor
  · show s.extracted ++ _ = _
    rw [h.order, List.filter_append, List.filter_cons_of_pos (by rw [hfile]; rfl), List.filter_nil, List.map_append]
    rfl
  · refine List.nodup_append.mpr ⟨h.once, List.nodup_singleton _, ?_⟩
    intro a ha b hb
    rw [List.mem_singleton.mp hb]
    exact fun heq => hnew (heq ▸ ha)
  · intro q
    rw [List.mem_append, List.mem_singleton, ← h.files q]
    unfold FileTree.isFile
    dsimp only
    by_cases hself : q = pathParts e.path.toList
    · rw [if_pos hself]
      exact iff_of_true rfl (Or.inr hself)
    rw [if_neg hself]
    by_cases hq : q <+: pathParts e.path.toList
    · have hold := hclear q hq
      unfold FileTree.isFile at hold
      rw [if_pos hq, hold]
      exact iff_of_false Bool.false_ne_true fun hor => hor.elim Bool.false_ne_true hself
    · rw [if_neg hq]
      exact ⟨Or.inl, fun hor => hor.elim id fun heq => absurd heq hself⟩
  · intro f hf hffile
    rcases List.mem_append.mp hf with hold | hlast
    · obtain ⟨found, hfound, hfsize⟩ := h.sizes f hold hffile
      refine ⟨found, ?_, hfsize⟩
      have hnot : ¬pathParts f.path.toList <+: pathParts e.path.toList := by
        intro hbegins
        have hclearf := hclear _ hbegins
        rw [isFile_of_some hfound] at hclearf
        cases hclearf
      have hself : pathParts f.path.toList ≠ pathParts e.path.toList := fun heq => hnot (heq ▸ List.prefix_refl _)
      exact (if_neg hself).trans ((if_neg hnot).trans hfound)
    · rw [List.mem_singleton.mp hlast]
      exact ⟨data, if_pos rfl, hsize⟩
  · intro q hq
    rcases List.mem_append.mp hq with hold | hlast
    · exact h.below q hold
    · rw [List.mem_singleton.mp hlast]
      exact hne

/-- One member. -/
theorem Exactly.member {entries : List ArchiveEntry} {s s' : Extraction} {m : Member × ArchiveEntry}
    (h : Exactly entries s) (hstep : extractMember s m = .ok s') : Exactly (entries ++ [m.2]) s' := by
  unfold extractMember at hstep
  dsimp only at hstep
  split at hstep
  · cases hstep
  next hne =>
  split at hstep
  · next hdir =>
    split at hstep
    · cases hstep
    · next tree hmake =>
      obtain rfl := Except.ok.inj hstep
      exact h.directories hdir hmake
  next hfile =>
  split at hstep
  · cases hstep
  next data hcontent =>
  split at hstep
  · cases hstep
  next tree hcreate =>
  split at hstep
  · cases hstep
  · next hsize =>
    obtain rfl := Except.ok.inj hstep
    exact h.file (eq_false_of_ne_true hfile) hne hcreate (not_not.mp hsize)

theorem Exactly.run {entries : List ArchiveEntry} {pairs : List (Member × ArchiveEntry)} {s s' : Extraction}
    (h : Exactly entries s) (hrun : pairs.foldlM extractMember s = .ok s') : Exactly (entries ++ pairs.map Prod.snd) s' := by
  induction pairs generalizing entries s with
  | nil =>
    obtain rfl := Except.ok.inj hrun
    rwa [List.map_nil, List.append_nil]
  | cons pair pairs ih =>
    rw [List.foldlM_cons] at hrun
    cases hstep : extractMember s pair with
    | error fault =>
      rw [hstep] at hrun
      cases hrun
    | ok next =>
      rw [hstep] at hrun
      rw [List.map_cons, List.append_cons]
      exact ih (h.member hstep) hrun

/-! ## Accepted archives -/

/-- What an accepted archive is held to. -/
structure Safe (F : CaseFolding) (divide : Int → Int → ℚ) (limits : ArchiveLimits) (infos : List ZipInfo)
    (entries : List ArchiveEntry) : Prop where
  distinct : (entries.map fun e => F.casefold e.path).Nodup
  clear : ∀ e ∈ entries, ∀ f ∈ entries, e.isDirectory = false → ¬ProperAncestor F e f
  count : (entries.length : Int) ≤ limits.maxEntries
  depth : ∀ e ∈ entries, ((pathParts e.path.toList).length : Int) ≤ limits.maxDepth
  fileBytes : ∀ e ∈ entries, 0 ≤ e.size ∧ e.size ≤ limits.maxFileBytes
  totalBytes : (entries.map ArchiveEntry.size).sum ≤ limits.maxTotalBytes
  ratio : ∀ info ∈ infos, info.fileSize ≠ 0 →
    info.compressSize ≠ 0 ∧ divide info.fileSize info.compressSize ≤ limits.maxCompressionRatio
  extraction : ∀ (members : List Member) (s : Extraction), members.map Member.info = infos →
    extractZip F divide limits members emptyDirectory = .ok s →
    Exactly entries s ∧ ∀ q ∈ s.extracted, ".." ∉ q

/-- A member that is a file stands for the root. -/
def RootFile (infos : List ZipInfo) : Prop := ∃ info ∈ infos, info.rooted = true ∧ info.isDirectory = false

theorem Inspected.folded_nil_iff {info : ZipInfo} {e : ArchiveEntry} (h : Inspected F divide limits info e) :
    e.folded F = [] ↔ info.rooted = true := by
  rw [ArchiveEntry.folded, List.map_eq_nil_iff, h.parts, ZipInfo.rooted, List.isEmpty_iff]

/-- What is extracted are the file entries, inside the destination. -/
theorem extractZip_exactly {members : List Member} {entries : List ArchiveEntry} {s : Extraction}
    (h : inspectZip F divide limits (members.map Member.info) = .ok entries)
    (hextract : extractZip F divide limits members emptyDirectory = .ok s) :
    Exactly entries s ∧ ∀ q ∈ s.extracted, ".." ∉ q := by
  obtain ⟨-, inspection, hentries, hsound⟩ := inspectZip_ok h
  unfold extractZip at hextract
  rw [h] at hextract
  have hrun := exactly_start.run hextract
  have hlength : entries.length ≤ members.length := by
    have hsame := hsound.inspected.length_eq
    rw [List.length_map, hentries] at hsame
    omega
  rw [List.nil_append, List.map_snd_zip hlength] at hrun
  refine ⟨hrun, ?_⟩
  intro q hq
  rw [hrun.order] at hq
  obtain ⟨e, he, rfl⟩ := List.mem_map.mp hq
  obtain ⟨info, -, hinspected⟩ := hsound.source (hentries ▸ List.mem_of_mem_filter he)
  rw [hinspected.parts]
  exact hinspected.inside

/-- An accepted archive is safe exactly when no file in it stands for the root beside another member. -/
theorem inspected_safe_iff {infos : List ZipInfo} {entries : List ArchiveEntry}
    (h : inspectZip F divide limits infos = .ok entries) :
    Safe F divide limits infos entries ↔ ¬(RootFile infos ∧ 2 ≤ infos.length) := by
  obtain ⟨hcount, inspection, rfl, hsound⟩ := inspectZip_ok h
  have hlength := hsound.inspected.length_eq
  constructor
  · intro hsafe hroot
    obtain ⟨⟨info, hinfo, hrooted, hfile⟩, hmany⟩ := hroot
    obtain ⟨i, hi, rfl⟩ := List.mem_iff_getElem.mp hinfo
    have hinspected := hsound.inspected.get hi (by omega)
    obtain ⟨j, hj, hne⟩ : ∃ j, j < inspection.entries.length ∧ j ≠ i := by
      by_cases hzero : i = 0
      · exact ⟨1, by omega, by omega⟩
      · exact ⟨0, by omega, fun heq => hzero heq.symm⟩
    have hother := hsound.inspected.get (show j < infos.length by omega) hj
    have hnil : (inspection.entries.get ⟨i, by omega⟩).folded F = [] := hinspected.folded_nil_iff.mpr hrooted
    refine hsafe.clear _ (List.get_mem _ _) _ (List.get_mem _ ⟨j, hj⟩) (hinspected.directory.trans hfile) ⟨?_, ?_⟩
    · rw [hnil]
      exact List.nil_prefix
    · -- two members that stand for the root have one path
      intro hsame
      have hrooted' : (infos.get ⟨j, by omega⟩).rooted = true := hother.folded_nil_iff.mp (hsame ▸ hnil)
      have hpath : ∀ info : ZipInfo, info.rooted = true → asPosix (components info.filename) = "." := by
        intro info hinfo
        rw [List.isEmpty_iff.mp hinfo]
        rfl
      have hpaths : (inspection.entries.get ⟨i, by omega⟩).path = (inspection.entries.get ⟨j, hj⟩).path := by
        rw [hinspected.path, hother.path]
        exact (hpath _ hrooted).trans (hpath _ hrooted').symm
      have hi' : i < (inspection.entries.map fun e => F.casefold e.path).length := by rw [List.length_map]; omega
      have hj' : j < (inspection.entries.map fun e => F.casefold e.path).length := by rw [List.length_map]; omega
      have hindex := (@List.Nodup.getElem_inj_iff _ _ hsafe.distinct i hi' j hj').mp (by
        rw [List.getElem_map, List.getElem_map]
        exact congrArg F.casefold hpaths)
      exact hne hindex.symm
  · intro hcond
    refine ⟨hsound.distinct, ?_, by omega, ?_, ?_, ?_, ?_, ?_⟩
    · intro e he f hf hfile habove
      by_cases hnil : e.folded F = []
      · obtain ⟨info, hinfo, hinspected⟩ := hsound.source he
        have hroot : RootFile infos := ⟨info, hinfo, hinspected.folded_nil_iff.mp hnil, hinspected.directory.symm.trans hfile⟩
        have hsingle : inspection.entries.length ≤ 1 := by
          by_contra hmany
          exact hcond ⟨hroot, by omega⟩
        have hsame : e = f := by
          obtain ⟨i, hi, rfl⟩ := List.mem_iff_getElem.mp he
          obtain ⟨j, hj, rfl⟩ := List.mem_iff_getElem.mp hf
          congr 1
          omega
        rw [hsame] at habove
        exact habove.2 rfl
      · exact hsound.clear e he f hf hfile hnil habove
    · intro e he
      obtain ⟨info, -, hinspected⟩ := hsound.source he
      rw [hinspected.parts]
      exact hinspected.shallow
    · intro e he
      obtain ⟨info, -, hinspected⟩ := hsound.source he
      exact ⟨hinspected.nonneg, hinspected.small⟩
    · rw [← hsound.total]
      exact hsound.within
    · intro info hinfo
      obtain ⟨i, hi, rfl⟩ := List.mem_iff_getElem.mp hinfo
      exact (hsound.inspected.get hi (by omega)).ratio
    · intro members s hmembers hextract
      exact extractZip_exactly (hmembers ▸ h) hextract

/-! ## Dots -/

/-- ASCII letters are folded to lower case. -/
def asciiFolding : CaseFolding where
  fold c := if c.isUpper then [Char.ofNat (c.toNat + 32)] else [c]
  slash := rfl
  other c hc := by
    split
    · next hupper =>
      have hrange : 65 ≤ c.toNat ∧ c.toNat ≤ 90 := by
        simpa [Char.isUpper, UInt32.le_iff_toNat_le] using hupper
      refine ⟨List.cons_ne_nil _ _, ?_⟩
      rw [List.mem_singleton]
      intro hslash
      have hcode : (Char.ofNat (c.toNat + 32)).toNat = c.toNat + 32 := by
        rw [Char.toNat_ofNat, if_pos (Or.inl (by omega))]
      rw [← hslash] at hcode
      have hvalue : ('/' : Char).toNat = 47 := rfl
      omega
    · refine ⟨List.cons_ne_nil _ _, ?_⟩
      rw [List.mem_singleton]
      exact fun hslash => hc hslash.symm

/-- A member with a name and some bytes. -/
def storedFile (filename : String) (size : Int) : ZipInfo :=
  { filename, flagBits := 0, externalAttr := 0, fileSize := size, compressSize := size }

/-- An archive with a directory and a file in it. -/
def tidyArchive : List ZipInfo := [storedFile "src/" 0, storedFile "src/Main.py" 3]

/-- The entries of an archive, where it is accepted. -/
def accepted (infos : List ZipInfo) : Option (List ArchiveEntry) :=
  match inspectZip asciiFolding (fun n d => n / d) {} infos with
  | .ok entries => some entries
  | .error _ => none

theorem inspectZip_of_accepted {infos : List ZipInfo} {entries : List ArchiveEntry} (h : accepted infos = some entries) :
    inspectZip asciiFolding (fun n d => n / d) {} infos = .ok entries := by
  unfold accepted at h
  split at h
  · next hrun => exact hrun.trans (congrArg Except.ok (Option.some.inj h))
  · cases h

theorem inspected_safe_tidy : ∃ entries, inspectZip asciiFolding (fun n d => n / d) {} tidyArchive = .ok entries ∧
    entries.map ArchiveEntry.path = ["src", "src/Main.py"] ∧ Safe asciiFolding (fun n d => n / d) {} tidyArchive entries := by
  have hpaths : (accepted tidyArchive).map (List.map ArchiveEntry.path) = some ["src", "src/Main.py"] := by decide +kernel
  obtain ⟨entries, hentries, hnames⟩ := Option.map_eq_some_iff.mp hpaths
  have hrun := inspectZip_of_accepted hentries
  refine ⟨entries, hrun, hnames, (inspected_safe_iff hrun).mpr ?_⟩
  intro hroot
  obtain ⟨⟨info, hinfo, hrooted, -⟩, -⟩ := hroot
  have hnone : tidyArchive.all (fun info => !info.rooted) = true := by decide +kernel
  have hinfo' := List.all_eq_true.mp hnone info hinfo
  rw [hrooted] at hinfo'
  cases hinfo'

/-- A file named by a dot is accepted beside another file, and stands above it. -/
theorem dot_file_accepted : ¬∀ (F : CaseFolding) (divide : Int → Int → ℚ) (limits : ArchiveLimits) (infos : List ZipInfo)
    (entries : List ArchiveEntry), inspectZip F divide limits infos = .ok entries → Safe F divide limits infos entries := by
  intro h
  obtain ⟨entries, hentries⟩ := Option.isSome_iff_exists.mp
    (show (accepted [storedFile "." 3, storedFile "a" 3]).isSome = true by decide +kernel)
  have hrun := inspectZip_of_accepted hentries
  have hsafe := h _ _ _ _ _ hrun
  obtain ⟨-, inspection, hinspection, hsound⟩ := inspectZip_ok hrun
  have hpaths : (accepted [storedFile "." 3, storedFile "a" 3]).map (List.map ArchiveEntry.path) = some [".", "a"] := by
    decide +kernel
  rw [hentries, Option.map_some, Option.some.injEq] at hpaths
  obtain ⟨e, rest, rfl⟩ := List.exists_cons_of_ne_nil (show entries ≠ [] by
    intro hnil
    rw [hnil] at hpaths
    cases hpaths)
  obtain ⟨he, hrest⟩ := List.cons.inj hpaths
  obtain ⟨f, more, rfl⟩ := List.exists_cons_of_ne_nil (show rest ≠ [] by
    intro hnil
    rw [hnil] at hrest
    cases hrest)
  obtain ⟨hf, -⟩ := List.cons.inj hrest
  have hfile : e.isDirectory = false := by
    have hfirst := hsound.inspected
    rw [hinspection] at hfirst
    obtain ⟨hinspected, -⟩ := List.forall₂_cons.mp hfirst
    exact hinspected.directory.trans (by decide +kernel)
  refine hsafe.clear e List.mem_cons_self f (List.mem_cons_of_mem _ List.mem_cons_self) hfile ⟨?_, ?_⟩
  · rw [ArchiveEntry.folded, he]
    exact List.nil_prefix
  · rw [ArchiveEntry.folded, ArchiveEntry.folded, he, hf]
    decide +kernel

end LilTweak.Sources
