import LilTweak.Evidence.Declared
import Mathlib

/-!
# The text of a patch

A patch is the printed lines of the changed files, one file after the other. Where no changed name
holds a line break, it falls back into exactly these lines.
-/

namespace LilTweak.Evidence

open LilTweak.Lib LilTweak.Sources

/-! ## One file -/

/-- The line of a header that names a side of a change. -/
def nameHeader (mark side name : String) (data : Option Bytes) : Text := mark.toList ++ headerName side name data

/-- The lines of a file, as they are read back. -/
def fileLines (name : String) (before after : Option Bytes) (s t : Text) : List Text :=
  if groupsOf s t = [] then []
  else nameHeader "--- " "a/" name before :: nameHeader "+++ " "b/" name after :: bodyLines s t (groupsOf s t)

/-- No line of `str.splitlines` ends inside the name. -/
def Unbroken (name : String) : Prop := ∀ c ∈ name.toList, lineBreak c = false

section
variable {s t : Text}

theorem pieces_plain {line : Text} (h : '\x00' ∉ line) : pieces line = [line] := if_neg h

theorem headerName_unbroken {side name : String} (hside : Unbroken side) (hname : Unbroken name)
    (data : Option Bytes) : ∀ c ∈ headerName side name data, lineBreak c = false := by
  cases data with
  | none =>
    have hnull : ∀ c ∈ "/dev/null".toList, lineBreak c = false := List.all_iff_forall_prop.mp (by decide)
    exact hnull
  | some data =>
    intro c hc
    rcases List.mem_append.mp hc with h | h
    · exact hside c h
    · exact hname c h

theorem whole_nameHeader {mark side name : String} (hmark : Unbroken mark) (hne : mark.toList ≠ [])
    (hside : Unbroken side) (hname : Unbroken name) (data : Option Bytes) :
    Whole (nameHeader mark side name data ++ ['\n']) ∧
      chomp (nameHeader mark side name data ++ ['\n']) = nameHeader mark side name data := by
  have hclean : ∀ c ∈ nameHeader mark side name data, lineBreak c = false := by
    intro c hc
    rcases List.mem_append.mp hc with h | h
    · exact hmark c h
    · exact headerName_unbroken hside hname data c h
  have hsome : nameHeader mark side name data ≠ [] := List.append_ne_nil_of_left_ne_nil hne _
  exact ⟨whole_feed hsome hclean, chomp_feed hclean⟩

theorem nameHeader_nul {mark side name : String} (hmark : '\x00' ∉ mark.toList) (hside : '\x00' ∉ side.toList)
    (hname : '\x00' ∉ name.toList) (data : Option Bytes) :
    '\x00' ∉ nameHeader mark side name data ++ ['\n'] := by
  have hfeed : '\x00' ∉ ['\n'] := by decide
  have hnull : '\x00' ∉ "/dev/null".toList := by decide
  intro hm
  rcases List.mem_append.mp hm with hm | hm
  · rcases List.mem_append.mp hm with hm | hm
    · exact hmark hm
    · cases data with
      | none => exact hnull hm
      | some data =>
        rcases List.mem_append.mp hm with hm | hm
        · exact hside hm
        · exact hname hm
  · exact hfeed hm

/-- The printed lines of a hunk are whole, and are read back as its lines. -/
theorem printed_group (hs : '\x00' ∉ s) (ht : '\x00' ∉ t) {g : List Opcode} (hg : g ∈ groupsOf s t) :
    (∀ l ∈ (hunkHeader g :: g.flatMap (opcodeLines (patchLines s) (patchLines t))).flatMap pieces, Whole l) ∧
      ((hunkHeader g :: g.flatMap (opcodeLines (patchLines s) (patchLines t))).flatMap pieces).map chomp =
        chomp (hunkHeader g) :: hunkLines s t g := by
  have hlines : g.flatMap (opcodeLines (patchLines s) (patchLines t)) =
      (g.flatMap (opcodeMarks (patchLines s) (patchLines t))).map fun e => e.1.char :: e.2 := by
    rw [List.map_flatMap]
    exact List.flatMap_congr fun o _ => opcodeLines_eq _ _ o
  have hplain : pieces (hunkHeader g) = [hunkHeader g] := by
    apply pieces_plain
    rw [hunkHeader_eq (s := s) (t := t)]
    intro hm
    rcases mem_header hm with hd | hd <;> exact absurd hd (by decide)
  rw [List.flatMap_cons, hplain, hlines, List.flatMap_map]
  refine ⟨?_, ?_⟩
  · intro l hl
    rcases List.mem_cons.mp hl with rfl | hl
    · rw [hunkHeader_eq (s := s) (t := t)]
      exact (chomp_header _).2
    · obtain ⟨e, he, hpiece⟩ := List.mem_flatMap.mp hl
      exact ((shown_marks hg he).pieces hs ht).1 l hpiece
  · rw [List.singleton_append, List.map_cons, List.map_flatMap]
    rfl

theorem printed_groups (hs : '\x00' ∉ s) (ht : '\x00' ∉ t) (gs : List (List Opcode))
    (hgs : ∀ g ∈ gs, g ∈ groupsOf s t) :
    (∀ l ∈ (gs.flatMap fun g => hunkHeader g :: g.flatMap (opcodeLines (patchLines s) (patchLines t))).flatMap pieces,
      Whole l) ∧
      ((gs.flatMap fun g =>
        hunkHeader g :: g.flatMap (opcodeLines (patchLines s) (patchLines t))).flatMap pieces).map chomp =
        bodyLines s t gs := by
  induction gs with
  | nil => exact ⟨nofun, rfl⟩
  | cons g gs ih =>
    obtain ⟨hwhole, hchomp⟩ := printed_group hs ht (hgs g List.mem_cons_self)
    obtain ⟨hwhole', hchomp'⟩ := ih fun x hx => hgs x (List.mem_cons_of_mem _ hx)
    rw [List.flatMap_cons, List.flatMap_append, List.map_append, hchomp, hchomp']
    refine ⟨?_, rfl⟩
    intro l hl
    rcases List.mem_append.mp hl with h | h
    · exact hwhole l h
    · exact hwhole' l h

/-- The printed lines of a file are whole, and are read back as its lines. -/
theorem printed_file (hs : '\x00' ∉ s) (ht : '\x00' ∉ t) {name : String} (hnul : '\x00' ∉ name.toList)
    (hname : Unbroken name) (before after : Option Bytes) :
    (∀ l ∈ (unifiedDiff (patchLines s) (patchLines t) (headerName "a/" name before)
      (headerName "b/" name after)).flatMap pieces, Whole l) ∧
      ((unifiedDiff (patchLines s) (patchLines t) (headerName "a/" name before)
        (headerName "b/" name after)).flatMap pieces).map chomp = fileLines name before after s t := by
  obtain ⟨hwhole, hchomp⟩ := printed_groups hs ht (groupsOf s t) fun g hg => hg
  have hmark : Unbroken "--- " ∧ Unbroken "+++ " ∧ Unbroken "a/" ∧ Unbroken "b/" :=
    ⟨List.all_iff_forall_prop.mp (by decide), List.all_iff_forall_prop.mp (by decide),
      List.all_iff_forall_prop.mp (by decide), List.all_iff_forall_prop.mp (by decide)⟩
  have hold := whole_nameHeader hmark.1 (by decide) hmark.2.2.1 hname before
  have hnew := whole_nameHeader hmark.2.1 (by decide) hmark.2.2.2 hname after
  unfold unifiedDiff fileLines
  by_cases hnone : groupsOf s t = []
  · have hnone' : getGroupedOpcodes (patchLines s) (patchLines t) 3 = [] := hnone
    simp only [hnone']
    refine ⟨?_, rfl⟩
    intro l hl
    cases hl
  · have hsome : ¬getGroupedOpcodes (patchLines s) (patchLines t) 3 = [] := hnone
    have hpold : pieces (nameHeader "--- " "a/" name before ++ ['\n']) =
        [nameHeader "--- " "a/" name before ++ ['\n']] := pieces_plain (nameHeader_nul (by decide) (by decide) hnul _)
    have hpnew : pieces (nameHeader "+++ " "b/" name after ++ ['\n']) =
        [nameHeader "+++ " "b/" name after ++ ['\n']] := pieces_plain (nameHeader_nul (by decide) (by decide) hnul _)
    simp only [if_neg hsome]
    have hfront : (["--- ".toList ++ headerName "a/" name before ++ ['\n'],
        "+++ ".toList ++ headerName "b/" name after ++ ['\n']]).flatMap pieces =
          [nameHeader "--- " "a/" name before ++ ['\n'], nameHeader "+++ " "b/" name after ++ ['\n']] := by
      rw [List.flatMap_cons, List.flatMap_singleton]
      show pieces (nameHeader "--- " "a/" name before ++ ['\n']) ++
        pieces (nameHeader "+++ " "b/" name after ++ ['\n']) = _
      rw [hpold, hpnew]
      rfl
    rw [List.flatMap_append, hfront, List.map_append, hchomp]
    refine ⟨?_, ?_⟩
    · intro l hl
      rcases List.mem_append.mp hl with h | h
      · rcases List.mem_cons.mp h with rfl | h
        · exact hold.1
        · rw [List.mem_singleton.mp h]
          exact hnew.1
      · exact hwhole l h
    · rw [List.map_cons, List.map_singleton, hold.2, hnew.2]
      rfl

end

/-! ## The patch -/

/-- The text of a file of a snapshot, empty where there is none. -/
def WorkspaceSnapshot.text (s : WorkspaceSnapshot) (name : String) : Text :=
  (decodeUtf8 ((s.contents.get? name).getD [])).getD []

section
variable {sha256 : Sha256} {baseline final : WorkspaceSnapshot} {maxBytes : Int}

/-- The printed lines of a file of the patch. -/
def printedLines (baseline final : WorkspaceSnapshot) (name : String) : List Text :=
  (unifiedDiff (patchLines (baseline.text name)) (patchLines (final.text name))
    (headerName "a/" name (baseline.contents.get? name))
    (headerName "b/" name (final.contents.get? name))).flatMap pieces

/-- The texts of a file that the patch builder could print. -/
structure Printable (baseline final : WorkspaceSnapshot) (name : String) : Prop where
  changed : baseline.contents.get? name ≠ final.contents.get? name
  old : encodeUtf8 (baseline.text name) = (baseline.contents.get? name).getD []
  new : encodeUtf8 (final.text name) = (final.contents.get? name).getD []
  oldText : '\x00' ∉ baseline.text name
  newText : '\x00' ∉ final.text name

theorem flatMap_emitted (lines : List Text) : lines.flatMap emitted = encodeUtf8 (lines.flatMap pieces).flatten := by
  induction lines with
  | nil => rfl
  | cons line lines ih =>
    rw [List.flatMap_cons, List.flatMap_cons, List.flatten_append, encodeUtf8_append, ih, emitted_pieces]

theorem appendFile_printed (hS : Distinguishes sha256 (baseline.digested ++ final.digested))
    {encoded encoded' : Bytes} {name : String}
    (h : appendFile sha256 baseline final maxBytes encoded name = .ok encoded') :
    if snapshotIdentity sha256 (baseline.files.get? name) ≠ snapshotIdentity sha256 (final.files.get? name) then
      Printable baseline final name ∧ encoded' = encoded ++ encodeUtf8 (printedLines baseline final name).flatten
    else encoded' = encoded := by
  rcases appendFile_ok h with ⟨hid, rfl⟩ | ⟨hid, before, after, s, t, hb, ha, hs, ht, hns, hnt, rfl⟩
  · rw [if_neg (not_not.mpr hid)]
  · rw [if_pos hid]
    have hchange : baseline.contents.get? name ≠ final.contents.get? name := fun he =>
      hid ((snapshotIdentity_iff hS name).mpr he)
    obtain rfl := snapshotBytes_ok hS (List.subset_append_left _ _) hb
    obtain rfl := snapshotBytes_ok hS (List.subset_append_right _ _) ha
    have hs' : baseline.text name = s := by
      unfold WorkspaceSnapshot.text
      rw [← hs, decodeUtf8_encodeUtf8]
      rfl
    have ht' : final.text name = t := by
      unfold WorkspaceSnapshot.text
      rw [← ht, decodeUtf8_encodeUtf8]
      rfl
    subst hs' ht'
    exact ⟨⟨hchange, hs, ht, hns, hnt⟩, by rw [flatMap_emitted]; rfl⟩

theorem appendFiles_printed (hS : Distinguishes sha256 (baseline.digested ++ final.digested)) (names : List String)
    {encoded encoded' : Bytes} (h : names.foldlM (appendFile sha256 baseline final maxBytes) encoded = .ok encoded') :
    (∀ name ∈ names.filter fun name => snapshotIdentity sha256 (baseline.files.get? name) ≠
        snapshotIdentity sha256 (final.files.get? name), Printable baseline final name) ∧
      encoded' = encoded ++ encodeUtf8 ((names.filter fun name => snapshotIdentity sha256 (baseline.files.get? name) ≠
        snapshotIdentity sha256 (final.files.get? name)).flatMap (printedLines baseline final)).flatten := by
  induction names generalizing encoded with
  | nil =>
    rw [List.foldlM_nil] at h
    refine ⟨nofun, ?_⟩
    rw [← Except.ok.inj h]
    exact (List.append_nil _).symm
  | cons name names ih =>
    rw [List.foldlM_cons] at h
    cases hone : appendFile sha256 baseline final maxBytes encoded name with
    | error e =>
      rw [hone] at h
      cases h
    | ok next =>
      rw [hone] at h
      obtain ⟨hall, rfl⟩ := ih h
      have hfile := appendFile_printed hS hone
      by_cases hid : snapshotIdentity sha256 (baseline.files.get? name) ≠
          snapshotIdentity sha256 (final.files.get? name)
      · rw [if_pos hid] at hfile
        obtain ⟨hprint, rfl⟩ := hfile
        rw [List.filter_cons_of_pos (by simpa using hid)]
        refine ⟨?_, ?_⟩
        · intro x hx
          rcases List.mem_cons.mp hx with rfl | hx
          · exact hprint
          · exact hall x hx
        · rw [List.flatMap_cons, List.flatten_append, encodeUtf8_append, List.append_assoc]
      · rw [if_neg hid] at hfile
        subst hfile
        rw [List.filter_cons_of_neg (by simpa using hid)]
        exact ⟨hall, rfl⟩

/-- A patch is the printed lines of the changed files. -/
theorem patch_printed (hS : Distinguishes sha256 (baseline.digested ++ final.digested)) {patch : Bytes}
    (hbuild : buildWorkspacePatch sha256 baseline final maxBytes = .ok patch) {text : Text}
    (htext : decodeUtf8 patch = some text) :
    (∀ name ∈ workspaceChangedPaths sha256 baseline final, Printable baseline final name) ∧
      text = ((workspaceChangedPaths sha256 baseline final).flatMap (printedLines baseline final)).flatten := by
  unfold buildWorkspacePatch at hbuild
  split at hbuild
  · cases hbuild
  obtain ⟨hall, rfl⟩ := appendFiles_printed hS _ hbuild
  refine ⟨hall, ?_⟩
  rw [List.nil_append, decodeUtf8_encodeUtf8] at htext
  exact (Option.some.inj htext).symm

/-- The lines of a file of the patch, as they are read back. -/
def readLines (baseline final : WorkspaceSnapshot) (name : String) : List Text :=
  fileLines name (baseline.contents.get? name) (final.contents.get? name) (baseline.text name) (final.text name)

theorem printedLines_whole {name : String} (h : Printable baseline final name) (hname : Unbroken name) :
    (∀ l ∈ printedLines baseline final name, Whole l) ∧
      (printedLines baseline final name).map chomp = readLines baseline final name := by
  have hnul : '\x00' ∉ name.toList := fun hm => absurd (name_controlFree h.changed _ hm).1 (by decide)
  exact printed_file h.oldText h.newText hnul hname _ _

/-- Without line breaks in the names, the patch falls into the lines of its files. -/
theorem textLines_printed {names : List String} (hprint : ∀ name ∈ names, Printable baseline final name)
    (hnames : ∀ name ∈ names, Unbroken name) :
    textLines (names.flatMap (printedLines baseline final)).flatten = names.flatMap (readLines baseline final) := by
  unfold textLines
  have hwhole : ∀ l ∈ names.flatMap (printedLines baseline final), Whole l := by
    intro l hl
    obtain ⟨name, hname, hl⟩ := List.mem_flatMap.mp hl
    exact (printedLines_whole (hprint name hname) (hnames name hname)).1 l hl
  rw [splitlines_flatten hwhole, List.map_flatMap]
  exact List.flatMap_congr fun name hname => (printedLines_whole (hprint name hname) (hnames name hname)).2

end

end LilTweak.Evidence
