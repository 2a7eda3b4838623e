import LilTweak.Evidence.Paths
import Mathlib

/-!
# When the readers agree

Both readers return the changed paths exactly when every changed file prints a hunk, the changed
names read back as they are and fold apart, and no deleted line passes for a header.
-/

namespace LilTweak.Evidence

open LilTweak.Lib LilTweak.Sources

/-! ## The runner's reader on a patch -/

section
variable {sha256 : Sha256} {casefold : String → String} {baseline final : WorkspaceSnapshot} {maxBytes : Int}

theorem hunkLines_no_git {name : String} (hs : '\x00' ∉ baseline.text name) (ht : '\x00' ∉ final.text name) {g : List Opcode}
    (hg : g ∈ groupsOf (baseline.text name) (final.text name)) :
    ∀ line ∈ hunkLines (baseline.text name) (final.text name) g, startsWith "diff --git a/" line = false := by
  intro line hline
  obtain ⟨e, he, hline⟩ := List.mem_flatMap.mp hline
  have hmark : ∀ body, startsWith "diff --git a/" (e.1.char :: body) = false := by
    intro body
    cases e.1 <;> rfl
  have hnote : startsWith "diff --git a/" (chomp noNewline) = false := by decide
  obtain ⟨-, body, hbody⟩ := (shown_marks hg he).pieces hs ht
  rcases hbody with hbody | hbody
  · rw [hbody, List.mem_singleton] at hline
    rw [hline]
    exact hmark body
  · rw [hbody] at hline
    rcases List.mem_cons.mp hline with rfl | hline
    · exact hmark body
    · rw [List.mem_singleton.mp hline]
      exact hnote

theorem readLines_no_git {name : String} (h : Printable baseline final name) :
    ∀ line ∈ readLines baseline final name, startsWith "diff --git a/" line = false := by
  intro line hline
  by_cases hshow : Shows baseline final name
  · rw [readLines_shown hshow] at hline
    rcases List.mem_cons.mp hline with rfl | hline
    · exact startsWith_other (startsWith_append "--- " _) fun _ => rfl
    · rcases List.mem_cons.mp hline with rfl | hline
      · exact startsWith_other (startsWith_append "+++ " _) fun _ => rfl
      · obtain ⟨g, hg, hline⟩ := List.mem_flatMap.mp hline
        rcases List.mem_cons.mp hline with rfl | hline
        · exact startsWith_other (hunkHeader_starts [] [] g) fun _ => rfl
        · exact hunkLines_no_git h.oldText h.newText hg line hline
  · rw [readLines_hidden hshow] at hline
    cases hline

theorem nameHeader_minus (name : String) (data : Option Bytes) :
    startsWith "--- " (nameHeader "--- " "a/" name data) = true := startsWith_append _ _

theorem nameHeader_plus (name : String) (data : Option Bytes) :
    startsWith "+++ " (nameHeader "+++ " "b/" name data) = true := startsWith_append _ _

/-- The names of a file are one header. -/
theorem names_headers {name : String} {before after : Option Bytes} (h : before ≠ none ∨ after ≠ none)
    (hrun : runnerPath name.toList = true) :
    Takes [nameHeader "--- " "a/" name before, nameHeader "+++ " "b/" name after] ∧
      ∀ path, Selected [nameHeader "--- " "a/" name before, nameHeader "+++ " "b/" name after] path ↔
        path = name.toList := by
  have hno : startsWith "--- " (nameHeader "+++ " "b/" name after) = false :=
    startsWith_other (nameHeader_plus name after) fun _ => rfl
  have hpath : selectedPath (nameHeader "--- " "a/" name before) (nameHeader "+++ " "b/" name after) =
      name.toList := selectedPath_header h
  have hplus := nameHeader_plus name after
  have hminus := nameHeader_minus name before
  revert hno hpath hplus hminus
  generalize nameHeader "--- " "a/" name before = old
  generalize nameHeader "+++ " "b/" name after = new
  intro hno hpath hplus hminus
  have hat : ∀ line next, HeaderAt [old, new] line next → line = old ∧ next = some new := by
    intro line next hat
    rcases headerAt_cons.mp hat with ⟨rfl, -, hnext⟩ | hat
    · exact ⟨rfl, hnext.symm⟩
    · rcases headerAt_cons.mp hat with ⟨rfl, hs, -⟩ | hat
      · rw [hno] at hs
        cases hs
      · exact absurd hat headerAt_nil
  have hselects : Selects old (some new) name.toList := ⟨new, rfl, hplus, hpath, hrun⟩
  refine ⟨?_, ?_⟩
  · intro line next hline
    obtain ⟨rfl, rfl⟩ := hat line next hline
    exact ⟨_, hselects⟩
  · intro path
    constructor
    · rintro ⟨line, next, hline, after', hafter, -, rfl, -⟩
      obtain ⟨rfl, rfl⟩ := hat line next hline
      obtain rfl := Option.some.inj hafter
      exact hpath
    · rintro rfl
      exact ⟨old, some new, headerAt_cons.mpr (.inl ⟨rfl, hminus, rfl⟩), hselects⟩

/-- The headers of a file are its names and what its hunks hold. -/
theorem file_headers {name : String} (h : Printable baseline final name) (hshow : Shows baseline final name)
    (hrun : runnerPath name.toList = true) :
    (Takes (readLines baseline final name) ↔ ∀ g ∈ groupsOf (baseline.text name) (final.text name),
      Takes (hunkLines (baseline.text name) (final.text name) g)) ∧
      ∀ path, Selected (readLines baseline final name) path ↔ path = name.toList ∨
        ∃ g ∈ groupsOf (baseline.text name) (final.text name),
          Selected (hunkLines (baseline.text name) (final.text name) g) path := by
  have hsome : baseline.contents.get? name ≠ none ∨ final.contents.get? name ≠ none := by
    by_contra hnone
    obtain ⟨hb, hf⟩ := not_or.mp hnone
    exact h.changed ((not_not.mp hb).trans (not_not.mp hf).symm)
  obtain ⟨hnames, hnamed⟩ := names_headers hsome hrun
  obtain ⟨htakes, hselected⟩ := body_headers (s := baseline.text name) (t := final.text name)
    (groupsOf (baseline.text name) (final.text name))
  have hnoPlus := bodyLines_noPlus (s := baseline.text name) (t := final.text name)
    (groupsOf (baseline.text name) (final.text name))
  have hlines := readLines_shown hshow
  revert hlines htakes hselected hnoPlus hnames hnamed
  generalize bodyLines (baseline.text name) (final.text name) _ = body
  generalize readLines baseline final name = lines
  generalize nameHeader "--- " "a/" name (baseline.contents.get? name) = old
  generalize nameHeader "+++ " "b/" name (final.contents.get? name) = new
  rintro hnames hnamed htakes hselected hnoPlus rfl
  have hsplit : old :: new :: body = [old, new] ++ body := rfl
  rw [hsplit, takes_append hnoPlus, htakes]
  refine ⟨⟨fun hall => hall.2, fun hall => ⟨hnames, hall⟩⟩, ?_⟩
  intro path
  rw [selected_append hnoPlus, hselected, hnamed]

/-- The headers of a patch are the names of its files and what the hunks hold. -/
theorem patch_headers {names : List String} (hprint : ∀ name ∈ names, Printable baseline final name)
    (hshow : ∀ name ∈ names, Shows baseline final name) (hrun : ∀ name ∈ names, runnerPath name.toList = true) :
    (Takes (names.flatMap (readLines baseline final)) ↔
      ∀ name ∈ names, ∀ g ∈ groupsOf (baseline.text name) (final.text name),
        Takes (hunkLines (baseline.text name) (final.text name) g)) ∧
      ∀ path, Selected (names.flatMap (readLines baseline final)) path ↔ ∃ name ∈ names, path = name.toList ∨
        ∃ g ∈ groupsOf (baseline.text name) (final.text name),
          Selected (hunkLines (baseline.text name) (final.text name) g) path := by
  induction names with
  | nil =>
    refine ⟨⟨fun _ => nofun, fun _ _ _ hat => absurd hat headerAt_nil⟩, fun path => ⟨?_, ?_⟩⟩
    · rintro ⟨_, _, hat, -⟩
      exact absurd hat headerAt_nil
    · rintro ⟨name, hname, -⟩
      cases hname
  | cons name names ih =>
    obtain ⟨htakes, hselected⟩ := ih (fun x hx => hprint x (List.mem_cons_of_mem _ hx))
      (fun x hx => hshow x (List.mem_cons_of_mem _ hx)) fun x hx => hrun x (List.mem_cons_of_mem _ hx)
    obtain ⟨hfile, hfileSelected⟩ := file_headers (hprint name List.mem_cons_self) (hshow name List.mem_cons_self)
      (hrun name List.mem_cons_self)
    have hnext : NoPlus (names.flatMap (readLines baseline final)) := (readLines_next names).noPlus
    rw [List.flatMap_cons, takes_append hnext, hfile, htakes, List.forall_mem_cons]
    refine ⟨Iff.rfl, ?_⟩
    intro path
    rw [selected_append hnext, hfileSelected, hselected, List.exists_mem_cons_iff]

/-! ## Names a runner takes -/

/-- A component of a portable path is not one of those a source may not hold. -/
theorem portable_not_git (hgit : casefold ".git" = ".git") {path : String}
    (h : validatePortablePath casefold path = .ok path) : startsWith ".git/" path.toList = false := by
  by_contra hstart
  rw [Bool.not_eq_false] at hstart
  unfold startsWith at hstart
  rw [List.isPrefixOf_iff_prefix] at hstart
  obtain ⟨rest, hrest⟩ := hstart
  have hfront : path.toList.map (fun c => if c = '\\' then '/' else c) =
      ".git".toList ++ '/' :: rest.map fun c => if c = '\\' then '/' else c := by
    rw [← hrest, List.map_append]
    rfl
  have hdropped : ∀ tail : Text, (".git".toList ++ tail).rdropWhile (· = '/') =
      ".git".toList ++ tail.rdropWhile (· = '/') := by
    intro tail
    induction tail using List.reverseRecOn with
    | nil => rfl
    | append_singleton tail c ih =>
      rw [← List.append_assoc]
      by_cases hc : c = '/'
      · rw [List.rdropWhile_concat_pos _ _ _ (by simpa using hc), List.rdropWhile_concat_pos _ _ _ (by simpa using hc),
          ih]
      · rw [List.rdropWhile_concat_neg _ _ _ (by simpa using hc), List.rdropWhile_concat_neg _ _ _ (by simpa using hc),
          List.append_assoc]
  have hparts : ∀ tail : Text, ".git" ∈ pathParts ((".git".toList ++ '/' :: tail).rdropWhile (· = '/')) := by
    intro tail
    have hmem : ".git".toList ∈ ((".git".toList ++ '/' :: tail).rdropWhile (· = '/')).splitOn '/' := by
      rw [hdropped]
      cases hcut : ('/' :: tail).rdropWhile (· = '/') with
      | nil =>
        rw [List.append_nil]
        decide
      | cons c cut =>
        have hbegins := List.rdropWhile_prefix (p := fun c => decide (c = '/')) (l := '/' :: tail)
        rw [hcut] at hbegins
        obtain ⟨more, hmore⟩ := hbegins
        obtain rfl : c = '/' := (List.cons.inj hmore).1
        rw [List.splitOn, List.splitOnP_append_cons _ _ (by decide)]
        apply List.mem_append_left
        decide
    have hpart : String.ofList ".git".toList ∈ pathParts ((".git".toList ++ '/' :: tail).rdropWhile (· = '/')) := by
      apply List.mem_map_of_mem
      exact List.mem_filter.mpr ⟨hmem, by decide⟩
    exact hpart
  have hblocked : blockedSourceComponent casefold ".git" = true := by
    unfold blockedSourceComponent
    rw [hgit]
    rfl
  unfold validatePortablePath safeName at h
  split at h
  · cases h
  · simp only [hfront] at h
    split at h
    · cases h
    · split at h
      · cases h
      · rw [if_pos] at h
        · cases h
        · rw [List.any_eq_true]
          exact ⟨".git", hparts _, by rw [hblocked, Bool.or_true]⟩

end

/-! ## Agreement -/

/-- The file changes. -/
def Changed (baseline final : WorkspaceSnapshot) (name : String) : Prop :=
  baseline.contents.get? name ≠ final.contents.get? name

/-- Both readers of the patch return exactly the changed paths. -/
structure ReadersAgree (sha256 : Sha256) (casefold : String → String) (baseline final : WorkspaceSnapshot)
    (patch : Text) : Prop where
  agent : ∃ declared, declaredPatchPaths casefold patch = some declared ∧
    ∀ name, name ∈ declared ↔ name ∈ workspaceChangedPaths sha256 baseline final
  runner : (∀ name ∈ workspaceChangedPaths sha256 baseline final, pathShape name.toList = true) →
    ∃ paths, patchPaths patch = some paths ∧
      ∀ name, name ∈ paths ↔ name ∈ workspaceChangedPaths sha256 baseline final

/-- A deleted line that begins with `-- ` stands before an added line that begins with `++ `, and the two
name a changed file. -/
def NoFalseHeader (baseline final : WorkspaceSnapshot) : Prop :=
  ∀ name, Changed baseline final name → ∀ g ∈ groupsOf (baseline.text name) (final.text name),
    ∀ line next, HeaderAt (hunkLines (baseline.text name) (final.text name) g) line next →
      ∃ path, Selects line next path ∧ Changed baseline final (String.ofList path)

/-- What the readers need of two snapshots. -/
structure Legible (casefold : String → String) (baseline final : WorkspaceSnapshot) : Prop where
  portable : ∀ name, Changed baseline final name → validatePortablePath casefold name = .ok name
  unbroken : ∀ name, Changed baseline final name → Unbroken name
  nonempty : NoEmptyChange baseline final
  distinct : ∀ x y, Changed baseline final x → Changed baseline final y → casefold x = casefold y → x = y
  noFalseHeader : (∀ name, Changed baseline final name → pathShape name.toList = true) → NoFalseHeader baseline final

section
variable {sha256 : Sha256} {casefold : String → String} {baseline final : WorkspaceSnapshot} {maxBytes : Int}

theorem mem_workspaceChangedPaths (hS : Distinguishes sha256 (baseline.digested ++ final.digested)) (name : String) :
    name ∈ workspaceChangedPaths sha256 baseline final ↔ Changed baseline final name := by
  unfold workspaceChangedPaths
  rw [List.mem_filter, decide_eq_true_eq]
  constructor
  · exact fun h => fun hsame => h.2 ((snapshotIdentity_iff hS name).mpr hsame)
  · intro h
    exact ⟨mem_patchNames h, fun hid => h ((snapshotIdentity_iff hS name).mp hid)⟩

/-- The agent's reader on a patch whose names read back as they are. -/
theorem agent_reads {names : List String} (hprint : ∀ name ∈ names, Printable baseline final name)
    (hnames : ∀ name ∈ names, Declarable casefold name) :
    (names.flatMap (readLines baseline final) ≠ [] →
      Set.InjOn casefold {name | name ∈ names ∧ Shows baseline final name} →
        ∃ declared, declaredPatchPaths casefold (names.flatMap (printedLines baseline final)).flatten = some declared) ∧
      ∀ declared, declaredPatchPaths casefold (names.flatMap (printedLines baseline final)).flatten = some declared →
        Set.InjOn casefold {name | name ∈ names ∧ Shows baseline final name} ∧
          ∀ name, name ∈ declared ↔ name ∈ names ∧ Shows baseline final name := by
  have hlines := textLines_printed hprint fun name hname => (hnames name hname).2
  have hempty : Declared casefold ∅ ∅ := declared_empty
  obtain ⟨hgo, hget⟩ := readDeclared_files hprint (fun name hname => (hnames name hname).1)
    (names.flatMap (readLines baseline final)).length 0 (Nat.le_refl _) hempty
  rw [Set.empty_union] at hgo hget
  unfold declaredPatchPaths
  rw [hlines]
  refine ⟨?_, ?_⟩
  · intro hne hinj
    obtain ⟨r, hr⟩ := hgo hinj
    obtain ⟨-, -, hpairs⟩ := hget r hr
    have hshown : ∃ name ∈ names, Shows baseline final name := by
      by_contra hnone
      apply hne
      rw [List.flatMap_eq_nil_iff]
      intro name hname
      exact readLines_hidden fun hshow => hnone ⟨name, hname, hshow⟩
    have hpos := hpairs hshown
    refine ⟨r.1.values, ?_⟩
    simp only [hr, Option.bind_eq_bind, Option.bind_some]
    rw [if_neg (by omega)]
  · intro declared hdeclared
    obtain ⟨r, hr, hdeclared⟩ := Option.bind_eq_some_iff.mp hdeclared
    obtain ⟨hall, -, -⟩ := hget r hr
    simp only at hdeclared
    split at hdeclared
    · cases hdeclared
    · obtain rfl := Option.some.inj hdeclared
      exact ⟨hall.injOn, hall.values⟩

/-- The runner's reader on a patch whose names read back as they are. -/
theorem runner_reads {names : List String} (hprint : ∀ name ∈ names, Printable baseline final name)
    (hnames : ∀ name ∈ names, Unbroken name) (hshow : ∀ name ∈ names, Shows baseline final name)
    (hrun : ∀ name ∈ names, runnerPath name.toList = true) :
    ((∀ name ∈ names, ∀ g ∈ groupsOf (baseline.text name) (final.text name),
        Takes (hunkLines (baseline.text name) (final.text name) g)) →
      ∃ paths, patchPaths (names.flatMap (printedLines baseline final)).flatten = some paths) ∧
      ∀ paths, patchPaths (names.flatMap (printedLines baseline final)).flatten = some paths →
        (∀ name ∈ names, ∀ g ∈ groupsOf (baseline.text name) (final.text name),
          Takes (hunkLines (baseline.text name) (final.text name) g)) ∧
          ∀ path, path ∈ paths ↔ path ∈ names ∨ ∃ name ∈ names, ∃ g ∈ groupsOf (baseline.text name) (final.text name),
            Selected (hunkLines (baseline.text name) (final.text name) g) path.toList := by
  have hlines := textLines_printed hprint hnames
  have hgit : ∀ line ∈ names.flatMap (readLines baseline final), startsWith "diff --git a/" line = false := by
    intro line hline
    obtain ⟨name, hname, hline⟩ := List.mem_flatMap.mp hline
    exact readLines_no_git (hprint name hname) line hline
  obtain ⟨hgo, hget⟩ := readPaths_headers hgit []
  obtain ⟨htakes, hselected⟩ := patch_headers hprint hshow hrun
  unfold patchPaths
  rw [hlines]
  refine ⟨?_, ?_⟩
  · intro hall
    obtain ⟨all, hread⟩ := hgo (htakes.mpr hall)
    exact ⟨_, by rw [hread]; rfl⟩
  · intro paths hpaths
    obtain ⟨all, hread, rfl⟩ := Option.map_eq_some_iff.mp hpaths
    obtain ⟨hall, hmem⟩ := hget all hread
    refine ⟨htakes.mp hall, ?_⟩
    intro path
    have hpath : path ∈ all.eraseDups.map String.ofList ↔ path.toList ∈ all := by
      rw [List.mem_map]
      constructor
      · rintro ⟨text, htext, rfl⟩
        rw [String.toList_ofList]
        exact List.mem_eraseDups.mp htext
      · exact fun hin => ⟨path.toList, List.mem_eraseDups.mpr hin, String.ofList_toList⟩
    have hsel := hselected path.toList
    unfold Selected at hsel
    rw [hpath, hmem path.toList, hsel]
    constructor
    · rintro (hnone | ⟨name, hname, hsame | hin⟩)
      · cases hnone
      · rw [String.toList_injective hsame]
        exact .inl hname
      · exact .inr ⟨name, hname, hin⟩
    · rintro (hname | ⟨name, hname, hin⟩)
      · exact .inr ⟨path, hname, .inl rfl⟩
      · exact .inr ⟨name, hname, .inr hin⟩

/-- The readers agree exactly on legible snapshots. -/
theorem readers_agree_iff (hS : Distinguishes sha256 (baseline.digested ++ final.digested))
    (hgit : casefold ".git" = ".git") {patch : Bytes}
    (hbuild : buildWorkspacePatch sha256 baseline final maxBytes = .ok patch) (hsome : patch ≠ []) {text : Text}
    (htext : decodeUtf8 patch = some text) :
    ReadersAgree sha256 casefold baseline final text ↔ Legible casefold baseline final := by
  obtain ⟨hprint, hprinted⟩ := patch_printed hS hbuild htext
  have hmem := mem_workspaceChangedPaths hS
  have hrun : ∀ name, Declarable casefold name → pathShape name.toList = true → runnerPath name.toList = true := by
    intro name hname hshape
    rw [runnerPath, hshape, portable_not_git hgit hname.1]
    rfl
  constructor
  · rintro ⟨⟨declared, hdeclared, hagent⟩, hrunner⟩
    -- Whatever the reader declares is portable and unbroken.
    have hnames : ∀ name ∈ workspaceChangedPaths sha256 baseline final, Declarable casefold name := fun name hname =>
      declaredPatchPaths_declarable hdeclared name ((hagent name).mpr hname)
    rw [hprinted] at hdeclared hrunner
    obtain ⟨hinj, hshown⟩ := (agent_reads hprint hnames).2 declared hdeclared
    have hshow : ∀ name ∈ workspaceChangedPaths sha256 baseline final, Shows baseline final name := fun name hname =>
      ((hshown name).mp ((hagent name).mpr hname)).2
    refine ⟨?_, ?_, ?_, ?_, ?_⟩
    · exact fun name hname => (hnames name ((hmem name).mpr hname)).1
    · exact fun name hname => (hnames name ((hmem name).mpr hname)).2
    · intro name hempty
      have hname := (hmem name).mpr hempty.ne
      exact (shows_iff (hprint name hname)).mp (hshow name hname) hempty
    · intro x y hx hy hfold
      have hx' := (hmem x).mpr hx
      have hy' := (hmem y).mpr hy
      exact hinj ⟨hx', hshow x hx'⟩ ⟨hy', hshow y hy'⟩ hfold
    · intro hshape
      have hshape' : ∀ name ∈ workspaceChangedPaths sha256 baseline final, pathShape name.toList = true :=
        fun name hname => hshape name ((hmem name).mp hname)
      obtain ⟨paths, hpaths, hsame⟩ := hrunner hshape'
      obtain ⟨htakes, hselected⟩ := (runner_reads hprint (fun name hname => (hnames name hname).2) hshow
        fun name hname => hrun name (hnames name hname) (hshape' name hname)).2 paths hpaths
      intro name hname g hg line next hat
      obtain ⟨path, hpath⟩ := htakes name ((hmem name).mpr hname) g hg line next hat
      refine ⟨path, hpath, ?_⟩
      rw [← hmem, ← hsame, hselected]
      refine .inr ⟨name, (hmem name).mpr hname, g, hg, line, next, hat, ?_⟩
      rwa [String.toList_ofList]
  · intro h
    have hnames : ∀ name ∈ workspaceChangedPaths sha256 baseline final, Declarable casefold name := fun name hname =>
      ⟨h.portable name ((hmem name).mp hname), h.unbroken name ((hmem name).mp hname)⟩
    have hshow : ∀ name ∈ workspaceChangedPaths sha256 baseline final, Shows baseline final name := fun name hname =>
      (shows_iff (hprint name hname)).mpr (h.nonempty name)
    have hlines : (workspaceChangedPaths sha256 baseline final).flatMap (readLines baseline final) ≠ [] := by
      intro hnil
      have hnone : workspaceChangedPaths sha256 baseline final = [] := by
        rw [List.eq_nil_iff_forall_not_mem]
        intro name hname
        have hempty := List.flatMap_eq_nil_iff.mp hnil name hname
        rw [readLines_shown (hshow name hname)] at hempty
        cases hempty
      apply hsome
      rw [← encodeUtf8_of_decodeUtf8 htext, hprinted, hnone]
      rfl
    rw [hprinted]
    refine ⟨?_, ?_⟩
    · obtain ⟨hgo, hget⟩ := agent_reads hprint hnames
      obtain ⟨declared, hdeclared⟩ := hgo hlines fun x hx y hy hfold =>
        h.distinct x y ((hmem x).mp hx.1) ((hmem y).mp hy.1) hfold
      refine ⟨declared, hdeclared, ?_⟩
      intro name
      rw [(hget declared hdeclared).2 name]
      exact ⟨fun hname => hname.1, fun hname => ⟨hname, hshow name hname⟩⟩
    · intro hshape
      have hclear := h.noFalseHeader fun name hname => hshape name ((hmem name).mpr hname)
      obtain ⟨hgo, hget⟩ := runner_reads hprint (fun name hname => (hnames name hname).2) hshow
        fun name hname => hrun name (hnames name hname) (hshape name hname)
      obtain ⟨paths, hpaths⟩ := hgo fun name hname g hg line next hat => by
        obtain ⟨path, hpath, -⟩ := hclear name ((hmem name).mp hname) g hg line next hat
        exact ⟨path, hpath⟩
      refine ⟨paths, hpaths, ?_⟩
      intro path
      rw [(hget paths hpaths).2 path]
      constructor
      · rintro (hpath | ⟨name, hname, g, hg, line, next, hat, hpath⟩)
        · exact hpath
        · obtain ⟨path', hpath', hchanged⟩ := hclear name ((hmem name).mp hname) g hg line next hat
          obtain ⟨after, rfl, -, hsel, -⟩ := hpath
          obtain ⟨after', hafter', -, hsel', -⟩ := hpath'
          obtain rfl := Option.some.inj hafter'
          rw [← hsel', hsel, String.ofList_toList] at hchanged
          exact (hmem path).mpr hchanged
      · exact .inl

end

/-! ## Samples -/

/-- `str.casefold` on ASCII. -/
def asciiFold (text : String) : String := String.ofList (text.toList.map Char.toLower)

/-- The patch that changes `one` into `two`. -/
def changedPatch : Text := "--- a/a.txt\n+++ b/a.txt\n@@ -1 +1 @@\n-one\n+two\n".toList

/-- The patch of a changed line is read alike exactly when the change is legible. -/
theorem readers_agree_iff_sample :
    ReadersAgree sampleSha256 asciiFold (sampleSnapshot "one\n") (sampleSnapshot "two\n") changedPatch ↔
      Legible asciiFold (sampleSnapshot "one\n") (sampleSnapshot "two\n") := by
  have hbuild : buildWorkspacePatch sampleSha256 (sampleSnapshot "one\n") (sampleSnapshot "two\n") 4096 =
      .ok (encodeUtf8 changedPatch) := by decide +kernel
  exact readers_agree_iff (by decide) (by decide) hbuild (by decide +kernel) (decodeUtf8_encodeUtf8 _)

/-- SHA-256 on the contents of a deleted line that looks like a header. -/
def dashedSha256 : Sha256 := fun data =>
  if data = encodeUtf8 "-- one\n".toList then "32e570f05fce5057e851b1bcf0deb6bd38e679cfa8cf13a17084006a8633ac80"
  else sampleSha256 data

/-- The patch that deletes a line `-- one`. -/
def dashedPatch : Text := "--- a/a.txt\n+++ b/a.txt\n@@ -1 +1 @@\n--- one\n+two\n".toList

/-- The runner refuses a patch that deletes a line beginning with `-- `. -/
theorem dashed_line_refused :
    buildWorkspacePatch dashedSha256 (sampleSnapshot "-- one\n") (sampleSnapshot "two\n") 4096 =
        .ok (encodeUtf8 dashedPatch) ∧
      decodeUtf8 (encodeUtf8 dashedPatch) = some dashedPatch ∧
      (∀ name ∈ workspaceChangedPaths dashedSha256 (sampleSnapshot "-- one\n") (sampleSnapshot "two\n"),
        pathShape name.toList = true) ∧
      patchPaths dashedPatch = none ∧
      ¬ReadersAgree dashedSha256 asciiFold (sampleSnapshot "-- one\n") (sampleSnapshot "two\n") dashedPatch := by
  have hchanged : workspaceChangedPaths dashedSha256 (sampleSnapshot "-- one\n") (sampleSnapshot "two\n") = ["a.txt"] := by
    decide +kernel
  have hshape : ∀ name ∈ workspaceChangedPaths dashedSha256 (sampleSnapshot "-- one\n") (sampleSnapshot "two\n"),
      pathShape name.toList = true := by
    rw [hchanged]
    decide +kernel
  have hnone : patchPaths dashedPatch = none := by decide +kernel
  refine ⟨by decide +kernel, decodeUtf8_encodeUtf8 _, hshape, hnone, ?_⟩
  intro h
  obtain ⟨paths, hpaths, -⟩ := h.runner hshape
  rw [hnone] at hpaths
  cases hpaths

end LilTweak.Evidence
