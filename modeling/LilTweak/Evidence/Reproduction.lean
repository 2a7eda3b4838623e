import LilTweak.Evidence.RoundTrip
import Mathlib.Data.List.Dedup

/-!
# The patch reproduces the final snapshot

The file diffs of `build_workspace_patch`, applied one after the other to the
baseline, give exactly the final file map, except for empty files that appear or
disappear: those print nothing. Their names are then the ones a strict reader of
the patch gets wrong.
-/

namespace LilTweak.Evidence

open LilTweak.Lib

/-! ## Snapshots -/

/-- The byte strings whose digests stand for them in a snapshot. -/
def WorkspaceSnapshot.digested (s : WorkspaceSnapshot) : List Bytes :=
  s.files.values.flatMap fun v =>
    match v with
    | .inline data => [data]
    | .staged data onDisk => data :: onDisk.toList

/-- No two of the byte strings have one length and one digest. -/
def Distinguishes (sha256 : Sha256) (S : List Bytes) : Prop :=
  ∀ x ∈ S, ∀ y ∈ S, x.length = y.length → sha256 x = sha256 y → x = y

instance (sha256 : Sha256) (S : List Bytes) : Decidable (Distinguishes sha256 S) :=
  inferInstanceAs (Decidable (∀ x ∈ S, ∀ y ∈ S, _ → _ → x = y))

/-- The file is empty on one side and absent on the other. -/
def EmptyChange (before after : Option Bytes) : Prop :=
  (before = none ∧ after = some []) ∨ (before = some [] ∧ after = none)

instance (before after : Option Bytes) : Decidable (EmptyChange before after) :=
  inferInstanceAs (Decidable (_ ∨ _))

theorem EmptyChange.ne {before after : Option Bytes} (h : EmptyChange before after) :
    before ≠ after := by
  rcases h with ⟨rfl, rfl⟩ | ⟨rfl, rfl⟩ <;> simp

theorem contents_get? (s : WorkspaceSnapshot) (name : String) :
    s.contents.get? name = (s.files.get? name).map SnapshotValue.data :=
  Dict.get?_mapValues _ _ _

theorem data_digested {s : WorkspaceSnapshot} {name : String} {v : SnapshotValue}
    (h : s.files.get? name = some v) : v.data ∈ s.digested := by
  refine List.mem_flatMap.mpr ⟨v, (Dict.mem_values_iff _ _).mpr ⟨name, h⟩, ?_⟩
  cases v with
  | inline data => exact List.mem_singleton.mpr rfl
  | staged data onDisk => exact List.mem_cons_self

section
variable {sha256 : Sha256} {baseline final : WorkspaceSnapshot}

/-- Equal identities stand for equal files. -/
theorem snapshotIdentity_iff (hS : Distinguishes sha256 (baseline.digested ++ final.digested))
    (name : String) :
    snapshotIdentity sha256 (baseline.files.get? name) =
        snapshotIdentity sha256 (final.files.get? name) ↔
      baseline.contents.get? name = final.contents.get? name := by
  rw [contents_get?, contents_get?]
  cases hb : baseline.files.get? name with
  | none => cases final.files.get? name <;> simp [snapshotIdentity]
  | some v =>
    cases hf : final.files.get? name with
    | none => simp [snapshotIdentity]
    | some w =>
      simp only [snapshotIdentity, Option.map_some, Option.some.injEq, Prod.mk.injEq]
      constructor
      · rintro ⟨hlen, hsha⟩
        exact hS _ (List.mem_append_left _ (data_digested hb)) _
          (List.mem_append_right _ (data_digested hf)) hlen hsha
      · intro h
        rw [h]
        exact ⟨rfl, rfl⟩

/-- A staged copy that passes its check is what was captured. -/
theorem snapshotBytes_ok {s : WorkspaceSnapshot} {S : List Bytes} (hS : Distinguishes sha256 S)
    (hsub : s.digested ⊆ S) {name : String} {data : Option Bytes}
    (h : snapshotBytes sha256 (s.files.get? name) = .ok data) : data = s.contents.get? name := by
  rw [contents_get?]
  cases hv : s.files.get? name with
  | none =>
    rw [hv] at h
    exact (Except.ok.inj h).symm
  | some v =>
    rw [hv] at h
    cases v with
    | inline d => exact (Except.ok.inj h).symm
    | staged d onDisk =>
      cases onDisk with
      | none => cases h
      | some found =>
        simp only [snapshotBytes] at h
        split at h
        · cases h
        · next hsame =>
          obtain ⟨hlen, hsha⟩ := not_or.mp hsame
          rw [not_not] at hlen hsha
          have hmem : SnapshotValue.staged d (some found) ∈ s.files.values :=
            (Dict.mem_values_iff _ _).mpr ⟨name, hv⟩
          have heq := hS found (hsub (List.mem_flatMap.mpr ⟨_, hmem, by simp⟩)) d
            (hsub (data_digested hv)) hlen hsha
          rw [← Except.ok.inj h, heq]
          rfl

end

theorem decodeText_ok {data : Option Bytes} {t : Text} (h : decodeText data = .ok t) :
    encodeUtf8 t = data.getD [] := by
  cases data with
  | none =>
    rw [← Except.ok.inj h]
    rfl
  | some d =>
    simp only [decodeText] at h
    split at h
    · next text htext =>
      rw [← Except.ok.inj h]
      exact encodeUtf8_of_decodeUtf8 htext
    · cases h

theorem nul_not_mem {t : Text} (h : (encodeUtf8 t).contains 0 = false) : '\x00' ∉ t := by
  intro hm
  have hzero := (mem_encodeUtf8_ascii (n := '\x00') (by decide) t).mpr hm
  have hcontains : (encodeUtf8 t).contains 0 = true := List.contains_iff_mem.mpr hzero
  rw [h] at hcontains
  cases hcontains

/-- Applying the diff of a file leaves the final file. -/
theorem applyFile_fileDiffOf {before after : Option Bytes} {s t : Text} (hs : '\x00' ∉ s)
    (ht : '\x00' ∉ t) (hbefore : encodeUtf8 s = before.getD []) (hafter : encodeUtf8 t = after.getD [])
    (hcount : CountedAtFeeds s t) (hsome : before ≠ after) {name : String}
    {files : Dict String Bytes} (hfile : files.get? name = before) :
    ∃ m, applyFile files (fileDiffOf name before after s t) = some m ∧
      ∀ n, m.get? n = if n = name then after else files.get? n := by
  have happly := applyHunks_lines hs ht hcount
  rw [hbefore, hafter] at happly
  have hflat : ∀ data : Bytes, (physicalLines data).flatten = data := splitAfter_flatten _
  cases before with
  | none =>
    cases after with
    | none => exact absurd rfl hsome
    | some new =>
      have hempty : physicalLines [] = [] := rfl
      simp only [Option.getD_none, Option.getD_some, hempty] at happly
      refine ⟨files.set name new, ?_, fun n => Dict.get?_set _ _ _ _⟩
      simp only [applyFile, fileDiffOf, Option.map_none, Option.map_some, hfile]
      rw [happly, Option.map_some, hflat]
  | some old =>
    cases after with
    | none =>
      have hempty : physicalLines [] = [] := rfl
      simp only [Option.getD_none, Option.getD_some, hempty] at happly
      refine ⟨files.erase name, ?_, fun n => Dict.get?_erase _ _ _⟩
      simp only [applyFile, fileDiffOf, Option.map_none, Option.map_some, hfile]
      rw [happly]
    | some new =>
      simp only [Option.getD_some] at happly
      refine ⟨files.set name new, ?_, fun n => Dict.get?_set _ _ _ _⟩
      simp only [applyFile, fileDiffOf, Option.map_some, hfile]
      rw [if_neg (by simp), happly, Option.map_some, hflat]

/-- For every changed file, each line its hunks show or count ends at a line feed. -/
def HunksAtFeeds (baseline final : WorkspaceSnapshot) : Prop :=
  ∀ name, baseline.contents.get? name ≠ final.contents.get? name → ∀ s t,
    decodeUtf8 ((baseline.contents.get? name).getD []) = some s →
    decodeUtf8 ((final.contents.get? name).getD []) = some t → CountedAtFeeds s t

/-- No file is empty on one side and absent on the other. -/
def NoEmptyChange (baseline final : WorkspaceSnapshot) : Prop :=
  ∀ name, ¬EmptyChange (baseline.contents.get? name) (final.contents.get? name)

/-- Applying the patch to the baseline gives exactly the final file map. -/
def Reproduces (patch : Bytes) (baseline final : WorkspaceSnapshot) : Prop :=
  ∃ m, applyPatch patch baseline.contents = some m ∧ ∀ name, m.get? name = final.contents.get? name

section
variable {sha256 : Sha256} {baseline final : WorkspaceSnapshot} {maxBytes : Int}

/-- What the loop body adds for a name. -/
theorem appendFile_ok {encoded encoded' : Bytes} {name : String}
    (h : appendFile sha256 baseline final maxBytes encoded name = .ok encoded') :
    (snapshotIdentity sha256 (baseline.files.get? name) =
        snapshotIdentity sha256 (final.files.get? name) ∧ encoded' = encoded) ∨
      (snapshotIdentity sha256 (baseline.files.get? name) ≠
          snapshotIdentity sha256 (final.files.get? name) ∧
        ∃ before after s t, snapshotBytes sha256 (baseline.files.get? name) = .ok before ∧
          snapshotBytes sha256 (final.files.get? name) = .ok after ∧
          encodeUtf8 s = before.getD [] ∧ encodeUtf8 t = after.getD [] ∧ '\x00' ∉ s ∧ '\x00' ∉ t ∧
          encoded' = encoded ++ (unifiedDiff (patchLines s) (patchLines t)
            (headerName "a/" name before) (headerName "b/" name after)).flatMap emitted) := by
  unfold appendFile at h
  split at h
  · next hid => exact .inl ⟨hid, (Except.ok.inj h).symm⟩
  · next hid =>
    refine .inr ⟨hid, ?_⟩
    cases hbefore : snapshotBytes sha256 (baseline.files.get? name) with
    | error e =>
      rw [hbefore] at h
      cases h
    | ok before =>
      cases hafter : snapshotBytes sha256 (final.files.get? name) with
      | error e =>
        rw [hbefore, hafter] at h
        cases h
      | ok after =>
        rw [hbefore, hafter] at h
        simp only [bind, Except.bind] at h
        split at h
        · cases h
        · next hbinary =>
          cases hs : decodeText before with
          | error e =>
            rw [hs] at h
            cases h
          | ok s =>
            cases ht : decodeText after with
            | error e =>
              rw [hs, ht] at h
              cases h
            | ok t =>
              rw [hs, ht] at h
              have hs' := decodeText_ok hs
              have ht' := decodeText_ok ht
              simp only [Bool.or_eq_true, not_or, Bool.not_eq_true, ← hs', ← ht'] at hbinary
              exact ⟨before, after, s, t, rfl, rfl, hs', ht', nul_not_mem hbinary.1,
                nul_not_mem hbinary.2, foldlM_appendLine _ h⟩

/-- The names of a snapshot are printable. -/
theorem name_controlFree {name : String}
    (h : baseline.contents.get? name ≠ final.contents.get? name) : controlFree name := by
  have hkey : ∀ s : WorkspaceSnapshot, s.contents.get? name ≠ none → controlFree name := by
    intro s hs
    refine s.portable name ((Dict.mem_keys_iff _ _).mpr ?_)
    rw [contents_get?] at hs
    cases hv : s.files.get? name with
    | none =>
      rw [hv] at hs
      exact absurd rfl hs
    | some v => exact ⟨v, rfl⟩
  by_cases hb : baseline.contents.get? name = none
  · exact hkey final fun hf => h (hb.trans hf.symm)
  · exact hkey baseline hb

/-- Two different files with one text are an empty and an absent one. -/
theorem emptyChange_of_text {before after : Option Bytes} (h : before ≠ after)
    (htext : before.getD [] = after.getD []) : EmptyChange before after := by
  cases before with
  | none =>
    cases after with
    | none => exact absurd rfl h
    | some new => exact .inl ⟨rfl, congrArg some htext.symm⟩
  | some old =>
    cases after with
    | none => exact .inr ⟨congrArg some htext, rfl⟩
    | some new => exact absurd (congrArg some htext) h

/-- What a name adds to the patch, and what that does to a file map in which the
name still has its baseline file. -/
theorem appendFile_step (hS : Distinguishes sha256 (baseline.digested ++ final.digested))
    (hfeeds : HunksAtFeeds baseline final) {encoded encoded' : Bytes} {name : String}
    (h : appendFile sha256 baseline final maxBytes encoded name = .ok encoded') :
    ∃ ds : List FileDiff, (∀ d ∈ ds, d.Valid) ∧
      encoded' = encoded ++ (ds.flatMap printFile).flatten ∧
      ∀ files : Dict String Bytes, files.get? name = baseline.contents.get? name →
        ∃ m, ds.foldlM applyFile files = some m ∧ ∀ n, m.get? n =
          if n = name ∧ ¬EmptyChange (baseline.contents.get? name) (final.contents.get? name)
          then final.contents.get? name else files.get? n := by
  have nothing : ∀ files : Dict String Bytes, [].foldlM applyFile files = some files := fun _ => rfl
  rcases appendFile_ok h with ⟨hid, rfl⟩ | ⟨hid, before, after, s, t, hb, ha, hs, ht, hns, hnt, rfl⟩
  · have hsame := (snapshotIdentity_iff hS name).mp hid
    refine ⟨[], by simp, by simp, fun files hfile => ⟨files, nothing files, fun n => ?_⟩⟩
    split
    · next hn => rw [hn.1, hfile, hsame]
    · rfl
  · have hchange : baseline.contents.get? name ≠ final.contents.get? name := fun he =>
      hid ((snapshotIdentity_iff hS name).mpr he)
    obtain rfl := snapshotBytes_ok hS (List.subset_append_left _ _) hb
    obtain rfl := snapshotBytes_ok hS (List.subset_append_right _ _) ha
    have hcount := hfeeds name hchange s t (by rw [← hs, decodeUtf8_encodeUtf8])
      (by rw [← ht, decodeUtf8_encodeUtf8])
    by_cases hgroups : getGroupedOpcodes (patchLines s) (patchLines t) 3 = []
    · -- No hunk: nothing is printed, and the file is empty on one side only.
      have htext := eq_of_no_groups hns hnt hgroups
      have hempty := emptyChange_of_text hchange (by rw [← hs, ← ht, htext])
      refine ⟨[], by simp, by simp [unifiedDiff, hgroups], fun files _ =>
        ⟨files, nothing files, fun n => ?_⟩⟩
      rw [if_neg fun hn => hn.2 hempty]
    · have hname := name_controlFree hchange
      refine ⟨[fileDiffOf name (baseline.contents.get? name) (final.contents.get? name) s t], ?_, ?_,
        fun files hfile => ?_⟩
      · intro d hd
        obtain rfl := List.mem_singleton.mp hd
        exact fileDiffOf_valid hns hnt hname _ _ hgroups
      · rw [unifiedDiff_emitted hns hnt hcount hname _ _ hgroups, List.flatMap_singleton]
      · obtain ⟨m, hm, hget⟩ := applyFile_fileDiffOf hns hnt hs ht hcount hchange hfile
        have hnot : ¬EmptyChange (baseline.contents.get? name) (final.contents.get? name) := by
          intro hempty
          have hnil : encodeUtf8 s = encodeUtf8 [] ∧ encodeUtf8 t = encodeUtf8 [] := by
            rw [hs, ht]
            rcases hempty with ⟨h1, h2⟩ | ⟨h1, h2⟩ <;> rw [h1, h2] <;> exact ⟨rfl, rfl⟩
          rw [encodeUtf8_injective hnil.1, encodeUtf8_injective hnil.2] at hgroups
          exact hgroups rfl
        refine ⟨m, by rw [List.foldlM_cons, hm]; rfl, fun n => ?_⟩
        rw [hget n]
        simp only [hnot, not_false_eq_true, and_true]

/-- What the names add to the patch, and what that does to a file map in which each
name still has its baseline file. -/
theorem appendFiles_run (hS : Distinguishes sha256 (baseline.digested ++ final.digested))
    (hfeeds : HunksAtFeeds baseline final) (names : List String) :
    ∀ {encoded encoded' : Bytes}, names.Nodup →
      names.foldlM (appendFile sha256 baseline final maxBytes) encoded = .ok encoded' →
      ∃ ds : List FileDiff, (∀ d ∈ ds, d.Valid) ∧
        encoded' = encoded ++ (ds.flatMap printFile).flatten ∧
        ∀ files : Dict String Bytes,
          (∀ n ∈ names, files.get? n = baseline.contents.get? n) →
          ∃ m, ds.foldlM applyFile files = some m ∧ ∀ n, m.get? n =
            if n ∈ names ∧ ¬EmptyChange (baseline.contents.get? n) (final.contents.get? n)
            then final.contents.get? n else files.get? n := by
  induction names with
  | nil =>
    intro encoded encoded' _ h
    rw [List.foldlM_nil] at h
    refine ⟨[], by simp, ?_, fun files _ => ⟨files, rfl, fun n => ?_⟩⟩
    · rw [← Except.ok.inj h, List.flatMap_nil, List.flatten_nil, List.append_nil]
    · rw [if_neg fun hn => List.not_mem_nil hn.1]
  | cons name names ih =>
    intro encoded encoded' hnodup h
    obtain ⟨hfresh, hnodup⟩ := List.nodup_cons.mp hnodup
    rw [List.foldlM_cons] at h
    cases hone : appendFile sha256 baseline final maxBytes encoded name with
    | error e =>
      rw [hone] at h
      cases h
    | ok next =>
      rw [hone] at h
      obtain ⟨ds, hvalid, rfl, happly⟩ := appendFile_step hS hfeeds hone
      obtain ⟨ds', hvalid', rfl, happly'⟩ := ih hnodup h
      refine ⟨ds ++ ds', ?_, ?_, fun files hfiles => ?_⟩
      · intro d hd
        rcases List.mem_append.mp hd with hd | hd
        · exact hvalid d hd
        · exact hvalid' d hd
      · rw [List.flatMap_append, List.flatten_append, List.append_assoc]
      · obtain ⟨m, hm, hget⟩ := happly files (hfiles name List.mem_cons_self)
        -- The other names are still untouched.
        obtain ⟨m', hm', hget'⟩ := happly' m fun n hn => by
          have hne : n ≠ name := fun he => hfresh (he ▸ hn)
          rw [hget n, if_neg fun hc => hne hc.1]
          exact hfiles n (List.mem_cons_of_mem _ hn)
        refine ⟨m', by rw [List.foldlM_append, hm]; exact hm', fun n => ?_⟩
        rw [hget' n]
        by_cases hname : n = name
        · subst hname
          rw [if_neg fun hc => hfresh hc.1, hget n]
          simp only [List.mem_cons, true_or, true_and]
        · rw [hget n, if_neg fun hc : n = name ∧ _ => hname hc.1]
          simp only [List.mem_cons, hname, false_or]

theorem patchNames_nodup : (patchNames baseline final).Nodup :=
  (List.perm_insertionSort _ _).nodup_iff.mpr (List.nodup_dedup _)

theorem mem_patchNames {name : String}
    (h : baseline.contents.get? name ≠ final.contents.get? name) :
    name ∈ patchNames baseline final := by
  have hkey : ∀ s : WorkspaceSnapshot, s.contents.get? name ≠ none → name ∈ s.files.keys := by
    intro s hs
    rw [contents_get?] at hs
    rw [Dict.mem_keys_iff]
    cases hv : s.files.get? name with
    | none =>
      rw [hv] at hs
      exact absurd rfl hs
    | some v => exact ⟨v, rfl⟩
  rw [patchNames, List.mem_insertionSort, List.mem_dedup, List.mem_append]
  by_cases hb : baseline.contents.get? name = none
  · exact .inr (hkey final fun hf => h (hb.trans hf.symm))
  · exact .inl (hkey baseline hb)

/-- Where the hunks count physical lines, the patch reproduces the final snapshot
exactly when no empty file appears or disappears. -/
theorem patch_reproduces_iff (hS : Distinguishes sha256 (baseline.digested ++ final.digested))
    (hfeeds : HunksAtFeeds baseline final) {patch : Bytes}
    (hbuild : buildWorkspacePatch sha256 baseline final maxBytes = .ok patch) :
    Reproduces patch baseline final ↔ NoEmptyChange baseline final := by
  unfold buildWorkspacePatch at hbuild
  split at hbuild
  · cases hbuild
  obtain ⟨ds, hvalid, rfl, happly⟩ := appendFiles_run hS hfeeds _ patchNames_nodup hbuild
  obtain ⟨m, hm, hget⟩ := happly baseline.contents fun _ _ => rfl
  have hpatch : applyPatch ([] ++ (ds.flatMap printFile).flatten) baseline.contents = some m := by
    rw [List.nil_append, applyPatch_print hvalid, hm]
  constructor
  · rintro ⟨m', hm', hfinal⟩ name hempty
    obtain rfl := Option.some.inj (hpatch.symm.trans hm')
    have hname := hfinal name
    rw [hget name, if_neg fun hc => hc.2 hempty] at hname
    exact hempty.ne hname
  · intro hnone
    refine ⟨m, hpatch, fun name => ?_⟩
    rw [hget name]
    by_cases hsame : baseline.contents.get? name = final.contents.get? name
    · rw [hsame, ite_self]
    · rw [if_pos ⟨mem_patchNames hsame, hnone name⟩]

/-! ## When the patch is empty -/

theorem groups_ne_nil {s t : Text} (hs : '\x00' ∉ s) (ht : '\x00' ∉ t)
    (h : s ≠ t) : getGroupedOpcodes (patchLines s) (patchLines t) 3 ≠ [] := fun hg =>
  h (eq_of_no_groups hs ht hg)

theorem unifiedDiff_ne_nil {a b : List Text} {name : String} {before after : Option Bytes}
    (h : getGroupedOpcodes a b 3 ≠ []) :
    (unifiedDiff a b (headerName "a/" name before) (headerName "b/" name after)).flatMap emitted ≠
      [] := by
  have hfront : ∀ line : Text, emitted ('-' :: line) ≠ [] := by
    intro line
    unfold emitted
    split
    · exact List.append_ne_nil_of_right_ne_nil _ (by decide)
    · rw [encodeUtf8_ascii (by decide)]
      simp
  simp only [unifiedDiff, if_neg h]
  rw [List.flatMap_append, List.flatMap_cons]
  exact List.append_ne_nil_of_left_ne_nil (List.append_ne_nil_of_left_ne_nil (hfront _) _) _

/-- A name adds nothing exactly when its file is the same, or empty on one side and
absent on the other. -/
theorem appendFile_empty (hS : Distinguishes sha256 (baseline.digested ++ final.digested))
    {encoded encoded' : Bytes} {name : String}
    (h : appendFile sha256 baseline final maxBytes encoded name = .ok encoded') :
    ∃ out, encoded' = encoded ++ out ∧
      (out = [] ↔ baseline.contents.get? name = final.contents.get? name ∨
        EmptyChange (baseline.contents.get? name) (final.contents.get? name)) := by
  rcases appendFile_ok h with ⟨hid, rfl⟩ | ⟨hid, before, after, s, t, hb, ha, hs, ht, hns, hnt, rfl⟩
  · exact ⟨[], by simp, by simp [(snapshotIdentity_iff hS name).mp hid]⟩
  · have hchange : baseline.contents.get? name ≠ final.contents.get? name := fun he =>
      hid ((snapshotIdentity_iff hS name).mpr he)
    obtain rfl := snapshotBytes_ok hS (List.subset_append_left _ _) hb
    obtain rfl := snapshotBytes_ok hS (List.subset_append_right _ _) ha
    refine ⟨_, rfl, ?_, ?_⟩
    · intro hout
      have htext : s = t := by
        by_contra hne
        exact unifiedDiff_ne_nil (groups_ne_nil hns hnt hne) hout
      exact .inr (emptyChange_of_text hchange (by rw [← hs, ← ht, htext]))
    · rintro (heq | hempty)
      · exact absurd heq hchange
      · have hnil : encodeUtf8 s = encodeUtf8 [] ∧ encodeUtf8 t = encodeUtf8 [] := by
          rw [hs, ht]
          rcases hempty with ⟨h1, h2⟩ | ⟨h1, h2⟩ <;> rw [h1, h2] <;> exact ⟨rfl, rfl⟩
        rw [encodeUtf8_injective hnil.1, encodeUtf8_injective hnil.2]
        rfl

theorem appendFiles_empty (hS : Distinguishes sha256 (baseline.digested ++ final.digested))
    (names : List String) : ∀ {encoded encoded' : Bytes},
    names.foldlM (appendFile sha256 baseline final maxBytes) encoded = .ok encoded' →
    ∃ out, encoded' = encoded ++ out ∧
      (out = [] ↔ ∀ name ∈ names, baseline.contents.get? name = final.contents.get? name ∨
        EmptyChange (baseline.contents.get? name) (final.contents.get? name)) := by
  induction names with
  | nil =>
    intro encoded encoded' h
    rw [List.foldlM_nil] at h
    exact ⟨[], by rw [← Except.ok.inj h, List.append_nil], by simp⟩
  | cons name names ih =>
    intro encoded encoded' h
    rw [List.foldlM_cons] at h
    cases hone : appendFile sha256 baseline final maxBytes encoded name with
    | error e =>
      rw [hone] at h
      cases h
    | ok next =>
      rw [hone] at h
      obtain ⟨out, rfl, hout⟩ := appendFile_empty hS hone
      obtain ⟨out', rfl, hout'⟩ := ih h
      refine ⟨out ++ out', by rw [List.append_assoc], ?_⟩
      rw [List.append_eq_nil_iff, hout, hout', List.forall_mem_cons]

/-- The patch is empty exactly when every file is the same, or empty on one side and
absent on the other. -/
theorem patch_empty_iff (hS : Distinguishes sha256 (baseline.digested ++ final.digested))
    {patch : Bytes} (hbuild : buildWorkspacePatch sha256 baseline final maxBytes = .ok patch) :
    patch = [] ↔ ∀ name, baseline.contents.get? name = final.contents.get? name ∨
      EmptyChange (baseline.contents.get? name) (final.contents.get? name) := by
  unfold buildWorkspacePatch at hbuild
  split at hbuild
  · cases hbuild
  obtain ⟨out, rfl, hout⟩ := appendFiles_empty hS _ hbuild
  rw [hout]
  refine ⟨fun h name => ?_, fun h name _ => h name⟩
  by_cases hsame : baseline.contents.get? name = final.contents.get? name
  · exact .inl hsame
  · exact h name (mem_patchNames hsame)

/-- Snapshots of one file map have one digest. -/
theorem sourceDigest_congr (h : ∀ name, baseline.contents.get? name = final.contents.get? name) :
    baseline.sourceDigest sha256 = final.sourceDigest sha256 := by
  have hdata : ∀ name, (baseline.files.get? name).map SnapshotValue.data =
      (final.files.get? name).map SnapshotValue.data := by
    intro name
    rw [← contents_get?, ← contents_get?, h]
  have hkeys : baseline.files.keys.Perm final.files.keys := by
    refine (List.perm_ext_iff_of_nodup baseline.files.nodup final.files.nodup).mpr fun name => ?_
    have hsame : (∃ v, baseline.files.get? name = some v) ↔ ∃ v, final.files.get? name = some v := by
      rw [← Option.isSome_iff_exists, ← Option.isSome_iff_exists, ← Option.isSome_map (f := SnapshotValue.data),
        hdata, Option.isSome_map]
    exact ((Dict.mem_keys_iff _ _).trans hsame).trans (Dict.mem_keys_iff _ _).symm
  have hsorted : baseline.files.keys.insertionSort nameBefore =
      final.files.keys.insertionSort nameBefore := by
    have hperm := ((List.perm_insertionSort nameBefore _).trans hkeys).trans
      (List.perm_insertionSort nameBefore _).symm
    exact hperm.eq_of_sortedLE (List.sortedLE_insertionSort ..) (List.sortedLE_insertionSort ..)
  unfold WorkspaceSnapshot.sourceDigest
  rw [hsorted]
  congr 2
  refine List.flatMap_congr fun name _ => ?_
  have hname := hdata name
  cases hb : baseline.files.get? name <;> cases hf : final.files.get? name <;>
    rw [hb, hf] at hname <;> simp_all

end

/-! ## Samples -/

/-- SHA-256 on the contents of the samples. -/
def sampleSha256 : Sha256 := fun data =>
  if data = [] then "e3b0c44298fc1c149afbf4c8996fb92427ae41e4649b934ca495991b7852b855"
  else if data = encodeUtf8 "one\n".toList then
    "2c8b08da5ce60398e1f19af0e5dccc744df274b826abe585eaba68c525434806"
  else if data = encodeUtf8 "two\n".toList then
    "27dd8ed44a83ff94d557f9fd0412ed5a8cbca69ea04922d88c01184a07300a5a"
  else ""

/-- A snapshot of at most one file. -/
def sampleSnapshot : Option String → WorkspaceSnapshot
  | none => ⟨∅, portable_empty⟩
  | some text => ⟨(∅ : Dict String SnapshotValue).set "a.txt" (.inline (encodeUtf8 text.toList)),
      fun name h => by
        obtain rfl : name = "a.txt" := List.mem_singleton.mp h
        decide⟩

theorem sampleSnapshot_absent {name : String} (h : name ≠ "a.txt") (text : String) :
    (sampleSnapshot (some text)).contents.get? name = none := by
  rw [contents_get?]
  simp [sampleSnapshot, Dict.get?_set, h]

/-- A line feed ends both lines of the change from `one` to `two`. -/
theorem sample_hunksAtFeeds : HunksAtFeeds (sampleSnapshot "one\n") (sampleSnapshot "two\n") := by
  intro name hname s t hs ht
  by_cases h : name = "a.txt"
  · subst h
    have hs' : s = "one\n".toList := (Option.some.inj (hs.symm.trans (decodeUtf8_encodeUtf8 _)))
    have ht' : t = "two\n".toList := (Option.some.inj (ht.symm.trans (decodeUtf8_encodeUtf8 _)))
    rw [hs', ht']
    decide
  · exact absurd ((sampleSnapshot_absent h _).trans (sampleSnapshot_absent h _).symm) hname

/-- A changed line is reproduced. -/
theorem patch_reproduces_iff_sample :
    ∃ patch, buildWorkspacePatch sampleSha256 (sampleSnapshot "one\n") (sampleSnapshot "two\n") 4096 =
        .ok patch ∧
      (Reproduces patch (sampleSnapshot "one\n") (sampleSnapshot "two\n") ↔
        NoEmptyChange (sampleSnapshot "one\n") (sampleSnapshot "two\n")) := by
  have hbuild : buildWorkspacePatch sampleSha256 (sampleSnapshot "one\n") (sampleSnapshot "two\n")
      4096 = .ok _ := rfl
  exact ⟨_, hbuild, patch_reproduces_iff (by decide) sample_hunksAtFeeds hbuild⟩

/-- An added empty file prints nothing, and so the patch does not add it. -/
theorem added_empty_file_lost :
    buildWorkspacePatch sampleSha256 (sampleSnapshot none) (sampleSnapshot (some "")) 4096 = .ok [] ∧
      ¬Reproduces [] (sampleSnapshot none) (sampleSnapshot (some "")) := by
  refine ⟨by decide +kernel, ?_⟩
  rintro ⟨m, hm, hfinal⟩
  obtain rfl : (sampleSnapshot none).contents = m := Option.some.inj hm
  have hname := hfinal "a.txt"
  revert hname
  decide

/-- A lone carriage return makes the hunk count more lines than the file has. -/
example : ¬CountedAtFeeds "a\rb\n".toList "a\rc\n".toList := by decide

end LilTweak.Evidence
