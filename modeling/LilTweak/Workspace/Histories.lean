import LilTweak.Workspace.Methods
import Mathlib

/-!
# The records of a project and its objects

Over all runs of the workspace: a record is only replaced by what a call computed from it, and while
revisions are safe integers each is one more than the last; where no insertion of a project with
attachments commits and throws, every listed attachment has its object.
-/

namespace LilTweak.Workspace

open LilTweak.Lib

variable {P : Platform} {start : Stores} {events : List Event} {w : System}

/-- Stores no call has touched: the identifiers of rows and attachments are as they are made. -/
structure Stores.Untouched (s : Stores) : Prop where
  rows : ∀ id row, s.rows.get? id = some row → row.record.id = id ∧ validId "project" id = true ∧ row.older = []
  attachments : ∀ id row, s.rows.get? id = some row → ∀ a ∈ row.record.attachments, validId "attachment" a.id = true
  drawn : s.drawn = ∅

theorem Stores.Untouched.sound {follows : Prop} (h : start.Untouched)
    (hfiled : follows → ∀ id row, start.rows.get? id = some row → ∀ a ∈ row.record.attachments, start.Filed P id a) :
    start.Sound P follows := by
  refine ⟨?_, ?_, hfiled⟩
  · intro id row hrow
    obtain ⟨hnamed, hid, holder⟩ := h.rows id row hrow
    refine ⟨hnamed, validId_no_slash (by decide) hid, ?_, ?_⟩
    · exact fun a ha => validId_no_slash (by decide) (h.attachments id row hrow a ha)
    · unfold Chained Row.history
      rw [holder]
      exact .singleton _
  · intro x call hx
    rw [h.drawn] at hx
    cases hx

/-- The step is no insertion of a project with attachments that commits and throws. -/
def Unambiguous (w : System) : Event → Prop
  | .resume n c => ∀ owner p k, w.runs.get? n = some (.ask (.insert owner p) k) → p.attachments ≠ [] →
      c.fault ≠ some .after
  | _ => True

theorem permitted {follows : Prop} {w' : System} {e : Event} (h : System.Step P w e w')
    (hclear : follows → Unambiguous w e) : Sharing.PermittedStep (permit follows) (works P) w e w' := by
  refine ⟨?_, h.2⟩
  cases e with
  | start n call => exact h.1
  | resume n c =>
    intro q k hrun hf owner p hq
    subst hq
    exact hclear hf owner p k hrun
  | crash n => trivial
  | outside e => trivial

/-! ## Records -/

/-- Safe revisions grow by one. -/
theorem Chained.revisions {row : Row} (h : Chained P row)
    (hsafe : ∀ record ∈ row.older, record.revision ≤ maxSafeInteger) :
    row.history.IsChain fun new old => new.revision = old.revision + 1 := by
  have hall : ∀ {record : ProjectDocument} {older : List ProjectDocument},
      (record :: older).IsChain (fun new old => ∃ request, Computes P old request new) →
      (∀ record ∈ older, record.revision ≤ maxSafeInteger) →
      (record :: older).IsChain fun new old => new.revision = old.revision + 1 := by
    intro record older
    induction older generalizing record with
    | nil => exact fun _ _ => .singleton _
    | cons old rest ih =>
      intro hchain hsafe
      cases hchain with
      | cons_cons hfirst hrest =>
        obtain ⟨request, hcomputes⟩ := hfirst
        refine .cons_cons ?_ (ih hrest fun r hr => hsafe r (List.mem_cons_of_mem _ hr))
        have hrevision := hcomputes.grows.2.1
        unfold readRevision at hrevision
        rwa [if_pos (hsafe old List.mem_cons_self)] at hrevision
  exact hall h hsafe

/-- No record with a growing revision comes back. -/
theorem growing_pairwise {records : List ProjectDocument}
    (h : records.IsChain fun new old => new.revision = old.revision + 1) :
    records.Pairwise fun new old => old.revision < new.revision := by
  have hlt : records.IsChain fun new old : ProjectDocument => old.revision < new.revision :=
    h.imp fun new old hone => by omega
  have htrans : IsTrans ProjectDocument fun new old => old.revision < new.revision :=
    ⟨fun a b c hab hbc => hbc.trans hab⟩
  exact hlt.pairwise

/-- A step that changes a row answers an update that expects its record, and puts its record before
the others. -/
theorem step_row {w' : System} {e : Event} (h : System.Step P w e w') {id : JsString} {row row' : Row}
    (hrow : w.state.rows.get? id = some row) (hrow' : w'.state.rows.get? id = some row') (hne : row' ≠ row) :
    row'.older = row.history ∧ ∃ n c owner k, e = .resume n c ∧
      w.runs.get? n = some (.ask (.update owner row'.record row.record) k) := by
  have hsame : w'.state = w.state → row' = row := by
    intro hs
    rw [hs, hrow] at hrow'
    exact (Option.some.inj hrow').symm
  obtain ⟨_, h⟩ := h
  cases e with
  | start n call =>
    simp only [Pool.Step, Pool.step?] at h
    split at h
    · cases h
    · obtain rfl := Option.some.inj h
      exact absurd (hsame rfl) hne
  | crash n =>
    obtain rfl := Option.some.inj h
    exact absurd (hsame rfl) hne
  | outside e => exact e.elim
  | resume n c =>
    simp only [Pool.Step, Pool.step?] at h
    split at h
    case h_2 => cases h
    next q k hrun =>
    obtain rfl := Option.some.inj h
    have hserve : (w.state.perform c q).2 = w.state ∨ (w.state.perform c q).2 = (w.state.serve c q).2 := by
      unfold Stores.perform
      split
      · exact .inr rfl
      · exact .inl rfl
      · exact .inr rfl
    rcases hserve with hserve | hserve
    · exact absurd (hsame hserve) hne
    have hget : (w.state.serve c q).2.rows.get? id = some row' := hserve ▸ hrow'
    have hkept : (w.state.serve c q).2.rows = w.state.rows → row' = row := by
      intro hrows
      rw [hrows, hrow] at hget
      exact (Option.some.inj hget).symm
    cases q with
    | newId call kind =>
      refine absurd (hkept ?_) hne
      simp only [Stores.serve]
      split
      · rfl
      · rfl
    | insert owner p =>
      simp only [Stores.serve] at hget
      split at hget
      · rw [hrow] at hget
        exact absurd (Option.some.inj hget).symm hne
      · next hfree =>
        rw [Dict.get?_set] at hget
        split at hget
        · next hid =>
          rw [hid, hfree] at hrow
          cases hrow
        · rw [hrow] at hget
          exact absurd (Option.some.inj hget).symm hne
    | update owner p expected =>
      simp only [Stores.serve] at hget
      split at hget
      · next old hold =>
        split at hget
        · next hmatch =>
          rw [Dict.get?_set] at hget
          split at hget
          · next hid =>
            rw [hid, hold] at hrow
            obtain rfl := Option.some.inj hrow
            obtain rfl := Option.some.inj hget
            obtain ⟨_, rfl⟩ := hmatch
            exact ⟨rfl, n, c, owner, k, rfl, hrun⟩
          · rw [hrow] at hget
            exact absurd (Option.some.inj hget).symm hne
        · rw [hrow] at hget
          exact absurd (Option.some.inj hget).symm hne
      · rw [hrow] at hget
        exact absurd (Option.some.inj hget).symm hne
    | _ => exact absurd (hkept rfl) hne

/-- However calls of the workspace interleave and wherever the database fails: every stored record was
computed by a request from the one before it; while the records replaced had safe revisions, each
revision is one more than the last, and no record comes back; a step replaces the record its call
expects, as it is at that moment; and a call that returned has its change in the history. -/
theorem records_chained (hstart : start.Untouched) (h : Run (System.Step P) { state := start } events w) :
    (∀ id row, w.state.rows.get? id = some row → Chained P row ∧
      ((∀ record ∈ row.older, record.revision ≤ maxSafeInteger) →
        (row.history.IsChain fun new old => new.revision = old.revision + 1) ∧
          row.history.Pairwise fun new old => old.revision < new.revision)) ∧
    (∀ e w' id row row', System.Step P w e w' → w.state.rows.get? id = some row →
      w'.state.rows.get? id = some row' → row' ≠ row → row'.older = row.history ∧
        ∃ n c owner k, e = .resume n c ∧ w.runs.get? n = some (.ask (.update owner row'.record row.record) k)) ∧
    ∀ n call p, w.runs.get? n = some (.done (call, .ok p)) → Returned P (call, .ok p) w.state := by
  have hsound : start.Sound P False := hstart.sound False.elim
  have hrun := h.mono fun s e t (hstep : System.Step P s e t) => permitted hstep False.elim
  obtain ⟨hreached, _, hsafe⟩ := Sharing.run_safe (works_hosts P False) hrun hsound (Sharing.safe_start start)
  refine ⟨?_, ?_, ?_⟩
  · intro id row hrow
    have hchained := (hreached.rows id row hrow).chained
    refine ⟨hchained, fun hrevisions => ?_⟩
    have hgrow := hchained.revisions hrevisions
    exact ⟨hgrow, growing_pairwise hgrow⟩
  · exact fun e w' id row row' hstep hrow hrow' hne => step_row hstep hrow hrow' hne
  · exact fun n call p hn => hsafe.returned hn

/-! ### A project at the last safe revision -/

theorem run_numbered {s : System} (h : Run (Pool.Step (works P)) s events w) (hevents : ∀ e ∈ events, Numbered e) :
    Run (System.Step P) s events w := by
  induction h with
  | nil s => exact .nil s
  | cons hstep _ ih =>
    exact .cons ⟨hevents _ List.mem_cons_self, hstep⟩ (ih fun e he => hevents e (List.mem_cons_of_mem _ he))

/-- `localeCompare` on the keys of the sample. -/
def sampleBefore : JsString → JsString → Bool
  | [], _ => true
  | _ :: _, [] => false
  | a :: s, b :: t => if a.val < b.val then true else if b.val < a.val then false else sampleBefore s t

/-- The digest of the sample's attachment. -/
def sampleSha256 : String := "ca978112ca1bbdcafac231b39a23dc4da786eff8147c4e72b9807785afee48bb"

/-- The digest of the sample's export. -/
def sampleExportSha256 : String := "b9fd5b7867acd11b1e7be69fdac74fe83728f8a580919e057bfc2eb08e840786"

def samplePlatform : Platform where
  dateParse _ := none
  toISOString _ := []
  numberText x := JsString.ofText (toString x.num.toNat)
  sha256 bytes := JsString.ofText (if bytes = [97] then sampleSha256 else sampleExportSha256)
  localeBefore := sampleBefore

def sampleProjectId : JsString := JsString.ofText "project:00000000000000000000000000000000"

/-- A project at this revision. -/
def sampleRecord (revision : Nat) : ProjectDocument where
  id := sampleProjectId
  revision := revision
  name := JsString.ofText "Demo"
  description := []
  status := .planned
  requirements := []
  milestones := []
  board := []
  notes := []
  attachments := []
  createdAt := JsString.ofText "2026-08-13T12:00:00.000Z"
  updatedAt := JsString.ofText "2026-08-13T12:00:00.000Z"

def sampleStart (revision : Nat) : Stores where
  rows := (∅ : Dict JsString Row).set sampleProjectId ⟨JsString.ofText "owner", sampleRecord revision, []⟩

theorem sampleStart_untouched (revision : Nat) : (sampleStart revision).Untouched := by
  have hrow : ∀ id row, (sampleStart revision).rows.get? id = some row →
      id = sampleProjectId ∧ row = ⟨JsString.ofText "owner", sampleRecord revision, []⟩ := by
    intro id row h
    have hget := Dict.get?_set (∅ : Dict JsString Row) sampleProjectId id
      ⟨JsString.ofText "owner", sampleRecord revision, []⟩
    rw [show (sampleStart revision).rows.get? id = _ from hget] at h
    split at h
    · next hid => exact ⟨hid, (Option.some.inj h).symm⟩
    · cases h
  refine ⟨?_, ?_, rfl⟩
  · intro id row h
    obtain ⟨rfl, rfl⟩ := hrow id row h
    exact ⟨rfl, by decide +kernel, rfl⟩
  · intro id row h a ha
    obtain ⟨_, rfl⟩ := hrow id row h
    cases ha

/-- The project is renamed, by a call that expects this revision. -/
def sampleUpdate (n : Nat) (revision : Nat) : List Event :=
  [.start n ⟨n, .updateProject (JsString.ofText "owner") sampleProjectId (.object [("name", .text "Renamed")]) revision⟩,
    .resume n {}, .resume n { now := JsString.ofText "2026-08-13T12:00:01.000Z" }, .resume n {}]

/-- The revisions of a row, the latest first. -/
def revisions (s : Stores) : Option (List Nat) :=
  (s.rows.get? sampleProjectId).map fun row => row.history.map ProjectDocument.revision

theorem sampleUpdate_revisions :
    (Pool.run? (works samplePlatform) ({ state := sampleStart 1 } : System) (sampleUpdate 0 1)).map
      (fun w => revisions w.state) = some (some [2, 1]) := by
  decide +kernel

theorem records_chained_renamed : ∃ w row,
    Run (System.Step samplePlatform) { state := sampleStart 1 } (sampleUpdate 0 1) w ∧
    w.state.rows.get? sampleProjectId = some row ∧ row.history.map ProjectDocument.revision = [2, 1] ∧
    row.history.Pairwise fun new old => old.revision < new.revision := by
  obtain ⟨w, hw, hrevisions⟩ := Option.map_eq_some_iff.mp sampleUpdate_revisions
  obtain ⟨row, hrow, hhistory⟩ := Option.map_eq_some_iff.mp hrevisions
  have hnumbered : ∀ e ∈ sampleUpdate 0 1, Numbered e := by
    intro e he
    simp only [sampleUpdate, List.mem_cons, List.not_mem_nil, or_false] at he
    rcases he with rfl | rfl | rfl | rfl
    · rfl
    · trivial
    · trivial
    · trivial
  have hrun := run_numbered (Pool.run?_run hw) hnumbered
  have hsafe : ∀ record ∈ row.older, record.revision ≤ maxSafeInteger := by
    intro record hrecord
    have hmem : record.revision ∈ [2, 1] :=
      hhistory ▸ List.mem_map_of_mem (List.mem_cons_of_mem _ hrecord)
    have hsmall : ∀ n ∈ [2, 1], n ≤ maxSafeInteger := by decide
    exact hsmall _ hmem
  have hchained := (records_chained (sampleStart_untouched 1) hrun).1 sampleProjectId row hrow
  exact ⟨w, row, hrun, hrow, hhistory, (hchained.2 hsafe).2⟩

theorem sampleUpdate_wraps :
    (Pool.run? (works samplePlatform) ({ state := sampleStart maxSafeInteger } : System)
      (sampleUpdate 0 maxSafeInteger ++ sampleUpdate 1 0)).map (fun w => revisions w.state) =
      some (some [1, 9007199254740992, 9007199254740991]) := by
  decide +kernel

/-- After the last safe revision the next one is read as zero, and the revision after it is one. -/
theorem revision_wraps : ∃ w row, Run (System.Step samplePlatform) { state := sampleStart maxSafeInteger }
      (sampleUpdate 0 maxSafeInteger ++ sampleUpdate 1 0) w ∧ w.state.rows.get? sampleProjectId = some row ∧
    ¬row.history.IsChain fun new old => new.revision = old.revision + 1 := by
  obtain ⟨w, hw, hrevisions⟩ := Option.map_eq_some_iff.mp sampleUpdate_wraps
  obtain ⟨row, hrow, hhistory⟩ := Option.map_eq_some_iff.mp hrevisions
  have hnumbered : ∀ e ∈ sampleUpdate 0 maxSafeInteger ++ sampleUpdate 1 0, Numbered e := by
    intro e he
    simp only [sampleUpdate, List.cons_append, List.nil_append, List.mem_cons, List.not_mem_nil, or_false] at he
    rcases he with rfl | rfl | rfl | rfl | rfl | rfl | rfl | rfl
    · rfl
    · trivial
    · trivial
    · trivial
    · rfl
    · trivial
    · trivial
    · trivial
  refine ⟨w, row, run_numbered (Pool.run?_run hw) hnumbered, hrow, fun hchain => ?_⟩
  have hmap := (List.isChain_map (R := fun new old => new = old + 1) ProjectDocument.revision).mpr hchain
  rw [hhistory] at hmap
  cases hmap with
  | cons_cons h _ => exact absurd h (by decide)

/-! ## Objects -/

/-- In runs whose steps are all unambiguous every listed attachment has its object, of the size and the
digest it lists, and no deletion is asked for that of a listed attachment. -/
theorem attachments_filed (hstart : start.Untouched)
    (hfiled : ∀ id row, start.rows.get? id = some row → ∀ a ∈ row.record.attachments, start.Filed P id a)
    (h : Run (fun w e w' => System.Step P w e w' ∧ Unambiguous w e) { state := start } events w) :
    (∀ id row, w.state.rows.get? id = some row → ∀ a ∈ row.record.attachments, w.state.Filed P id a) ∧
    ∀ n key k, w.runs.get? n = some (.ask (.delete key) k) →
      ∀ id row, w.state.rows.get? id = some row → ∀ a ∈ row.record.attachments, attachmentKey id a.id ≠ key := by
  have hsound : start.Sound P True := hstart.sound fun _ => hfiled
  have hrun := h.mono fun s e t (hstep : System.Step P s e t ∧ Unambiguous s e) =>
    permitted hstep.1 fun _ : True => hstep.2
  obtain ⟨hreached, _, hsafe⟩ := Sharing.run_safe (works_hosts P True) hrun hsound (Sharing.safe_start start)
  refine ⟨hreached.filed trivial, ?_⟩
  intro n key k hn
  have hguard := (hsafe n _ hn _ (((sharing P True).protocol n).refl _)).1
  exact ((hguard trivial).apart hreached).1

/-! ### An import whose insertion is lost -/

def sampleAttachmentId : String := "attachment:00000000000000000000000000000000"

/-- An export of a project with one attachment of one byte. -/
def sampleExport : Value :=
  .object [("schema_version", .str exportSchema),
    ("project", .object [("name", .text "Demo"), ("attachments", .arr [.object [("id", .text sampleAttachmentId),
      ("filename", .text "a.txt"), ("media_type", .text "text/plain"), ("size_bytes", .num 1),
      ("sha256", .text sampleSha256)]])]),
    ("attachment_content", .object [(sampleAttachmentId, .text "YQ==")]),
    ("export_sha256", .text sampleExportSha256)]

/-- The export is imported; the insertion goes as `insert` says. -/
def sampleImport (insert : Choice) : List Event :=
  [.start 0 ⟨0, .importProject (JsString.ofText "owner") sampleExport⟩, .resume 0 {}, .resume 0 {}, .resume 0 {},
    .resume 0 insert]

/-- The listed attachments that have an object, and those that have none. -/
def filedCounts (s : Stores) : Nat × Nat :=
  let listed := s.rows.entries.flatMap fun e => e.2.record.attachments.map fun a => attachmentKey e.1 a.id
  (listed.countP fun key => (s.objects.get? key).isSome, listed.countP fun key => (s.objects.get? key).isNone)

-- The texts of the run are taken apart first: the kernel would decode the bytes of each literal.
theorem sampleImport_filed :
    (Pool.run? (works samplePlatform) ({ state := {} } : System) (sampleImport {})).map
      (fun w => filedCounts w.state) = some (1, 0) := by
  unfold sampleImport sampleExport samplePlatform sampleSha256 sampleExportSha256 sampleAttachmentId Value.text JsString.ofText
  simp only [apply_ite String.toList, -String.reduceToList]
  repeat rw [String.toList_ofList]
  decide +kernel

theorem sampleImport_numbered (insert : Choice) : ∀ e ∈ sampleImport insert, Numbered e := by
  intro e he
  simp only [sampleImport, List.mem_cons, List.not_mem_nil, or_false] at he
  rcases he with rfl | rfl | rfl | rfl | rfl
  · rfl
  · trivial
  · trivial
  · trivial
  · trivial

theorem untouched_empty : ({} : Stores).Untouched := by
  refine ⟨fun _ _ h => ?_, fun _ _ h => ?_, rfl⟩
  · cases h
  · cases h

/-- A run in which nothing fails after it was done. -/
theorem run_unambiguous {s : System} (h : Run (System.Step P) s events w)
    (hevents : ∀ n c, .resume n c ∈ events → c.fault ≠ some .after) :
    Run (fun w e w' => System.Step P w e w' ∧ Unambiguous w e) s events w := by
  induction h with
  | nil s => exact .nil s
  | @cons s t u e rest hstep _ ih =>
    refine .cons ⟨hstep, ?_⟩ (ih fun n c hc => hevents n c (List.mem_cons_of_mem _ hc))
    cases e with
    | resume n c => exact fun _ _ _ _ _ => hevents n c List.mem_cons_self
    | _ => trivial

theorem attachments_filed_import : ∃ w, Run (System.Step samplePlatform) { state := {} } (sampleImport {}) w ∧
    filedCounts w.state = (1, 0) ∧
    ∀ id row, w.state.rows.get? id = some row → ∀ a ∈ row.record.attachments, w.state.Filed samplePlatform id a := by
  obtain ⟨w, hw, hcounts⟩ := Option.map_eq_some_iff.mp sampleImport_filed
  have hrun := run_numbered (Pool.run?_run hw) (sampleImport_numbered {})
  have hclear : ∀ n c, .resume n c ∈ sampleImport {} → c.fault ≠ some .after := by
    intro n c hc
    simp only [sampleImport, List.mem_cons, List.not_mem_nil, or_false, reduceCtorEq, false_or,
      PoolEvent.resume.injEq] at hc
    rcases hc with ⟨_, rfl⟩ | ⟨_, rfl⟩ | ⟨_, rfl⟩ | ⟨_, rfl⟩ <;> decide
  exact ⟨w, hrun, hcounts, (attachments_filed untouched_empty (fun _ _ h => by cases h)
    (run_unambiguous hrun hclear)).1⟩

theorem sampleImport_lost :
    (Pool.run? (works samplePlatform) ({ state := {} } : System)
      (sampleImport { fault := some .after } ++ [.resume 0 {}])).map (fun w => filedCounts w.state) = some (0, 1) := by
  unfold sampleImport sampleExport samplePlatform sampleSha256 sampleExportSha256 sampleAttachmentId Value.text JsString.ofText
  simp only [apply_ite String.toList, -String.reduceToList]
  repeat rw [String.toList_ofList]
  decide +kernel

/-- The insertion commits and throws: the object of the imported project's attachment is deleted. -/
theorem import_loses_object : ∃ w id row a,
    Run (System.Step samplePlatform) { state := {} } (sampleImport { fault := some .after } ++ [.resume 0 {}]) w ∧
    w.state.rows.get? id = some row ∧ a ∈ row.record.attachments ∧ ¬w.state.Filed samplePlatform id a := by
  obtain ⟨w, hw, hcounts⟩ := Option.map_eq_some_iff.mp sampleImport_lost
  have hnumbered : ∀ e ∈ sampleImport { fault := some .after } ++ [.resume 0 {}], Numbered e := by
    intro e he
    rcases List.mem_append.mp he with he | he
    · exact sampleImport_numbered _ e he
    · rw [List.mem_singleton.mp he]
      trivial
  have hone : (filedCounts w.state).2 = 1 := congrArg Prod.snd hcounts
  have hmissing : 0 < (filedCounts w.state).2 := by omega
  obtain ⟨key, hkey, hnone⟩ := List.countP_pos_iff.mp hmissing
  obtain ⟨⟨id, row⟩, hentry, hkey⟩ := List.mem_flatMap.mp hkey
  obtain ⟨a, ha, rfl⟩ := List.mem_map.mp hkey
  refine ⟨w, id, row, a, run_numbered (Pool.run?_run hw) hnumbered, (Dict.mem_entries_iff _ _ _).mp hentry, ha, ?_⟩
  intro ⟨file, hfile, _⟩
  rw [hfile] at hnone
  cases hnone

end LilTweak.Workspace
