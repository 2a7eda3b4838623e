import LilTweak.Agent.EditJournal
import Mathlib

/-!
# The patches of one run

`_apply_patch` with its edit journal. What the file system, the sandbox and the parser of the patch answer
is given with the call; the journal is what a call makes of these answers.
-/

namespace LilTweak.Agent

open LilTweak.Core LilTweak.Worlds
open LilTweak.Evidence (Sha256)
open LilTweak.Recovery (Digest digestShape)

/-! ## What a call meets -/

/-- What another reading of a tree, or of its root, says against the first one. -/
inductive Binding
  | unreadable
  | changed
  | same

/-- The difference between the proposal and the candidate. -/
structure Delta where
  after : Digest
  changed : Finset String
  digest : Digest

/-- `workspace_changed_paths`. -/
def Delta.actual (d : Delta) : List String := sortedPaths d.changed

/-- How the recovery marker stands after the attempt to write it. -/
inductive MarkerEnd
  | written
  | absent
  | unclear

/-- How the two trees stand after the exchange: `prepared` is the layout before it, swept. -/
inductive ExchangeEnd
  | exchanged
  | prepared
  | unclear

/-- What a patch meets once the sandbox has returned, in the order in which it is asked. -/
structure StagedPatch where
  result : CommandResult
  lifecycleFailed : Bool
  unlinked : Bool
  candidateRoot : Binding
  compared : Option Delta
  proposal : Binding
  candidate : Binding
  hookRaised : Bool
  boundProposal : Binding
  boundCandidate : Binding
  marker : MarkerEnd
  exchange : ExchangeEnd
  verified : Bool
  cleaned : Bool

/-- How far a patch gets into the sandbox. -/
inductive Staging
  | raised
  | failed
  | staged (s : StagedPatch)

/-- A call of `apply_patch`. -/
structure PatchCall where
  /-- The sandbox is in order, the remnants are swept and the proposal is read. -/
  reconciled : Bool
  before : Digest
  patch : String
  /-- What `_declared_patch_paths` returns, unless it raises. -/
  declared : Option (Finset String)
  hasSandbox : Bool
  /-- What stands for the result when no observation is admitted. -/
  capacity : Option CommandResult
  staging : Staging
  /-- The candidate and the patch file are removed at the end. -/
  tidied : Bool

/-! ## What a call does -/

/-- What leaves `_apply_patch` as an exception. -/
inductive PatchRaised
  | unreconciled
  | recoveryRequired (message : String)
  | evidence (code : String)
  | other
deriving DecidableEq

/-- What a call answers. -/
structure PatchAnswer where
  result : CommandResult
  promoted : Bool
  rejectionCode : Option String

/-- What `WorkspaceTools` keeps about the patches. The calls of `_close_journal` are counted here only. -/
structure EditJournal where
  entries : List JournalEntry := []
  closed : Bool := false
  promotionCleanupFailed : Bool := false
  closings : Nat := 0

/-- `CommandResult(None, "", stderr)`. -/
def noResult (stderr : String) : CommandResult := { exitCode := none, stdout := "", stderr }

/-- The entry room is kept for. -/
def sentinel (ordinal : Nat) : JournalEntry :=
  { ordinal
    beforeSourceDigest := "0000000000000000000000000000000000000000000000000000000000000000"
    afterSourceDigest := "0000000000000000000000000000000000000000000000000000000000000000"
    actualChangedPaths := []
    deltaDigest := "0000000000000000000000000000000000000000000000000000000000000000"
    result := "rejected", exitCode := none, timedOut := false, truncated := false
    rejectionCode := some "edit_journal_capacity" }

namespace EditJournal

variable (sha256 : Sha256) (emptyDelta : Digest) (maxPatchBytes : Nat) (t : EditJournal)

/-- `_journal_entry`. -/
def journalEntry (before after : Digest) (actual : List String) (delta : Digest) (outcome : String)
    (result : CommandResult) (code : Option String) : JournalEntry :=
  { ordinal := t.entries.length
    beforeSourceDigest := before.text
    afterSourceDigest := after.text
    actualChangedPaths := actual
    deltaDigest := delta.text
    result := outcome
    exitCode := result.exitCode
    timedOut := result.timedOut
    truncated := result.truncated
    rejectionCode := code }

/-- `_check_journal_capacity`. -/
def checkJournalCapacity (entry : JournalEntry) : Except String Unit :=
  if t.closed then .error "edit_journal_capacity"
  else
    match buildEditJournalEvidence sha256 (t.entries ++ [entry, sentinel (t.entries.length + 1)]) with
    | .error code => .error code
    | .ok _ => .ok ()

/-- The largest entry a patch of these paths can leave. -/
def synthetic (before : Digest) (declared : Finset String) : JournalEntry :=
  { ordinal := t.entries.length
    beforeSourceDigest := before.text
    afterSourceDigest := "0000000000000000000000000000000000000000000000000000000000000000"
    actualChangedPaths := sortedPaths declared
    deltaDigest := "0000000000000000000000000000000000000000000000000000000000000000"
    result := "rejected"
    exitCode := some (-2147483648)
    timedOut := true
    truncated := true
    rejectionCode := some "xxxxxxxxxxxxxxxxxxxxxxxxxxxxxxxxxxxxxxxxxxxxxxxxxxxxxxxxxxxxxxxx" }

/-- `_journal_can_fit_declared`. -/
def journalCanFitDeclared (before : Digest) (declared : Finset String) : Bool :=
  (t.checkJournalCapacity sha256 (t.synthetic before declared)).isOk

/-- The entry `_close_journal` appends. -/
def closingEntry (before : Digest) : JournalEntry :=
  t.journalEntry before before [] emptyDelta "rejected" (noResult "edit_journal_capacity") (some "edit_journal_capacity")

/-- `_close_journal`. -/
def closeJournal (before : Digest) : EditJournal × Except PatchRaised PatchAnswer :=
  match buildEditJournalEvidence sha256 (t.entries ++ [t.closingEntry emptyDelta before]) with
  | .error code => ({ t with closings := t.closings + 1 }, .error (.evidence code))
  | .ok _ =>
    ({ t with entries := t.entries ++ [t.closingEntry emptyDelta before], closed := true, closings := t.closings + 1 },
      .ok { result := noResult "edit_journal_capacity", promoted := false, rejectionCode := some "edit_journal_capacity" })

/-- The entry `_reject_patch` appends. -/
def rejectedEntry (before : Digest) (code : String) (result : CommandResult) : Option Delta → JournalEntry
  | none => t.journalEntry before before [] emptyDelta "rejected" result (some code)
  | some d => t.journalEntry before d.after d.actual d.digest "rejected" result (some code)

/-- `_reject_patch`. -/
def rejectPatch (before : Digest) (code : String) (result : CommandResult) (delta : Option Delta) :
    EditJournal × Except PatchRaised PatchAnswer :=
  let entry := t.rejectedEntry emptyDelta before code result delta
  match t.checkJournalCapacity sha256 entry with
  | .error _ => t.closeJournal sha256 emptyDelta before
  | .ok () => ({ t with entries := t.entries ++ [entry] }, .ok { result, promoted := false, rejectionCode := some code })

/-- The entry of a promoted patch. -/
def promotedEntry (before : Digest) (d : Delta) (result : CommandResult) : JournalEntry :=
  t.journalEntry before d.after d.actual d.digest "promoted" result none

/-- The call from the capacity check of the promoted entry on. -/
def promote (before : Digest) (s : StagedPatch) (d : Delta) : EditJournal × Except PatchRaised PatchAnswer :=
  let entry := t.promotedEntry before d s.result
  match t.checkJournalCapacity sha256 entry with
  | .error code => (t, .error (.evidence code))
  | .ok () =>
    match s.marker with
    | .unclear => (t, .error (.recoveryRequired "patch_reconciliation_required"))
    | .absent => t.rejectPatch sha256 emptyDelta before "recovery_marker_failed" s.result (some d)
    | .written =>
      match s.exchange with
      | .unclear => (t, .error (.recoveryRequired "patch_reconciliation_required"))
      | .prepared => t.rejectPatch sha256 emptyDelta before "atomic_exchange_failed" s.result (some d)
      | .exchanged =>
        if s.verified = false then (t, .error (.recoveryRequired "patch_reconciliation_required"))
        else if s.cleaned = false then
          ({ t with entries := t.entries ++ [entry], promotionCleanupFailed := true },
            .error (.recoveryRequired "patch_reconciliation_required"))
        else
          ({ t with entries := t.entries ++ [entry] },
            .ok { result := s.result, promoted := true, rejectionCode := none })

/-- The call from the comparison of the two trees on. -/
def compare (before : Digest) (declared : Finset String) (s : StagedPatch) (d : Delta) :
    EditJournal × Except PatchRaised PatchAnswer :=
  if ¬ d.actual.toFinset ⊆ declared then
    t.rejectPatch sha256 emptyDelta before "undeclared_patch_delta" s.result (some d)
  else
    match s.proposal with
    | .unreadable => t.rejectPatch sha256 emptyDelta before "proposal_changed" s.result none
    | .changed => t.rejectPatch sha256 emptyDelta before "proposal_changed" s.result (some d)
    | .same =>
      match s.candidate with
      | .unreadable | .changed => t.rejectPatch sha256 emptyDelta before "candidate_changed" s.result none
      | .same =>
        if s.hookRaised then (t, .error .other)
        else
          match s.boundProposal with
          | .unreadable => t.rejectPatch sha256 emptyDelta before "proposal_changed" s.result none
          | .changed => t.rejectPatch sha256 emptyDelta before "proposal_changed" s.result (some d)
          | .same =>
            match s.boundCandidate with
            | .unreadable | .changed => t.rejectPatch sha256 emptyDelta before "candidate_changed" s.result none
            | .same => t.promote sha256 emptyDelta before s d

/-- The code of a result that is not a success. -/
def resultCode (result : CommandResult) : String :=
  if result.timedOut then "patch_timeout" else if result.truncated then "patch_output_limit" else "patch_exit_nonzero"

/-- The call from the return of the sandbox on. -/
def settle (before : Digest) (declared : Finset String) (s : StagedPatch) :
    EditJournal × Except PatchRaised PatchAnswer :=
  if s.lifecycleFailed then
    match t.rejectPatch sha256 emptyDelta before "sandbox_lifecycle_failed" s.result none with
    | (t', .error raised) => (t', .error raised)
    | (t', .ok _) => (t', .error (.recoveryRequired "patch_reconciliation_required"))
  else if s.unlinked = false then t.rejectPatch sha256 emptyDelta before "patch_cleanup_failed" s.result none
  else if s.result.exitCode ≠ some 0 ∨ s.result.timedOut ∨ s.result.truncated then
    t.rejectPatch sha256 emptyDelta before (resultCode s.result) s.result none
  else
    match s.candidateRoot with
    | .unreadable => t.rejectPatch sha256 emptyDelta before "candidate_invalid" s.result none
    | .changed => t.rejectPatch sha256 emptyDelta before "candidate_root_changed" s.result none
    | .same =>
      match s.compared with
      | none => t.rejectPatch sha256 emptyDelta before "candidate_invalid" s.result none
      | some d => t.compare sha256 emptyDelta before declared s d

/-- The `finally` of a staged call. -/
def tidy (tidied : Bool) (out : EditJournal × Except PatchRaised PatchAnswer) :
    EditJournal × Except PatchRaised PatchAnswer :=
  if tidied then out
  else ({ out.1 with promotionCleanupFailed := true }, .error (.recoveryRequired "patch_cleanup_failed"))

/-- The call from the admission of its observation on. -/
def stage (before : Digest) (declared : Finset String) (call : PatchCall) :
    EditJournal × Except PatchRaised PatchAnswer :=
  if t.journalCanFitDeclared sha256 before declared = false then t.closeJournal sha256 emptyDelta before
  else
    match call.staging with
    | .raised => tidy call.tidied (t, .error .other)
    | .failed => tidy call.tidied (t.rejectPatch sha256 emptyDelta before "patch_staging_failed" (noResult "") none)
    | .staged s => tidy call.tidied (t.settle sha256 emptyDelta before declared s)

/-- `_apply_patch`. -/
def applyPatch (call : PatchCall) : EditJournal × Except PatchRaised PatchAnswer :=
  if t.promotionCleanupFailed then (t, .error (.recoveryRequired "patch_reconciliation_required"))
  else if call.reconciled = false then (t, .error .unreconciled)
  else if t.closed then
    (t, .ok { result := noResult "edit_journal_capacity", promoted := false, rejectionCode := some "edit_journal_capacity" })
  else if call.patch = "" ∨ maxPatchBytes < call.patch.utf8ByteSize then
    t.rejectPatch sha256 emptyDelta call.before "invalid_patch" (noResult "") none
  else
    match call.declared with
    | none => t.rejectPatch sha256 emptyDelta call.before "invalid_patch_declaration" (noResult "") none
    | some declared =>
      if call.hasSandbox = false then
        t.rejectPatch sha256 emptyDelta call.before "sandbox_unavailable" (noResult "") none
      else
        match call.capacity with
        | some capacity => t.rejectPatch sha256 emptyDelta call.before "observation_capacity" capacity none
        | none => t.stage sha256 emptyDelta call.before declared call

/-- The calls of a run, and what each of them came to. -/
def applyPatches (t : EditJournal) : List PatchCall → EditJournal × List (Except PatchRaised PatchAnswer)
  | [] => (t, [])
  | call :: calls =>
    let (t', answer) := t.applyPatch sha256 emptyDelta maxPatchBytes call
    let (last, answers) := applyPatches t' calls
    (last, answer :: answers)

/-! ## Room -/

/-- The journal is accepted, there is room for the entry that closes it, and it is closed at most once. -/
structure Kept : Prop where
  accepted : Acceptable t.entries
  room : t.closed = false → Acceptable (t.entries ++ [sentinel t.entries.length])
  closings : t.closings = if t.closed then 1 else 0

theorem acceptable_sentinel : Acceptable [sentinel 0] := by
  constructor
  · decide
  · rfl
  · decide +kernel
  · decide
  · decide +kernel

theorem kept_empty : Kept {} where
  accepted := acceptable_sentinel.front (l := [])
  room := fun _ => acceptable_sentinel
  closings := rfl

theorem checkJournalCapacity_ok_iff (entry : JournalEntry) :
    t.checkJournalCapacity sha256 entry = .ok () ↔
      t.closed = false ∧ Acceptable (t.entries ++ [entry, sentinel (t.entries.length + 1)]) := by
  have hbuild := buildEditJournalEvidence_ok_iff sha256 (t.entries ++ [entry, sentinel (t.entries.length + 1)])
  unfold checkJournalCapacity
  split
  · next hclosed => simp [hclosed]
  · next hopen =>
    rw [← hbuild]
    split
    · next h => simp [h, Except.isOk, Except.toBool]
    · next h => simp [h, hopen, Except.isOk, Except.toBool]

theorem sorted_pathsSorted (e : JournalEntry) (s : Finset String) (h : e.actualChangedPaths = sortedPaths s) :
    e.pathsSorted = true := by
  rw [JournalEntry.pathsSorted, h, sortedPaths, Finset.sort_toFinset]
  exact beq_self_eq_true _

/-- The entry that closes the journal takes the room of the sentinel. -/
theorem size_closingEntry (before : Digest) :
    (t.closingEntry emptyDelta before).dumps.utf8ByteSize = (sentinel t.entries.length).dumps.utf8ByteSize := by
  have hzero : (Json.quote "0000000000000000000000000000000000000000000000000000000000000000").utf8ByteSize = 66 :=
    JournalEntry.size_quote_digest (by decide)
  have hbefore := JournalEntry.size_quote_digest before.shaped
  have hdelta := JournalEntry.size_quote_digest emptyDelta.shaped
  rw [JournalEntry.size_dumps, JournalEntry.size_dumps]
  simp only [JournalEntry.valueTexts, closingEntry, journalEntry, sentinel, noResult, List.map_cons, List.sum_cons,
    hbefore, hdelta, hzero]

theorem valid_closingEntry (before : Digest) :
    (t.closingEntry emptyDelta before).pathsSorted = true ∧ (t.closingEntry emptyDelta before).fieldsValid = true := by
  refine ⟨sorted_pathsSorted _ ∅ (Finset.sort_empty _).symm, ?_⟩
  simp only [JournalEntry.fieldsValid, closingEntry, journalEntry, before.shaped, emptyDelta.shaped, Bool.and_self,
    Bool.and_true, Option.all_some]
  decide

/-- The room of the sentinel is room for the entry that closes the journal. -/
theorem acceptable_closing {t : EditJournal} (h : Acceptable (t.entries ++ [sentinel t.entries.length]))
    (before : Digest) : Acceptable (t.entries ++ [t.closingEntry emptyDelta before]) :=
  h.replace rfl (valid_closingEntry emptyDelta t before) (Nat.le_refl 0) (size_closingEntry emptyDelta t before).le

/-- No entry of a promoted patch takes more room than the one its declaration was checked with. -/
theorem size_promotedEntry (before : Digest) (d : Delta) (result : CommandResult) {declared : Finset String}
    (hsub : d.changed ⊆ declared) (hexit : result.exitCode = some 0) :
    (t.promotedEntry before d result).dumps.utf8ByteSize ≤ (t.synthetic before declared).dumps.utf8ByteSize := by
  have hzero : (Json.quote "0000000000000000000000000000000000000000000000000000000000000000").utf8ByteSize = 66 :=
    JournalEntry.size_quote_digest (by decide)
  have hafter := JournalEntry.size_quote_digest d.after.shaped
  have hdelta := JournalEntry.size_quote_digest d.digest.shaped
  have hpaths := JournalEntry.pathsText_mono hsub
  have hbool : ∀ b : Bool, (Json.dumps (fun _ => "") (.bool b)).utf8ByteSize ≤ 5 ∧
      4 ≤ (Json.dumps (fun _ => "") (.bool b)).utf8ByteSize := by decide
  have htimed := (hbool result.timedOut).1
  have htruncated := (hbool result.truncated).1
  have htrue := (hbool true).2
  have hcode : (Json.dumps (fun _ => "") (.str
      "xxxxxxxxxxxxxxxxxxxxxxxxxxxxxxxxxxxxxxxxxxxxxxxxxxxxxxxxxxxxxxxx")).utf8ByteSize = 66 := by decide +kernel
  have hnull : (Json.dumps (fun _ => "") .null).utf8ByteSize = 4 := by decide
  have hleast : (Json.dumps (fun _ => "") (.int (-2147483648))).utf8ByteSize = 11 := by decide +kernel
  have hnone : (Json.dumps (fun _ => "") (.int 0)).utf8ByteSize = 1 := by decide +kernel
  have hresult : (Json.quote "promoted").utf8ByteSize = (Json.quote "rejected").utf8ByteSize := by decide
  rw [JournalEntry.size_dumps, JournalEntry.size_dumps]
  simp only [JournalEntry.valueTexts, promotedEntry, synthetic, journalEntry, Delta.actual, List.map_cons, List.map_nil,
    List.sum_cons, List.sum_nil, Option.elim_some, Option.elim_none, hexit, hzero, hafter, hdelta, hcode, hnull, hleast,
    hnone, hresult]
  omega

/-- Where a declaration was let through, the entry of the promoted patch is. -/
theorem fits_promoted {before : Digest} {declared : Finset String}
    (hfit : t.journalCanFitDeclared sha256 before declared = true) (d : Delta) (result : CommandResult)
    (hsub : d.changed ⊆ declared) (hexit : result.exitCode = some 0) :
    t.checkJournalCapacity sha256 (t.promotedEntry before d result) = .ok () := by
  have hcheck : t.checkJournalCapacity sha256 (t.synthetic before declared) = .ok () := by
    unfold journalCanFitDeclared at hfit
    cases h : t.checkJournalCapacity sha256 (t.synthetic before declared) with
    | error code => simp [h, Except.isOk, Except.toBool] at hfit
    | ok u => rfl
  obtain ⟨hopen, hroom⟩ := (checkJournalCapacity_ok_iff sha256 t _).mp hcheck
  apply (checkJournalCapacity_ok_iff sha256 t _).mpr
  refine ⟨hopen, hroom.replace rfl ⟨sorted_pathsSorted _ d.changed rfl, ?_⟩ ?_
    (size_promotedEntry t before d result hsub hexit)⟩
  · simp only [JournalEntry.fieldsValid, promotedEntry, journalEntry, before.shaped, d.after.shaped, d.digest.shaped,
      Bool.and_self, Bool.and_true, Option.all_none]
    decide
  · simp only [promotedEntry, synthetic, journalEntry, Delta.actual, sortedPaths, Finset.length_sort]
    exact Finset.card_le_card hsub

/-! ## What a call keeps -/

/-- A call leaves a kept journal, and no refusal of the evidence. -/
def Sound (out : EditJournal × Except PatchRaised PatchAnswer) : Prop :=
  Kept out.1 ∧ ∀ code, out.2 ≠ .error (.evidence code)

variable {t}

theorem Kept.withFlag (h : Kept t) (b : Bool) : Kept { t with promotionCleanupFailed := b } :=
  ⟨h.accepted, h.room, h.closings⟩

/-- An entry that passed the capacity check leaves room behind it. -/
theorem Kept.append (h : Kept t) {entry : JournalEntry} (hfits : t.checkJournalCapacity sha256 entry = .ok ()) :
    Kept { t with entries := t.entries ++ [entry] } := by
  obtain ⟨hopen, hroom⟩ := (checkJournalCapacity_ok_iff sha256 t entry).mp hfits
  have hsplit : t.entries ++ [entry, sentinel (t.entries.length + 1)] =
      (t.entries ++ [entry]) ++ [sentinel (t.entries ++ [entry]).length] := by simp
  rw [hsplit] at hroom
  exact ⟨hroom.front, fun _ => hroom, h.closings⟩

theorem sound_closeJournal (h : Kept t) (hopen : t.closed = false) (before : Digest) :
    Sound (t.closeJournal sha256 emptyDelta before) := by
  have hroom := acceptable_closing emptyDelta (h.room hopen) before
  have hclosings : t.closings = 0 := by rw [h.closings, hopen]; rfl
  have hok := (buildEditJournalEvidence_ok_iff sha256 _).mpr hroom
  unfold closeJournal
  split
  · next code hbuild => simp [hbuild, Except.isOk, Except.toBool] at hok
  · refine ⟨⟨hroom, fun hclosed => absurd hclosed (by simp), ?_⟩, fun code hcode => by cases hcode⟩
    simp only [hclosings, if_true]

theorem sound_rejectPatch (h : Kept t) (hopen : t.closed = false) (before : Digest) (code : String)
    (result : CommandResult) (delta : Option Delta) :
    Sound (t.rejectPatch sha256 emptyDelta before code result delta) := by
  unfold rejectPatch
  dsimp only
  split
  · exact sound_closeJournal sha256 emptyDelta h hopen before
  · next hfits => exact ⟨h.append sha256 hfits, fun code hcode => by cases hcode⟩

/-- Where the room of the declaration is there, the check of the promoted entry does not fail. -/
theorem sound_promote (h : Kept t) {before : Digest} {s : StagedPatch} {d : Delta}
    (hfits : t.checkJournalCapacity sha256 (t.promotedEntry before d s.result) = .ok ()) :
    Sound (t.promote sha256 emptyDelta before s d) := by
  have hopen := ((checkJournalCapacity_ok_iff sha256 t _).mp hfits).1
  have hreject := fun code => sound_rejectPatch sha256 emptyDelta h hopen before code s.result (some d)
  have hlost : ∀ message, Sound (t, .error (.recoveryRequired message)) :=
    fun message => ⟨h, fun code hcode => by cases hcode⟩
  have happended := h.append sha256 hfits
  unfold promote
  dsimp only
  rw [hfits]
  dsimp only
  cases s.marker with
  | unclear => exact hlost _
  | absent => exact hreject _
  | written =>
    cases s.exchange with
    | unclear => exact hlost _
    | prepared => exact hreject _
    | exchanged =>
      dsimp only
      split
      · exact hlost _
      split
      · exact ⟨happended.withFlag true, fun code hcode => by cases hcode⟩
      · exact ⟨happended, fun code hcode => by cases hcode⟩

theorem sound_compare (h : Kept t) (hopen : t.closed = false) {before : Digest} {declared : Finset String}
    {s : StagedPatch} {d : Delta} (hfit : t.journalCanFitDeclared sha256 before declared = true)
    (hexit : s.result.exitCode = some 0) : Sound (t.compare sha256 emptyDelta before declared s d) := by
  have hreject := fun code delta => sound_rejectPatch sha256 emptyDelta h hopen before code s.result delta
  unfold compare
  split
  · exact hreject _ _
  next hsub =>
  rw [not_not, Delta.actual, sortedPaths, Finset.sort_toFinset] at hsub
  cases s.proposal with
  | unreadable => exact hreject _ _
  | changed => exact hreject _ _
  | same =>
    cases s.candidate with
    | unreadable => exact hreject _ _
    | changed => exact hreject _ _
    | same =>
      dsimp only
      split
      · exact ⟨h, fun code hcode => by cases hcode⟩
      cases s.boundProposal with
      | unreadable => exact hreject _ _
      | changed => exact hreject _ _
      | same =>
        cases s.boundCandidate with
        | unreadable => exact hreject _ _
        | changed => exact hreject _ _
        | same => exact sound_promote sha256 emptyDelta h (fits_promoted sha256 t hfit d s.result hsub hexit)

theorem sound_settle (h : Kept t) (hopen : t.closed = false) {before : Digest} {declared : Finset String}
    (s : StagedPatch) (hfit : t.journalCanFitDeclared sha256 before declared = true) :
    Sound (t.settle sha256 emptyDelta before declared s) := by
  have hreject := fun code delta => sound_rejectPatch sha256 emptyDelta h hopen before code s.result delta
  unfold settle
  split
  · have hlifecycle := hreject "sandbox_lifecycle_failed" none
    split
    · next t' raised hout => rwa [hout] at hlifecycle
    · next t' answer hout =>
      rw [hout] at hlifecycle
      exact ⟨hlifecycle.1, fun code hcode => by cases hcode⟩
  split
  · exact hreject _ _
  split
  · exact hreject _ _
  next hresult =>
  have hexit : s.result.exitCode = some 0 := by
    by_contra hexit
    exact hresult (.inl hexit)
  cases s.candidateRoot with
  | unreadable => exact hreject _ _
  | changed => exact hreject _ _
  | same =>
    cases s.compared with
    | none => exact hreject _ _
    | some d => exact sound_compare sha256 emptyDelta h hopen hfit hexit

theorem sound_tidy {out : EditJournal × Except PatchRaised PatchAnswer} (h : Sound out) (tidied : Bool) :
    Sound (tidy tidied out) := by
  unfold tidy
  split
  · exact h
  · exact ⟨h.1.withFlag true, fun code hcode => by cases hcode⟩

theorem sound_stage (h : Kept t) (hopen : t.closed = false) (before : Digest) (declared : Finset String)
    (call : PatchCall) : Sound (t.stage sha256 emptyDelta before declared call) := by
  unfold stage
  split
  · exact sound_closeJournal sha256 emptyDelta h hopen before
  next hfit =>
  rw [Bool.not_eq_false] at hfit
  cases call.staging with
  | raised => exact sound_tidy ⟨h, fun code hcode => by cases hcode⟩ _
  | failed => exact sound_tidy (sound_rejectPatch sha256 emptyDelta h hopen _ _ _ _) _
  | staged s => exact sound_tidy (sound_settle sha256 emptyDelta h hopen s hfit) _

/-- What one call keeps. -/
theorem sound_applyPatch (h : Kept t) (call : PatchCall) : Sound (t.applyPatch sha256 emptyDelta maxPatchBytes call) := by
  unfold applyPatch
  split
  · exact ⟨h, fun code hcode => by cases hcode⟩
  split
  · exact ⟨h, fun code hcode => by cases hcode⟩
  split
  · exact ⟨h, fun code hcode => by cases hcode⟩
  next hclosed =>
  have hopen : t.closed = false := by simpa using hclosed
  have hreject := fun code result => sound_rejectPatch sha256 emptyDelta h hopen call.before code result none
  split
  · exact hreject _ _
  cases call.declared with
  | none => exact hreject _ _
  | some declared =>
    dsimp only
    split
    · exact hreject _ _
    cases call.capacity with
    | some capacity => exact hreject _ _
    | none => exact sound_stage sha256 emptyDelta h hopen call.before declared call

/-- What a run of calls keeps. -/
theorem kept_applyPatches (h : Kept t) (calls : List PatchCall) :
    Kept (applyPatches sha256 emptyDelta maxPatchBytes t calls).1 ∧
    ∀ code, .error (.evidence code) ∉ (applyPatches sha256 emptyDelta maxPatchBytes t calls).2 := by
  induction calls generalizing t with
  | nil => exact ⟨h, fun code => List.not_mem_nil⟩
  | cons call calls ih =>
    obtain ⟨hkept, hraised⟩ := sound_applyPatch sha256 emptyDelta maxPatchBytes h call
    obtain ⟨hlast, hanswers⟩ := ih hkept
    refine ⟨hlast, fun code hmem => ?_⟩
    obtain heq | hmem := List.mem_cons.mp hmem
    · exact hraised code heq.symm
    · exact hanswers code hmem

/-- After any calls the journal passes the evidence, with room for the entry that closes it, which it does at most
once; the evidence refuses nothing in any call, and a promoted patch has room where its declaration had. -/
theorem edit_journal_kept (calls : List PatchCall) :
    let run := applyPatches sha256 emptyDelta maxPatchBytes {} calls
    (buildEditJournalEvidence sha256 run.1.entries).isOk = true ∧
    (run.1.closed = false → ∀ before,
      (buildEditJournalEvidence sha256 (run.1.entries ++ [run.1.closingEntry emptyDelta before])).isOk = true) ∧
    run.1.closings ≤ 1 ∧
    (∀ code, .error (.evidence code) ∉ run.2) ∧
    ∀ before declared d result, run.1.journalCanFitDeclared sha256 before declared = true → d.changed ⊆ declared →
      result.exitCode = some 0 → run.1.checkJournalCapacity sha256 (run.1.promotedEntry before d result) = .ok () := by
  obtain ⟨hkept, hraised⟩ := kept_applyPatches sha256 emptyDelta maxPatchBytes kept_empty calls
  refine ⟨(buildEditJournalEvidence_ok_iff sha256 _).mpr hkept.accepted, fun hopen before => ?_, ?_, hraised,
    fun before declared d result hfit hsub hexit => fits_promoted sha256 _ hfit d result hsub hexit⟩
  · exact (buildEditJournalEvidence_ok_iff sha256 _).mpr (acceptable_closing emptyDelta (hkept.room hopen) before)
  · rw [hkept.closings]
    split <;> omega

end EditJournal

end LilTweak.Agent
