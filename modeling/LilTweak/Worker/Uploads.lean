import LilTweak.Lib.Discipline
import LilTweak.Lib.Pool
import LilTweak.Worker.D1
import Mathlib

/-!
# The uploads of a job

`markSourceUploaded` as any number of calls run it: it reads the source, sends one batch, and reads
the source back. The five statements of the batch talk to each other through `uploaded_at` and
`revision_applied`, so that the batch counts a source once, whoever records it.
-/

namespace LilTweak.Worker.Uploads

open LilTweak.Lib

/-- A time in milliseconds; its ISO text is never empty. -/
abbrev Timestamp := Nat

/-- A row of `engineering_sources`, less the columns that never change. -/
structure SourceRow where
  etag : Option JsString := none
  sha256 : Option JsString := none
  uploadedAt : Option Timestamp := none
  revisionApplied : Bool := false
  deriving DecidableEq

/-- The audit events the batch writes. -/
inductive AuditEvent
  | sourceUploaded (id : JsString)
  | sourcesReady
  deriving DecidableEq

/-- The job, its sources and its audit events. -/
structure Tables where
  state : JobState
  summary : JsString
  revision : Nat
  sources : Dict JsString SourceRow
  events : List AuditEvent := []

namespace Tables

variable (t : Tables)

/-- The source is there and `uploaded_at` is set. -/
def uploaded (id : JsString) : Bool := (t.sources.get? id).any fun row => row.uploadedAt.isSome

/-- `EXISTS (… uploaded_at IS NULL)`. -/
def missing : Bool := t.sources.values.any fun row => row.uploadedAt.isNone

/-- `EXISTS (… id=? AND uploaded_at IS NOT NULL AND revision_applied=0)`. -/
def unapplied (id : JsString) : Bool :=
  (t.sources.get? id).any fun row => row.uploadedAt.isSome && !row.revisionApplied

/-- The first `UPDATE` of the source. -/
def recordUpload (id etag sha256 : JsString) (updatedAt : Timestamp) : Tables :=
  match t.sources.get? id with
  | some row =>
    if row.uploadedAt = none then
      let recorded := { row with etag := some etag, sha256 := some sha256, uploadedAt := some updatedAt }
      { t with sources := t.sources.set id recorded }
    else t
  | none => t

/-- The `UPDATE` of the job. -/
def updateJob (id : JsString) : Tables :=
  if t.state = .uploading ∧ t.unapplied id = true then
    { t with
      state := if t.missing then t.state else .queued
      summary := if t.missing then t.summary else JsString.ofText "Ready for secure dispatch."
      revision := t.revision + 1 }
  else t

/-- The `INSERT` of `source_uploaded`. -/
def insertUploaded (id : JsString) : Tables :=
  if t.unapplied id then { t with events := t.events ++ [.sourceUploaded id] } else t

/-- The `INSERT` of `sources_ready`. -/
def insertReady (id : JsString) : Tables :=
  if t.unapplied id = true ∧ t.missing = false then { t with events := t.events ++ [.sourcesReady] } else t

/-- The last `UPDATE` of the source. -/
def applyRevision (id : JsString) : Tables :=
  match t.sources.get? id with
  | some row =>
    if row.uploadedAt.isSome && !row.revisionApplied then
      let applied := { row with revisionApplied := true }
      { t with sources := t.sources.set id applied }
    else t
  | none => t

/-- The batch of `markSourceUploaded`. -/
def batch (id etag sha256 : JsString) (updatedAt : Timestamp) : Tables :=
  ((((t.recordUpload id etag sha256 updatedAt).updateJob id).insertUploaded id).insertReady id).applyRevision id

end Tables

/-! ## The calls -/

/-- A call of `markSourceUploaded`. -/
structure Call where
  sourceId : JsString
  etag : JsString
  sha256 : JsString

/-- `EngineeringJob`, as far as a call changes it. -/
structure JobView where
  state : JobState
  summary : JsString
  revision : Nat

inductive Query
  | source (id : JsString)
  | now
  | batch (id etag sha256 : JsString) (updatedAt : Timestamp)
  | job

def Query.Answer : Query → Type
  | source _ => Option SourceRow
  | now => Timestamp
  | batch .. => Unit
  | job => JobView

abbrev Method := Act Query Query.Answer Unit EngineeringError

/-- Ask a question. -/
def question (q : Query) : Method q.Answer := Act.query q

/-- `markSourceUploaded`. -/
def markSourceUploaded (call : Call) : Method JobView := do
  let source : Option SourceRow ← question (.source call.sourceId)
  match source with
  | none => Act.raise .notFound
  | some source =>
    if call.etag = [] then Act.raise (.error "Source upload did not return an object ETag.")
    else if JsString.hexOf 64 call.sha256 = false then
      Act.raise (.error "Source upload did not return a valid SHA-256 digest.")
    else if source.uploadedAt.isSome = true ∧ (source.etag ≠ some call.etag ∨ source.sha256 ≠ some call.sha256) then
      Act.raise (.conflict "Engineering source integrity does not match the uploaded object.")
    else do
      let updatedAt : Timestamp ← question .now
      let _ ← question (.batch call.sourceId call.etag call.sha256 updatedAt)
      let persisted : Option SourceRow ← question (.source call.sourceId)
      match persisted with
      | none => Act.raise .notFound
      | some persisted =>
        if persisted.uploadedAt = none ∨ persisted.etag ≠ some call.etag ∨
            persisted.sha256 ≠ some call.sha256 ∨ persisted.revisionApplied = false then
          Act.raise (.conflict "Engineering source upload could not be reconciled.")
        else question .job

/-- A call and what became of it. -/
abbrev Outcome := Call × Except EngineeringError JobView

/-- The answer to a question, and what it does; `now` is what the clock says. -/
def Tables.perform (t : Tables) (now : Timestamp) : (q : Query) → q.Answer × Tables
  | .source id => (t.sources.get? id, t)
  | .now => (now, t)
  | .batch id etag sha256 updatedAt => ((), t.batch id etag sha256 updatedAt)
  | .job => (⟨t.state, t.summary, t.revision⟩, t)

/-- The calls at work on the tables. -/
def works : PoolSpec Query Query.Answer Outcome Tables Call Timestamp Empty where
  program call := (markSourceUploaded call ()).bind fun r => .done (call, r.1)
  perform := Tables.perform
  outside e := e.elim

abbrev System := Pool Query Query.Answer Outcome Tables

abbrev Event := PoolEvent Call Timestamp Empty

/-- One step of the system. -/
abbrev System.Step : System → Event → System → Prop := Pool.Step works

/-! ## The batch -/

namespace Tables

variable {t : Tables} {id etag sha256 : JsString} {updatedAt : Timestamp}

theorem missing_iff : t.missing = true ↔ ∃ id row, t.sources.get? id = some row ∧ row.uploadedAt = none := by
  unfold missing
  rw [List.any_eq_true]
  constructor
  · rintro ⟨row, hrow, hnone⟩
    obtain ⟨id, hid⟩ := (Dict.mem_values_iff _ _).mp hrow
    exact ⟨id, row, hid, Option.isNone_iff_eq_none.mp hnone⟩
  · rintro ⟨id, row, hid, hnone⟩
    exact ⟨row, (Dict.mem_values_iff _ _).mpr ⟨id, hid⟩, Option.isNone_iff_eq_none.mpr hnone⟩

/-- A source that is not there, or that was counted before, is left alone. -/
theorem batch_settled (h : ∀ row, t.sources.get? id = some row →
    row.uploadedAt.isSome = true ∧ row.revisionApplied = true) : t.batch id etag sha256 updatedAt = t := by
  have hrecord : t.recordUpload id etag sha256 updatedAt = t := by
    unfold recordUpload
    cases hrow : t.sources.get? id with
    | none => rfl
    | some row =>
      simp only
      rw [if_neg]
      intro hnone
      have hsome := (h row hrow).1
      rw [hnone] at hsome
      cases hsome
  have hunapplied : t.unapplied id = false := by
    unfold unapplied
    cases hrow : t.sources.get? id with
    | none => rfl
    | some row =>
      rw [Option.any_some, (h row hrow).2, Bool.not_true, Bool.and_false]
  have happly : t.applyRevision id = t := by
    unfold applyRevision
    cases hrow : t.sources.get? id with
    | none => rfl
    | some row =>
      simp only
      rw [(h row hrow).2, Bool.not_true, Bool.and_false, if_neg Bool.false_ne_true]
  have hjob : t.updateJob id = t := if_neg fun hc => by rw [hunapplied] at hc; exact Bool.false_ne_true hc.2
  have huploaded : t.insertUploaded id = t := if_neg (by rw [hunapplied]; exact Bool.false_ne_true)
  have hready : t.insertReady id = t := if_neg fun hc => by rw [hunapplied] at hc; exact Bool.false_ne_true hc.1
  unfold batch
  rw [hrecord, hjob, huploaded, hready, happly]

/-- The first batch for a source of a job that is uploading records and counts it. -/
theorem batch_first (etag sha256 : JsString) (updatedAt : Timestamp) {row : SourceRow} (hrow : t.sources.get? id = some row) (hnone : row.uploadedAt = none)
    (happlied : row.revisionApplied = false) (hstate : t.state = .uploading) :
    ∃ t', t.batch id etag sha256 updatedAt = t' ∧
      (∀ k, t'.sources.get? k =
        if k = id then some ⟨some etag, some sha256, some updatedAt, true⟩ else t.sources.get? k) ∧
      t'.revision = t.revision + 1 ∧ t'.state = (if t'.missing then .uploading else .queued) ∧
      t'.events = t.events ++ [.sourceUploaded id] ++ if t'.missing then [] else [.sourcesReady] := by
  obtain ⟨t₁, ht₁⟩ : ∃ t₁, t.recordUpload id etag sha256 updatedAt = t₁ := ⟨_, rfl⟩
  obtain ⟨recorded, hnow⟩ : ∃ r : SourceRow, r = ⟨some etag, some sha256, some updatedAt, false⟩ := ⟨_, rfl⟩
  have hrecorded : t₁ = { t with sources := t.sources.set id recorded } := by
    rw [← ht₁]
    unfold recordUpload
    rw [hrow, hnow, ← happlied]
    exact if_pos hnone
  have hget₁ : t₁.sources.get? id = some recorded := by
    rw [hrecorded]
    exact Dict.get?_set_self _ _ _
  have hunapplied : t₁.unapplied id = true := by
    unfold unapplied
    rw [hget₁, hnow]
    rfl
  have hstate₁ : t₁.state = .uploading := by rw [hrecorded]; exact hstate
  have hkeep : ∀ t₂ : Tables, t₂.sources = t₁.sources → t₂.unapplied id = true ∧ t₂.missing = t₁.missing := by
    intro t₂ hsame
    unfold unapplied missing at *
    rw [hsame]
    exact ⟨hunapplied, rfl⟩
  have hjob : t₁.updateJob id = { t₁ with
      state := if t₁.missing then t₁.state else .queued
      summary := if t₁.missing then t₁.summary else JsString.ofText "Ready for secure dispatch."
      revision := t₁.revision + 1 } := if_pos ⟨hstate₁, hunapplied⟩
  obtain ⟨t₂, ht₂⟩ : ∃ t₂, t₁.updateJob id = t₂ := ⟨_, rfl⟩
  have hsources₂ : t₂.sources = t₁.sources := by rw [← ht₂, hjob]
  have huploaded : t₂.insertUploaded id = { t₂ with events := t₂.events ++ [.sourceUploaded id] } :=
    if_pos (hkeep t₂ hsources₂).1
  obtain ⟨t₃, ht₃⟩ : ∃ t₃, t₂.insertUploaded id = t₃ := ⟨_, rfl⟩
  have hsources₃ : t₃.sources = t₁.sources := by rw [← ht₃, huploaded]; exact hsources₂
  obtain ⟨hunapplied₃, hmissing₃⟩ := hkeep t₃ hsources₃
  have hready : t₃.insertReady id =
      { t₃ with events := t₃.events ++ if t₁.missing then [] else [.sourcesReady] } := by
    unfold insertReady
    rw [hunapplied₃, hmissing₃]
    cases t₁.missing with
    | false => rfl
    | true =>
      rw [if_neg (by simp), if_pos rfl, List.append_nil]
  obtain ⟨t₄, ht₄⟩ : ∃ t₄, t₃.insertReady id = t₄ := ⟨_, rfl⟩
  have hsources₄ : t₄.sources = t₁.sources := by rw [← ht₄, hready]; exact hsources₃
  obtain ⟨counted, hcounted⟩ : ∃ r : SourceRow, r = ⟨some etag, some sha256, some updatedAt, true⟩ := ⟨_, rfl⟩
  have happly : t₄.applyRevision id = { t₄ with sources := t₄.sources.set id counted } := by
    unfold applyRevision
    rw [hsources₄, hget₁, hnow, hcounted]
    rfl
  obtain ⟨t₅, ht₅⟩ : ∃ t₅, t₄.applyRevision id = t₅ := ⟨_, rfl⟩
  have hget₅ : ∀ k, t₅.sources.get? k =
      if k = id then some ⟨some etag, some sha256, some updatedAt, true⟩ else t.sources.get? k := by
    intro k
    rw [← ht₅, happly, hsources₄, hrecorded, hcounted]
    simp only [Dict.get?_set]
    by_cases hk : k = id
    · rw [if_pos hk, if_pos hk]
    · rw [if_neg hk, if_neg hk, if_neg hk]
  have hmissing₅ : t₅.missing = t₁.missing := by
    rw [Bool.eq_iff_iff, missing_iff, missing_iff]
    have hget : ∀ k, k ≠ id → t₅.sources.get? k = t₁.sources.get? k := by
      intro k hk
      rw [hget₅, if_neg hk, hrecorded, Dict.get?_set, if_neg hk]
    constructor
    · rintro ⟨k, r, hr, hnone'⟩
      by_cases hk : k = id
      · rw [hget₅, if_pos hk] at hr
        rw [← Option.some.inj hr] at hnone'
        cases hnone'
      · exact ⟨k, r, (hget k hk) ▸ hr, hnone'⟩
    · rintro ⟨k, r, hr, hnone'⟩
      by_cases hk : k = id
      · rw [hk, hget₁] at hr
        rw [← Option.some.inj hr, hnow] at hnone'
        cases hnone'
      · exact ⟨k, r, (hget k hk).symm ▸ hr, hnone'⟩
  refine ⟨t₅, ?_, hget₅, ?_, ?_, ?_⟩
  · unfold batch
    rw [ht₁, ht₂, ht₃, ht₄, ht₅]
  · rw [← ht₅, happly, ← ht₄, hready, ← ht₃, huploaded, ← ht₂, hjob, hrecorded]
  · rw [hmissing₅, ← ht₅, happly, ← ht₄, hready, ← ht₃, huploaded, ← ht₂, hjob]
    simp only [hstate₁]
  · rw [hmissing₅, ← ht₅, happly, ← ht₄, hready, ← ht₃, huploaded, ← ht₂, hjob]
    simp only [hrecorded]

end Tables

/-! ## What the tables always say -/

/-- The sources that were recorded are counted once each, and the job waits for the last one. -/
structure Accounted (ids : List JsString) (start : Nat) (t : Tables) : Prop where
  sources : ∀ id, id ∈ ids ↔ ∃ row, t.sources.get? id = some row
  applied : ∀ id row, t.sources.get? id = some row → row.revisionApplied = row.uploadedAt.isSome
  state : t.state = if ids.all t.uploaded then .queued else .uploading
  revision : t.revision = start + ids.countP t.uploaded
  once : ∀ id, t.events.count (.sourceUploaded id) = if t.uploaded id then 1 else 0
  ready : t.events.count .sourcesReady = if ids.all t.uploaded then 1 else 0

/-- What was recorded of a source stays. -/
def Keeps (t t' : Tables) : Prop :=
  ∀ id row, t.sources.get? id = some row → row.uploadedAt.isSome = true → t'.sources.get? id = some row

theorem Keeps.refl (t : Tables) : Keeps t t := fun _ _ h _ => h

theorem Keeps.trans {t u v : Tables} (h : Keeps t u) (h' : Keeps u v) : Keeps t v := fun id row hrow hup =>
  h' id row (h id row hrow hup) hup

section
variable {ids : List JsString} {start : Nat} {t : Tables} {id etag sha256 : JsString} {updatedAt : Timestamp}

theorem Tables.missing_eq (h : ∀ id, id ∈ ids ↔ ∃ row, t.sources.get? id = some row) :
    t.missing = !ids.all t.uploaded := by
  rw [Bool.eq_iff_iff, Tables.missing_iff, Bool.not_eq_true', List.all_eq_false]
  constructor
  · rintro ⟨k, row, hrow, hnone⟩
    refine ⟨k, (h k).mpr ⟨row, hrow⟩, ?_⟩
    unfold Tables.uploaded
    rw [hrow, Option.any_some, hnone]
    exact Bool.false_ne_true
  · rintro ⟨k, hk, hnot⟩
    obtain ⟨row, hrow⟩ := (h k).mp hk
    refine ⟨k, row, hrow, ?_⟩
    unfold Tables.uploaded at hnot
    rw [hrow, Option.any_some] at hnot
    exact Option.not_isSome_iff_eq_none.mp hnot

theorem countP_first {p q : JsString → Bool} (hids : ids.Nodup) (hmem : id ∈ ids) (hp : p id = false)
    (hq : q id = true) (hother : ∀ k, k ≠ id → q k = p k) : ids.countP q = ids.countP p + 1 := by
  induction ids with
  | nil => cases hmem
  | cons k rest ih =>
    obtain ⟨hfresh, hnodup⟩ := List.nodup_cons.mp hids
    rw [List.countP_cons, List.countP_cons]
    by_cases hk : k = id
    · subst hk
      have hrest : rest.countP q = rest.countP p := by
        apply List.countP_congr
        intro x hx
        rw [hother x fun he => hfresh (he ▸ hx)]
      rw [hrest, hp, hq, if_pos rfl, if_neg Bool.false_ne_true]
    · rw [ih hnodup ((List.mem_cons.mp hmem).resolve_left (Ne.symm hk)), hother k hk]
      omega

/-- A batch counts what it records, and leaves alone the other sources and what was recorded. -/
theorem Accounted.batch (id etag sha256 : JsString) (updatedAt : Timestamp) (hids : ids.Nodup)
    (h : Accounted ids start t) :
    Accounted ids start (t.batch id etag sha256 updatedAt) ∧ Keeps t (t.batch id etag sha256 updatedAt) ∧
      ∀ k, k ≠ id → (t.batch id etag sha256 updatedAt).uploaded k = t.uploaded k := by
  by_cases hsettled : ∀ row, t.sources.get? id = some row →
      row.uploadedAt.isSome = true ∧ row.revisionApplied = true
  · rw [Tables.batch_settled hsettled]
    exact ⟨h, .refl t, fun _ _ => rfl⟩
  · obtain ⟨row, hsettled⟩ := not_forall.mp hsettled
    obtain ⟨hrow, hopen⟩ := Classical.not_imp.mp hsettled
    have happlied := h.applied id row hrow
    have hnone : row.uploadedAt = none := by
      by_contra hsome
      have hsome' := Option.isSome_iff_ne_none.mpr hsome
      exact hopen ⟨hsome', by rw [happlied, hsome']⟩
    rw [hnone, Option.isSome_none] at happlied
    have hmem : id ∈ ids := (h.sources id).mpr ⟨row, hrow⟩
    have hold : t.uploaded id = false := by
      unfold Tables.uploaded
      rw [hrow, Option.any_some, hnone]
      rfl
    have hnotall : ids.all t.uploaded = false := List.all_eq_false.mpr ⟨id, hmem, by rw [hold]; exact Bool.false_ne_true⟩
    have hstate : t.state = .uploading := by
      rw [h.state, hnotall]
      rfl
    obtain ⟨t', hbatch, hget, hrevision, hstate', hevents⟩ :=
      Tables.batch_first etag sha256 updatedAt hrow hnone happlied hstate
    rw [hbatch]
    have hsources : ∀ k, k ∈ ids ↔ ∃ row, t'.sources.get? k = some row := by
      intro k
      rw [hget]
      by_cases hk : k = id
      · rw [if_pos hk, hk]
        exact ⟨fun _ => ⟨_, rfl⟩, fun _ => hmem⟩
      · rw [if_neg hk]
        exact h.sources k
    have hnew : t'.uploaded id = true := by
      unfold Tables.uploaded
      rw [hget, if_pos rfl]
      rfl
    have hother : ∀ k, k ≠ id → t'.uploaded k = t.uploaded k := by
      intro k hk
      unfold Tables.uploaded
      rw [hget, if_neg hk]
    have hmissing := Tables.missing_eq hsources
    refine ⟨⟨hsources, ?_, ?_, ?_, ?_, ?_⟩, ?_, hother⟩
    · intro k r hr
      rw [hget] at hr
      by_cases hk : k = id
      · rw [if_pos hk] at hr
        rw [← Option.some.inj hr]
        rfl
      · rw [if_neg hk] at hr
        exact h.applied k r hr
    · rw [hstate', hmissing]
      cases ids.all t'.uploaded <;> rfl
    · rw [hrevision, h.revision, countP_first hids hmem hold hnew hother]
      omega
    · intro k
      have hready : List.count (AuditEvent.sourceUploaded k) (if t'.missing then [] else [.sourcesReady]) = 0 := by
        split
        · rfl
        · exact List.count_eq_zero.mpr (by simp)
      rw [hevents, List.count_append, List.count_append, h.once, hready]
      by_cases hk : k = id
      · rw [hk, hold, hnew, List.count_singleton_self]
        rfl
      · have hne : List.count (AuditEvent.sourceUploaded k) [.sourceUploaded id] = 0 :=
          List.count_eq_zero.mpr (by simpa using hk)
        rw [hne, hother k hk]
        omega
    · have hone : List.count AuditEvent.sourcesReady [.sourceUploaded id] = 0 :=
        List.count_eq_zero.mpr (by simp)
      rw [hevents, List.count_append, List.count_append, h.ready, hone, hnotall, hmissing]
      cases ids.all t'.uploaded <;> rfl
    · intro k r hr hup
      rw [hget]
      by_cases hk : k = id
      · rw [hk, hrow] at hr
        rw [← Option.some.inj hr, hnone] at hup
        cases hup
      · rwa [if_neg hk]

/-! ## Runs -/

/-- The tables of a job that was just created with its sources. -/
structure Created (t : Tables) : Prop where
  state : t.state = .uploading
  sources : t.sources.keys ≠ []
  fresh : ∀ id row, t.sources.get? id = some row → row.uploadedAt = none ∧ row.revisionApplied = false
  events : t.events = []

theorem Created.uploaded (h : Created t) (id : JsString) : t.uploaded id = false := by
  unfold Tables.uploaded
  cases hrow : t.sources.get? id with
  | none => rfl
  | some row => rw [Option.any_some, (h.fresh id row hrow).1, Option.isSome_none]

theorem Created.accounted (h : Created t) : Accounted t.sources.keys t.revision t := by
  have hnotall : t.sources.keys.all t.uploaded = false := by
    obtain ⟨id, hid⟩ := List.exists_mem_of_ne_nil _ h.sources
    exact List.all_eq_false.mpr ⟨id, hid, by rw [h.uploaded]; exact Bool.false_ne_true⟩
  refine ⟨fun id => Dict.mem_keys_iff _ _, ?_, ?_, ?_, ?_, ?_⟩
  · intro id row hrow
    obtain ⟨hnone, happlied⟩ := h.fresh id row hrow
    rw [hnone, happlied, Option.isSome_none]
  · rw [hnotall, h.state]
    rfl
  · have hcount : t.sources.keys.countP t.uploaded = 0 :=
      List.countP_eq_zero.mpr fun id _ => by rw [h.uploaded]; exact Bool.false_ne_true
    rw [hcount, Nat.add_zero]
  · intro id
    rw [h.events, h.uploaded]
    rfl
  · rw [h.events, hnotall]
    rfl

/-- The source is recorded with these values, and counted. -/
def Stored (call : Call) (t : Tables) : Prop :=
  ∃ row, t.sources.get? call.sourceId = some row ∧ row.uploadedAt.isSome = true ∧
    row.etag = some call.etag ∧ row.sha256 = some call.sha256 ∧ row.revisionApplied = true

theorem Stored.later {call : Call} {t' : Tables} (h : Stored call t) (hkeeps : Keeps t t') : Stored call t' := by
  obtain ⟨row, hrow, hup, hvalues⟩ := h
  exact ⟨row, hkeeps _ row hrow hup, hup, hvalues⟩

/-- What the calls rely on and keep to. -/
def discipline (ids : List JsString) (start : Nat) (hids : ids.Nodup) :
    Discipline Query Query.Answer Tables where
  inv := Accounted ids start
  le := Keeps
  answers t q a t' := ∃ now, t.perform now q = (a, t')
  guard _ _ := True
  refl := .refl
  trans := .trans
  step := by
    intro t q a t' ht _ ⟨now, hperform⟩
    have ht' : t' = (t.perform now q).2 := by rw [hperform]
    subst ht'
    cases q with
    | batch id etag sha256 updatedAt =>
      obtain ⟨hacc, hkeeps, -⟩ := ht.batch id etag sha256 updatedAt hids
      exact ⟨hacc, hkeeps⟩
    | _ => exact ⟨ht, .refl t⟩

open Discipline (does_pure does_raise does_bind does_ite does_query)

variable {hids : ids.Nodup}

/-- A question whose answer the call makes nothing of for what is stored. -/
theorem does_other {q : Query} (ht : Accounted ids start t) :
    (discipline ids start hids).Does (question q) (fun _ _ => True) t :=
  does_query ht (fun _ _ _ => trivial) fun _ _ _ _ _ _ _ _ _ _ => trivial

/-- What a call read of its source is stored, where it was recorded. -/
theorem does_source {id : JsString} (ht : Accounted ids start t) :
    (discipline ids start hids).Does (question (.source id)) (fun source t' => ∀ row,
      (source : Option SourceRow) = some row → row.uploadedAt.isSome = true →
        t'.sources.get? id = some row) t := by
  apply does_query ht (fun _ _ _ => trivial)
  intro t₁ a t₂ _ _ ha t₃ _ hkeeps _ row hrow hup
  obtain ⟨now, hperform⟩ := ha
  have hread : t₁.sources.get? id = some row := (congrArg Prod.fst hperform).trans hrow
  exact hkeeps id row hread hup

/-- A call that returns leaves its own values stored. -/
theorem does_markSourceUploaded {call : Call} (ht : Accounted ids start t) :
    (discipline ids start hids).Does (markSourceUploaded call) (fun _ t => Stored call t) t := by
  apply does_bind ht (does_source ht)
  intro source t₁ ht₁ _ _
  cases source with
  | none => exact does_raise
  | some source =>
    apply does_ite (fun _ => does_raise)
    intro _
    apply does_ite (fun _ => does_raise)
    intro _
    apply does_ite (fun _ => does_raise)
    intro _
    apply does_bind ht₁ (does_other ht₁)
    intro updatedAt t₂ ht₂ _ _
    apply does_bind ht₂ (does_other ht₂)
    intro _ t₃ ht₃ _ _
    apply does_bind ht₃ (does_source ht₃)
    intro persisted t₄ ht₄ _ hread
    cases persisted with
    | none => exact does_raise
    | some persisted =>
      apply does_ite (fun _ => does_raise)
      intro hok
      obtain ⟨hup, hetag, hsha, happlied⟩ : persisted.uploadedAt ≠ none ∧ persisted.etag = some call.etag ∧
          persisted.sha256 = some call.sha256 ∧ persisted.revisionApplied = true := by
        simpa only [not_or, ne_eq, not_not, Bool.not_eq_false] using hok
      have hsome := Option.isSome_iff_ne_none.mpr hup
      have hstored : Stored call t₄ := ⟨persisted, hread persisted rfl hsome, hsome, hetag, hsha, happlied⟩
      apply does_query ht₄ (fun _ _ _ => trivial)
      intro t₅ _ _ _ hkeeps _ t₆ _ hkeeps' _
      exact hstored.later (hkeeps.trans hkeeps')

/-- A call that returned has its values stored. -/
def Own (outcome : Outcome) (t : Tables) : Prop :=
  ∀ view, outcome.2 = .ok view → Stored outcome.1 t

theorem works_fulfils (hids : ids.Nodup) :
    works.Fulfils (discipline ids start hids).protocol (Accounted ids start) Own where
  keeps := (discipline ids start hids).keeps
  stable ht hr := (hr ht).1
  answers _ c _ _ := ⟨c, rfl⟩
  outside e := e.elim
  program call t ht := by
    apply Prog.Safe.bind ?_ (does_markSourceUploaded ht ())
    intro r t' hr t'' hrely view hview
    obtain ⟨r, l⟩ := r
    cases hview
    exact (hr t'' hrely).2

/-- A step sends one batch or leaves the tables alone. -/
theorem step_tables {w w' : System} {e : Event} (h : System.Step w e w') : w'.state = w.state ∨
    ∃ id etag sha256 updatedAt, w'.state = w.state.batch id etag sha256 updatedAt := by
  cases e with
  | start n call =>
    simp only [System.Step, Pool.Step, Pool.step?] at h
    split at h
    · cases h
    · obtain rfl := Option.some.inj h
      exact .inl rfl
  | resume n now =>
    simp only [System.Step, Pool.Step, Pool.step?] at h
    split at h
    · next q k hrun =>
      obtain rfl := Option.some.inj h
      cases q with
      | batch id etag sha256 updatedAt => exact .inr ⟨id, etag, sha256, updatedAt, rfl⟩
      | _ => exact .inl rfl
    · cases h
  | crash n =>
    obtain rfl := Option.some.inj h
    exact .inl rfl
  | outside e => exact e.elim

/-- The last source that was missing is recorded. -/
def RecordsLast (ids : List JsString) (t t' : Tables) : Prop :=
  ∃ id ∈ ids, t.uploaded id = false ∧ t'.uploaded id = true ∧ ∀ k ∈ ids, k ≠ id → t.uploaded k = true

/-- The job becomes ready as the last missing source is recorded. -/
theorem Accounted.queued_iff (hids : ids.Nodup) {w w' : System} {e : Event} (h : Accounted ids start w.state)
    (hstep : System.Step w e w') :
    w.state.state = .uploading ∧ w'.state.state = .queued ↔ RecordsLast ids w.state w'.state := by
  obtain hsame | ⟨id, etag, sha256, updatedAt, hbatch⟩ := step_tables hstep
  · rw [hsame]
    constructor
    · intro ⟨huploading, hqueued⟩
      rw [huploading] at hqueued
      cases hqueued
    · intro ⟨k, _, hno, hyes, _⟩
      rw [hno] at hyes
      cases hyes
  · obtain ⟨hacc, hkeeps, hother⟩ := h.batch id etag sha256 updatedAt hids
    rw [← hbatch] at hacc hother
    rw [h.state, hacc.state]
    constructor
    · intro ⟨huploading, hqueued⟩
      have hall : ∀ k ∈ ids, w'.state.uploaded k = true := by
        apply List.all_eq_true.mp
        by_contra hnot
        rw [if_neg hnot] at hqueued
        cases hqueued
      have hsome : ¬ ids.all w.state.uploaded = true := by
        intro hyes
        rw [if_pos hyes] at huploading
        cases huploading
      obtain ⟨k, hk, hno⟩ := List.all_eq_false.mp (Bool.eq_false_iff.mpr hsome)
      have hid : k = id := by
        by_contra hne
        exact hno ((hother k hne) ▸ hall k hk)
      subst hid
      exact ⟨k, hk, Bool.eq_false_iff.mpr hno, hall k hk, fun j hj hne => (hother j hne) ▸ hall j hj⟩
    · intro ⟨k, hk, hno, hyes, hrest⟩
      have hid : k = id := by
        by_contra hne
        rw [hother k hne, hno] at hyes
        cases hyes
      subst hid
      have hbefore : ¬ ids.all w.state.uploaded = true := fun hall => by
        have := List.all_eq_true.mp hall k hk
        rw [hno] at this
        cases this
      have hafter : ids.all w'.state.uploaded = true := by
        apply List.all_eq_true.mpr
        intro j hj
        by_cases hne : j = k
        · rw [hne, hyes]
        · rw [hother j hne, hrest j hj hne]
      rw [if_neg hbefore, if_pos hafter]
      exact ⟨rfl, rfl⟩

end

/-- However calls of `markSourceUploaded` interleave, fail and are sent again: the job's state,
revision and events follow from which sources are recorded, a step makes the job ready exactly where
it records the last missing one, what was recorded of a source stays, and a call that returns has
its own values stored. -/
theorem uploads_counted_once {t : Tables} {events later : List Event} {w w' : System} (ht : Created t)
    (h : Run System.Step { state := t } events w) (h' : Run System.Step w later w') :
    Accounted t.sources.keys t.revision w.state ∧ Keeps w.state w'.state ∧
      (∀ e v, System.Step w e v → (w.state.state = .uploading ∧ v.state.state = .queued ↔
        RecordsLast t.sources.keys w.state v.state)) ∧
      ∀ n call view, w.runs.get? n = some (.done (call, .ok view)) → Stored call w.state := by
  have hids := t.sources.nodup
  have hworks : works.Fulfils (discipline _ t.revision hids).protocol _ Own := works_fulfils hids
  obtain ⟨hrely, hsafe⟩ := Pool.run_safeTo hworks h ht.accounted (Pool.safeTo_start _)
  have hacc := (hrely ht.accounted).1
  have hrely' := (Pool.run_safeTo hworks h' hacc hsafe).1
  refine ⟨hacc, (hrely' hacc).2, ?_, ?_⟩
  · intro e v hstep
    exact hacc.queued_iff hids hstep
  · intro n call view hn
    exact hsafe.returned hn view rfl

/-- A job with two sources. -/
def sampleTables : Tables where
  state := .uploading
  summary := []
  revision := 1
  sources := ((∅ : Dict JsString SourceRow).set (JsString.ofText "a") {}).set (JsString.ofText "b") {}

/-- A call for the source `id`, with a digest of one repeated digit. -/
def sampleCall (id : String) (digit : Char) : Call :=
  ⟨JsString.ofText id, JsString.ofText "etag", JsString.ofText (String.ofList (List.replicate 64 digit))⟩

/-- Two uploads of one source meet, and the other source is uploaded in between. -/
def sampleEvents : List Event :=
  [.start 0 (sampleCall "a" '1'), .start 1 (sampleCall "a" '2'), .start 2 (sampleCall "b" '3'),
    .resume 0 5, .resume 1 5, .resume 0 6, .resume 1 7, .resume 0 8, .resume 2 9, .resume 1 9,
    .resume 2 10, .resume 2 10, .resume 0 10, .resume 1 10, .resume 2 10, .resume 2 10, .resume 0 10]

theorem sampleEvents_queued :
    (Pool.run? works ({ state := sampleTables } : System) sampleEvents).map (fun w => w.state.state) =
      some .queued := by
  decide +kernel

theorem uploads_counted_once_sample : ∃ w, Run System.Step { state := sampleTables } sampleEvents w ∧
    w.state.state = .queued ∧ w.state.revision = 3 ∧ w.state.events.count .sourcesReady = 1 := by
  have hcreated : Created sampleTables := by
    refine ⟨rfl, by decide, ?_, rfl⟩
    have hrows : ∀ row ∈ sampleTables.sources.values, row.uploadedAt = none ∧ row.revisionApplied = false := by
      decide
    intro id row hrow
    exact hrows row ((Dict.mem_values_iff _ _).mpr ⟨id, hrow⟩)
  obtain ⟨w, hw, hqueued⟩ := Option.map_eq_some_iff.mp sampleEvents_queued
  have hrun : Run System.Step { state := sampleTables } sampleEvents w := Pool.run?_run hw
  have hacc := (uploads_counted_once hcreated hrun (.nil w)).1
  have hall : sampleTables.sources.keys.all w.state.uploaded = true := by
    by_contra hnot
    have hstate := hacc.state
    rw [hqueued, if_neg hnot] at hstate
    cases hstate
  have hcount : sampleTables.sources.keys.countP w.state.uploaded = 2 :=
    List.countP_eq_length.mpr (List.all_eq_true.mp hall)
  refine ⟨w, hrun, hqueued, ?_, ?_⟩
  · rw [hacc.revision, hcount]
    rfl
  · rw [hacc.ready, if_pos hall]

end LilTweak.Worker.Uploads
