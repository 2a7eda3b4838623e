import LilTweak.Worker.CoreProtocol
import LilTweak.Worker.Mirror
import Mathlib

/-!
# A snapshot that comes again

The core is polled, so the same snapshot is applied many times. Once mirrored it changes nothing any
more, unless one of its evidence identifiers belongs to another job; a snapshot at the row's revision
that says anything else than the row is refused.
-/

namespace LilTweak.Worker

open LilTweak.Lib

variable {r : Runtime} {db db' : Database} {snapshot : CoreSnapshot}

/-- `applyCoreSnapshot` on the tables, with no other write in between. -/
def Database.mirror (r : Runtime) (db : Database) (snapshot : CoreSnapshot) : Except EngineeringError Database :=
  match applyCoreSnapshot r db.job db.evidence.values db.job.coreRevision db.job.authorized snapshot with
  | .error e => .error e
  | .ok none => .ok db
  | .ok (some w) =>
    if db.snapshotApplies w then .ok (db.applySnapshot w)
    else .error (.conflict "Engineering job changed while its core status was being mirrored.")

/-- The snapshot is applied this many times in a row. -/
def Database.mirrorAgain (r : Runtime) (snapshot : CoreSnapshot) : Nat → Database → Except EngineeringError Database
  | 0, db => .ok db
  | n + 1, db => do
    let db ← db.mirror r snapshot
    db.mirrorAgain r snapshot n

/-- The summary a snapshot is mirrored with. -/
def CoreSnapshot.mirroredSummary (s : CoreSnapshot) : JsString :=
  if s.summary = [] then s.state.words else s.summary

/-- The row says what the snapshot says; a digest or a proposal that is absent stands for the row's. -/
structure Database.Says (db : Database) (s : CoreSnapshot) : Prop where
  state : db.job.state = s.state
  summary : db.job.summary = s.mirroredSummary
  proposalDigest : ∀ d, s.proposalDigest = some d → db.job.proposalDigest = some d
  sourceDigest : ∀ d, s.sourceDigest = some d → db.job.sourceDigest = some d
  approvalProposal : ∀ p, s.approvalProposal = some p → ∃ q, db.job.approvalProposal = some q ∧ q.Same p
  approvalConsumed : db.job.approvalConsumed = s.approvalConsumed
  evidence : db.evidence.values.Perm (s.evidence.map CoreEvidence.toEvidence)

/-! ## The summary -/

theorem words_trim (s : JobState) : s.words.trim.take 2000 = s.words := by
  cases s <;> decide +kernel

theorem words_ne (s : JobState) : s.words ≠ [] := by
  cases s <;> decide +kernel

theorem CoreSnapshot.Parsed.summary_take (h : snapshot.Parsed) : snapshot.summary.trim.take 2000 = snapshot.summary := by
  rw [h.trimmed, List.take_of_length_le h.short]

theorem CoreSnapshot.Parsed.mirroredSummary_take (h : snapshot.Parsed) :
    snapshot.mirroredSummary.trim.take 2000 = snapshot.mirroredSummary := by
  unfold CoreSnapshot.mirroredSummary
  split
  · exact words_trim _
  · exact h.summary_take

/-! ## A snapshot at the revision of the row -/

/-- At the row's revision a snapshot is either what was mirrored before or refused. -/
theorem same_revision {current : JobRow} {stored : List Evidence} {intent : Option DecisionIntent}
    {w : Option SnapshotWrite} (hparsed : snapshot.Parsed)
    (h : applyCoreSnapshot r current stored (some snapshot.coreRevision) intent snapshot = .ok w) :
    w = none ∧
    coreSnapshotAlreadyMirrored current stored (some snapshot.coreRevision)
      { snapshot with
        summary := snapshot.mirroredSummary
        proposalDigest := snapshot.proposalDigest <|> current.proposalDigest
        sourceDigest := snapshot.sourceDigest <|> current.sourceDigest
        approvalProposal := snapshot.approvalProposal <|> current.approvalProposal
        approvalConsumed := current.approvalConsumed || snapshot.approvalConsumed } = true ∧
    ((snapshot.approvalProposal <|> current.approvalProposal).isSome = true → snapshot.state = .completed →
      snapshot.approvalConsumed = true) := by
  unfold applyCoreSnapshot at h
  obtain ⟨-, h⟩ := unless_ok h
  obtain ⟨-, h⟩ := unless_ok h
  obtain ⟨_, -, _, h, rfl⟩ := exists_bind_ok.mp ⟨_, h, rfl⟩
  obtain ⟨-, h⟩ := unless_ok h
  obtain ⟨-, h⟩ := unless_ok h
  obtain ⟨-, h⟩ := unless_ok h
  obtain ⟨-, h⟩ := unless_ok h
  obtain ⟨-, h⟩ := unless_ok h
  obtain ⟨-, h⟩ := unless_ok h
  obtain ⟨-, h⟩ := unless_ok h
  obtain ⟨hcompleted, h⟩ := unless_ok h
  rw [hparsed.summary_take] at h
  rw [show (if snapshot.summary = [] then snapshot.state.words else snapshot.summary) = snapshot.mirroredSummary from rfl]
    at h
  simp only at h
  have hconsumed : (snapshot.approvalProposal <|> current.approvalProposal).isSome = true →
      snapshot.state = .completed → snapshot.approvalConsumed = true := by
    intro hsome hstate
    have hnot := fun hn => hcompleted ⟨hsome, hstate, .inr hn⟩
    simpa using hnot
  split at h
  · next hmirrored => exact ⟨(Except.ok.inj h).symm, hmirrored, hconsumed⟩
  · rw [if_pos trivial] at h
    cases h

theorem bind_value {α β : Type} {x : Except EngineeringError β} {f : β → Except EngineeringError α} {a : α}
    (h : (x >>= f) = .ok a) : ∃ b, x = .ok b ∧ f b = .ok a := by
  cases x with
  | error e => cases h
  | ok b => exact ⟨b, rfl, h⟩

theorem orElse_some {α : Type} {a b : Option α} {x : α} (h : a = some x) : (a <|> b) = some x := by
  rw [h]
  rfl

theorem orElse_self {α : Type} (a b : Option α) : (a <|> (a <|> b)) = (a <|> b) := by
  cases a <;> rfl

/-- What was mirrored before has its evidence in the rows. -/
theorem says_perm {current : JobRow} {stored : List Evidence} {completed : CoreSnapshot} {rev : Option Int}
    (hmirrored : coreSnapshotAlreadyMirrored current stored rev completed = true)
    (hids : (completed.evidence.map fun e => e.id).Nodup) :
    stored.Perm (completed.evidence.map CoreEvidence.toEvidence) := by
  simp only [coreSnapshotAlreadyMirrored, Bool.and_eq_true, beq_iff_eq, List.all_eq_true, List.any_eq_true] at hmirrored
  obtain ⟨⟨_, hlength⟩, hall⟩ := hmirrored
  have hnodup : (completed.evidence.map CoreEvidence.toEvidence).Nodup := by
    apply List.Nodup.of_map (f := fun e : Evidence => e.id)
    rw [List.map_map]
    exact hids
  have hsubset : completed.evidence.map CoreEvidence.toEvidence ⊆ stored := by
    intro e he
    obtain ⟨item, hitem, rfl⟩ := List.mem_map.mp he
    obtain ⟨row, hrow, heq⟩ := hall item hitem
    exact heq ▸ hrow
  have hsubperm := List.subperm_of_subset hnodup hsubset
  apply (hsubperm.perm_of_length_le ?_).symm
  rw [List.length_map, hlength]

/-- What was mirrored before is what the row says. -/
theorem says_of_mirrored (hparsed : snapshot.Parsed)
    (hmirrored : coreSnapshotAlreadyMirrored db.job db.evidence.values (some snapshot.coreRevision)
      { snapshot with
        summary := snapshot.mirroredSummary
        proposalDigest := snapshot.proposalDigest <|> db.job.proposalDigest
        sourceDigest := snapshot.sourceDigest <|> db.job.sourceDigest
        approvalProposal := snapshot.approvalProposal <|> db.job.approvalProposal
        approvalConsumed := db.job.approvalConsumed || snapshot.approvalConsumed } = true)
    (hflag : db.job.approvalConsumed = true → snapshot.approvalConsumed = true) : db.Says snapshot := by
  have hperm := says_perm hmirrored hparsed.ids
  simp only [coreSnapshotAlreadyMirrored, Bool.and_eq_true, beq_iff_eq, List.all_eq_true, List.any_eq_true] at hmirrored
  obtain ⟨⟨⟨⟨⟨⟨⟨⟨-, hstate⟩, hsummary⟩, hdigest⟩, hsource⟩, hconsumed⟩, hproposal⟩, -⟩, -⟩ := hmirrored
  refine ⟨hstate, ?_, ?_, ?_, ?_, ?_, ?_⟩
  · rw [hsummary, hparsed.mirroredSummary_take]
  · intro d hd
    rw [hdigest]
    exact orElse_some (orElse_some hd)
  · intro d hd
    rw [hsource]
    exact orElse_some (orElse_some hd)
  · intro p hp
    have hmapped : db.job.approvalProposal.map ApprovalProposal.fingerprint = some p.fingerprint := by
      have hequal := of_decide_eq_true hproposal
      rw [orElse_some (orElse_some hp)] at hequal
      exact hequal
    obtain ⟨q, hq, hfingerprint⟩ := Option.map_eq_some_iff.mp hmapped
    exact ⟨q, hq, same_of_fingerprint hfingerprint⟩
  · cases hrow : db.job.approvalConsumed with
    | true => exact (hflag hrow).symm
    | false =>
      rw [hrow] at hconsumed
      exact hconsumed.trans (Bool.false_or _)
  · exact hperm

/-! ## The evidence a snapshot leaves -/

/-- A row of evidence is kept under its identifier, which no other job uses. -/
def Database.Keyed (db : Database) : Prop :=
  ∀ id e, db.evidence.get? id = some e → e.id = id ∧ id ∉ db.otherEvidence

theorem Database.Keyed.insert (h : db.Keyed) (e : Evidence) : (db.insertEvidence e).Keyed := by
  unfold Database.insertEvidence
  split
  · exact h
  · next hnew =>
    intro id stored hstored
    rw [Dict.get?_set] at hstored
    split at hstored
    · next hid =>
      obtain rfl := Option.some.inj hstored
      exact ⟨hid.symm, fun hother => hnew (.inr (hid ▸ hother))⟩
    · exact h id stored hstored

theorem insertEvidence_other (e : Evidence) : (db.insertEvidence e).otherEvidence = db.otherEvidence := by
  unfold Database.insertEvidence
  split
  · rfl
  · rfl

/-- Inserting rows of evidence keeps the keys, adds only these rows, and leaves each row's identifier
taken unless another job has it. -/
theorem insertEvidence_all (rows : List Evidence) (h : db.Keyed) :
    (rows.foldl Database.insertEvidence db).Keyed ∧
    (rows.foldl Database.insertEvidence db).otherEvidence = db.otherEvidence ∧
    (∀ e ∈ (rows.foldl Database.insertEvidence db).evidence.values, e ∈ db.evidence.values ∨ e ∈ rows) ∧
    ∀ e ∈ rows, e.id ∉ db.otherEvidence →
      ((rows.foldl Database.insertEvidence db).evidence.get? e.id).isSome = true := by
  induction rows generalizing db with
  | nil => exact ⟨h, rfl, fun e he => .inl he, fun e he => by cases he⟩
  | cons e rest ih =>
    obtain ⟨hkeyed, hother, hvalues, htaken⟩ := ih (h.insert e)
    rw [insertEvidence_other] at hother htaken
    refine ⟨hkeyed, hother, ?_, ?_⟩
    · intro v hv
      rcases hvalues v hv with hv | hv
      · unfold Database.insertEvidence at hv
        split at hv
        · exact .inl hv
        · obtain ⟨id, hid⟩ := (Dict.mem_values_iff _ _).mp hv
          rw [Dict.get?_set] at hid
          split at hid
          · obtain rfl := Option.some.inj hid
            exact .inr List.mem_cons_self
          · exact .inl ((Dict.mem_values_iff _ _).mpr ⟨id, hid⟩)
      · exact .inr (List.mem_cons_of_mem _ hv)
    · intro v hv hfree
      rcases List.mem_cons.mp hv with rfl | hv
      · have hfirst : ∃ stored, (db.insertEvidence v).evidence.get? v.id = some stored := by
          unfold Database.insertEvidence
          split
          · next hpresent =>
            rcases hpresent with hpresent | hpresent
            · exact (Dict.contains_iff _ _).mp hpresent
            · exact absurd hpresent hfree
          · exact ⟨v, Dict.get?_set_self _ _ _⟩
        obtain ⟨stored, hstored⟩ := hfirst
        have hkeeps := (insertEvidence_keeps rest (db.insertEvidence v)).2 v.id stored hstored
        rw [List.foldl_cons, hkeeps]
        rfl
      · exact htaken v hv hfree

theorem Database.Keyed.values_nodup (h : db.Keyed) : db.evidence.values.Nodup := by
  apply List.Nodup.of_map (f := fun e : Evidence => e.id)
  have hkeys : db.evidence.values.map (fun e => e.id) = db.evidence.entries.map Prod.fst := by
    unfold Dict.values
    rw [List.map_map]
    exact List.map_congr_left fun entry hentry =>
      (h entry.1 entry.2 ((Dict.mem_entries_iff _ _ _).mp hentry)).1
  rw [hkeys]
  exact db.evidence.nodup

/-- Where every stored row is one of the snapshot's and no identifier is another job's, inserting the
snapshot's rows leaves exactly these. -/
theorem insertEvidence_perm {rows : List Evidence} (h : db.Keyed) (hids : (rows.map fun e => e.id).Nodup)
    (hstored : ∀ e ∈ db.evidence.values, e ∈ rows) (hfree : ∀ e ∈ rows, e.id ∉ db.otherEvidence) :
    (rows.foldl Database.insertEvidence db).evidence.values.Perm rows := by
  obtain ⟨hkeyed, _, hvalues, htaken⟩ := insertEvidence_all rows h
  rw [List.perm_ext_iff_of_nodup hkeyed.values_nodup (List.Nodup.of_map _ hids)]
  have hsubset : ∀ e ∈ (rows.foldl Database.insertEvidence db).evidence.values, e ∈ rows := by
    intro e he
    rcases hvalues e he with he | he
    · exact hstored e he
    · exact he
  intro e
  refine ⟨hsubset e, fun he => ?_⟩
  obtain ⟨v, hv⟩ := Option.isSome_iff_exists.mp (htaken e he (hfree e he))
  have hmem := (Dict.mem_values_iff _ _).mpr ⟨e.id, hv⟩
  have hsame : v.id = e.id := (hkeyed _ _ hv).1
  have heq : v = e := List.inj_on_of_nodup_map hids (hsubset v hmem) he hsame
  exact heq ▸ hmem

/-! ## The same snapshot again -/

theorem manifest_ok {stored : List Evidence} {incoming : List CoreEvidence} {frozen : Bool} {u : Unit}
    (h : appendOnlyEvidenceManifest stored incoming frozen = .ok u) :
    (∀ e ∈ stored, e ∈ incoming.map CoreEvidence.toEvidence) ∧
    ∀ stored' frozen', stored'.Perm (incoming.map CoreEvidence.toEvidence) →
      appendOnlyEvidenceManifest stored' incoming frozen' = .ok () := by
  unfold appendOnlyEvidenceManifest at h
  obtain ⟨hlength, h⟩ := unless_ok h
  obtain ⟨hdistinct, h⟩ := unless_ok h
  obtain ⟨hstored, _⟩ := unless_ok h
  refine ⟨?_, ?_⟩
  · intro e he
    by_contra hnot
    apply hstored
    rw [List.any_eq_true]
    refine ⟨e, he, ?_⟩
    simp only [Bool.not_eq_true', List.any_eq_false, beq_iff_eq]
    exact fun item hitem heq => hnot (List.mem_map.mpr ⟨item, hitem, heq⟩)
  · intro stored' frozen' hperm
    unfold appendOnlyEvidenceManifest
    rw [if_neg hlength, if_neg hdistinct, if_neg, if_neg]
    · intro hfrozen
      rw [hperm.length_eq, List.length_map] at hfrozen
      exact hfrozen.2 rfl
    · rw [List.any_eq_true]
      intro ⟨e, he, hnone⟩
      obtain ⟨item, hitem, heq⟩ := List.mem_map.mp (hperm.mem_iff.mp he)
      simp only [Bool.not_eq_true', List.any_eq_false, beq_iff_eq] at hnone
      exact hnone item hitem heq

theorem mirrored_self {row : JobRow} {stored : List Evidence} (hparsed : snapshot.Parsed)
    (hstate : row.state = snapshot.state) (hsummary : row.summary = snapshot.mirroredSummary)
    (hperm : stored.Perm (snapshot.evidence.map CoreEvidence.toEvidence)) :
    coreSnapshotAlreadyMirrored row stored (some snapshot.coreRevision)
      { snapshot with
        summary := snapshot.mirroredSummary
        proposalDigest := row.proposalDigest
        sourceDigest := row.sourceDigest
        approvalProposal := row.approvalProposal
        approvalConsumed := row.approvalConsumed } = true := by
  have hself : ∀ {α : Type} (a : Option α), (a <|> a) = a := by
    intro α a
    cases a <;> rfl
  simp only [coreSnapshotAlreadyMirrored, Bool.and_eq_true, beq_iff_eq, List.all_eq_true, List.any_eq_true, hself]
  refine ⟨⟨⟨⟨⟨⟨⟨⟨trivial, hstate⟩, ?_⟩, trivial⟩, trivial⟩, trivial⟩, ?_⟩, ?_⟩, ?_⟩
  · rw [hsummary, hparsed.mirroredSummary_take]
  · exact decide_eq_true rfl
  · rw [hperm.length_eq, List.length_map]
  · intro item hitem
    exact ⟨item.toEvidence, hperm.mem_iff.mpr (List.mem_map_of_mem hitem), rfl⟩

theorem evidenceRows_parsed {items : List CoreEvidence} (h : ∀ e ∈ items, evidenceRow e = some e.toEvidence) :
    items.mapM evidenceRow = some (items.map CoreEvidence.toEvidence) := by
  induction items with
  | nil => rfl
  | cons e rest ih =>
    rw [List.mapM_cons, h e List.mem_cons_self, ih fun x hx => h x (List.mem_cons_of_mem _ hx)]
    rfl

/-- What a snapshot writes, and that on the row it wrote it is mirrored already. -/
theorem applyCoreSnapshot_again {current : JobRow} {stored : List Evidence} {rev : Option Int}
    {intent : Option DecisionIntent} {x : SnapshotWrite} (hparsed : snapshot.Parsed)
    (h : applyCoreSnapshot r current stored rev intent snapshot = .ok (some x)) :
    x.readRevision = current.revision ∧ x.coreRevision = snapshot.coreRevision ∧
    x.evidence = snapshot.evidence.map CoreEvidence.toEvidence ∧
    (∀ e ∈ stored, e ∈ snapshot.evidence.map CoreEvidence.toEvidence) ∧
    ∀ row stored', row.state = x.state → row.summary = x.summary → row.proposalDigest = x.proposalDigest →
      row.sourceDigest = x.sourceDigest → row.approvalProposal = x.approvalProposal →
      row.approvalConsumed = x.approvalConsumed →
      stored'.Perm (snapshot.evidence.map CoreEvidence.toEvidence) →
      applyCoreSnapshot r row stored' (some snapshot.coreRevision) intent snapshot = .ok none := by
  unfold applyCoreSnapshot at h
  obtain ⟨hvalid, h⟩ := unless_ok h
  obtain ⟨_, h⟩ := unless_ok h
  obtain ⟨_, hmanifest, _, h, rfl⟩ := exists_bind_ok.mp ⟨_, h, rfl⟩
  obtain ⟨hdigest, h⟩ := unless_ok h
  obtain ⟨_, h⟩ := unless_ok h
  obtain ⟨hadmits, h⟩ := unless_ok h
  obtain ⟨hagree, h⟩ := unless_ok h
  obtain ⟨_, h⟩ := unless_ok h
  obtain ⟨_, h⟩ := unless_ok h
  obtain ⟨happlying, h⟩ := unless_ok h
  obtain ⟨hcompleted, h⟩ := unless_ok h
  obtain ⟨_, h⟩ := else_ok (by simp) h
  obtain ⟨_, h⟩ := unless_ok h
  obtain ⟨_, h⟩ := unless_ok h
  rw [evidenceRows_parsed hparsed.evidence] at h
  obtain rfl := Option.some.inj (Except.ok.inj h)
  obtain ⟨hsubset, hagain⟩ := manifest_ok hmanifest
  refine ⟨rfl, rfl, rfl, hsubset, ?_⟩
  intro row stored' hstate hsummary hproposal hsource happroval hconsumed hperm
  simp only at hstate hsummary hproposal hsource happroval hconsumed
  have hsummary : row.summary = snapshot.mirroredSummary := by
    rw [hsummary, hparsed.summary_take]
    rfl
  have hmirrored := mirrored_self hparsed hstate hsummary hperm
  have hproposal' : (snapshot.proposalDigest <|> row.proposalDigest) = row.proposalDigest := by
    rw [hproposal, orElse_self]
  have hsource' : (snapshot.sourceDigest <|> row.sourceDigest) = row.sourceDigest := by
    rw [hsource, orElse_self]
  have happroval' : (snapshot.approvalProposal <|> row.approvalProposal) = row.approvalProposal := by
    rw [happroval, orElse_self]
  have hconsumed' : (row.approvalConsumed || snapshot.approvalConsumed) = row.approvalConsumed := by
    rw [hconsumed, Bool.or_assoc, Bool.or_self]
  rw [← hproposal, ← hsource, ← happroval] at hagree
  rw [← hsource] at hdigest
  rw [← hproposal, ← happroval] at happlying hcompleted
  unfold applyCoreSnapshot
  rw [if_neg hvalid, if_neg (by simp)]
  rw [hagain stored' _ hperm, ok_bind, hparsed.summary_take]
  simp only [hproposal', hsource', happroval', hconsumed']
  rw [if_neg hdigest, if_neg, if_neg hadmits, if_neg hagree, if_neg, if_neg, if_neg happlying, if_neg hcompleted]
  · exact if_pos hmirrored
  · intro hflags
    rw [← hconsumed', hflags.2.1, Bool.or_true] at hflags
    exact absurd hflags.1 Bool.false_ne_true.symm
  · intro hchanged
    have hsame : approvalProposalsEqual row.approvalProposal row.approvalProposal = true := decide_eq_true rfl
    rw [hsame] at hchanged
    exact absurd hchanged.2 Bool.false_ne_true.symm
  · cases row.sourceDigest with
    | none => exact Bool.false_ne_true
    | some d => simp

/-! ## Rows the Worker writes -/

/-- A row that waits for the owner or is being applied holds a proposal, and an approval is only consumed
with one. -/
structure JobRow.Reviewed (row : JobRow) : Prop where
  proposed : row.state = .awaitingApproval ∨ row.state = .applying → row.approvalProposal.isSome = true
  consumed : row.approvalConsumed = true → row.state = .completed ∧ row.approvalProposal.isSome = true

/-- A write of the Worker on the job, or of another job on its own evidence. -/
inductive Write
  | snapshot (current : JobRow) (stored : List Evidence) (rev : Option Int) (intent : Option DecisionIntent)
      (snapshot : CoreSnapshot)
  | recordDecisionIntent (expectedRevision : Int) (intent : DecisionIntent)
  | cancel (expectedRevision : Int) (summary : JsString)
  | reserveDispatch (expectedRevision : Int) (reservedAt : JsString)
  | setRemoteJob (expectedRevision : Int) (remoteJobId summary : JsString)
  | sourceUploaded (ready : Bool)
  | elsewhere (id : JsString)

/-- What a write does. A snapshot is one the parser gave, whatever evidence of it is mirrored; it may have
been decided on an older row, but a revision stands for all columns except the decision. -/
def Write.Step (r : Runtime) (db : Database) : Write → Database → Prop
  | .snapshot current stored rev intent s, db' =>
    (∃ input remoteJobId parsed, parseCoreSnapshot r input = some (remoteJobId, parsed) ∧
      s = { parsed with evidence := s.evidence }) ∧
    (db.job.revision = current.revision → { db.job with authorized := current.authorized } = current) ∧
    ∃ w, applyCoreSnapshot r current stored rev intent s = .ok (some w) ∧ db' = db.applySnapshot w
  | .recordDecisionIntent expectedRevision intent, db' => db.recordDecisionIntent expectedRevision intent = some db'
  | .cancel expectedRevision summary, db' =>
    transitionAllowed db.job.state .cancelled = true ∧ db.transition .cancelled expectedRevision summary = some db'
  | .reserveDispatch expectedRevision reservedAt, db' => db.reserveDispatch expectedRevision reservedAt = some db'
  | .setRemoteJob expectedRevision remoteJobId summary, db' =>
    db.setRemoteJob expectedRevision remoteJobId summary = some db'
  | .sourceUploaded ready, db' => db' = db.sourceUploaded ready
  | .elsewhere id, db' => db.evidence.contains id = false ∧
      db' = { db with otherEvidence := db.otherEvidence ++ [id] }

/-- A job as it is created. -/
def Database.created (sources : Nat) (other : List JsString) : Database :=
  { job := .created sources, otherEvidence := other }

theorem transition_applying {source : JobState} {authorized : Bool}
    (h : coreSnapshotTransitionAllowed source .applying authorized = true) :
    source = .awaitingApproval ∨ source = .applying := by
  cases source <;> cases authorized <;> first | exact .inl rfl | exact .inr rfl | exact absurd h (by decide)

/-- What a parsed snapshot writes over a reviewed row is reviewed. -/
theorem JobRow.Reviewed.mirrored {current : JobRow} {stored : List Evidence} {rev : Option Int}
    {intent : Option DecisionIntent} {x : SnapshotWrite} (hrow : current.Reviewed)
    (hawaiting : snapshot.state = .awaitingApproval → snapshot.approvalProposal.isSome = true)
    (h : applyCoreSnapshot r current stored rev intent snapshot = .ok (some x)) :
    (x.state = .awaitingApproval ∨ x.state = .applying → x.approvalProposal.isSome = true) ∧
      (x.approvalConsumed = true → x.state = .completed ∧ x.approvalProposal.isSome = true) := by
  unfold applyCoreSnapshot at h
  obtain ⟨-, h⟩ := unless_ok h
  obtain ⟨-, h⟩ := unless_ok h
  obtain ⟨_, -, _, h, rfl⟩ := exists_bind_ok.mp ⟨_, h, rfl⟩
  obtain ⟨-, h⟩ := unless_ok h
  obtain ⟨-, h⟩ := unless_ok h
  obtain ⟨-, h⟩ := unless_ok h
  obtain ⟨-, h⟩ := unless_ok h
  obtain ⟨-, h⟩ := unless_ok h
  obtain ⟨hconsumed, h⟩ := unless_ok h
  obtain ⟨-, h⟩ := unless_ok h
  obtain ⟨-, h⟩ := unless_ok h
  obtain ⟨-, h⟩ := else_ok (by simp) h
  obtain ⟨-, h⟩ := unless_ok h
  obtain ⟨hallowed, h⟩ := unless_ok h
  have hkept : current.approvalProposal.isSome = true →
      (snapshot.approvalProposal <|> current.approvalProposal).isSome = true := by
    intro hsome
    cases snapshot.approvalProposal with
    | none => exact hsome
    | some p => rfl
  cases hrows : snapshot.evidence.mapM evidenceRow with
  | none =>
    simp only [hrows] at h
    cases h
  | some rows =>
  simp only [hrows] at h
  obtain rfl := Option.some.inj (Except.ok.inj h)
  have hallowed : coreSnapshotTransitionAllowed current.state snapshot.state
      (decisionAuthorizesCoreState intent current.proposalDigest snapshot.state) = true := by simpa using hallowed
  refine ⟨?_, ?_⟩
  · rintro (hstate | hstate)
    · obtain ⟨p, hp⟩ := Option.isSome_iff_exists.mp (hawaiting hstate)
      rw [orElse_some hp]
      rfl
    · simp only at hstate
      rw [hstate] at hallowed
      exact hkept (hrow.proposed (transition_applying hallowed))
  · intro hx
    cases hcurrent : current.approvalConsumed with
    | true =>
      -- a row that consumed its approval is completed, so nothing is mirrored over it
      have hstarted := coreSnapshotTransitionAllowed_started hallowed
      rw [(hrow.consumed hcurrent).1] at hstarted
      exact absurd hstarted (by decide)
    | false =>
      have hflag : snapshot.approvalConsumed = true := by simpa [hcurrent] using hx
      have hstates := not_or.mp fun hn => hconsumed ⟨hcurrent, hflag, hn⟩
      obtain ⟨happlying, hcompleted⟩ := not_or.mp hstates.2
      exact ⟨not_not.mp hcompleted, hkept (hrow.proposed (.inr (not_not.mp happlying)))⟩

theorem JobRow.Reviewed.created (sources : Nat) : (JobRow.created sources).Reviewed := by
  refine ⟨fun h => ?_, fun h => ?_⟩
  · unfold JobRow.created at h
    split at h
    · rcases h with h | h
      · cases h
      · cases h
    · rcases h with h | h
      · cases h
      · cases h
  · cases h

/-- The row is reviewed and the evidence keyed. -/
structure Database.Kept (db : Database) : Prop where
  row : db.job.Reviewed
  keyed : db.Keyed

theorem Database.Kept.created (sources : Nat) (other : List JsString) : (Database.created sources other).Kept :=
  ⟨.created sources, fun _ _ h => by cases h⟩

theorem Database.updateSnapshot_evidence (db : Database) (w : SnapshotWrite) :
    (db.updateSnapshot w).evidence = db.evidence ∧ (db.updateSnapshot w).otherEvidence = db.otherEvidence := by
  unfold Database.updateSnapshot
  split
  · exact ⟨rfl, rfl⟩
  · exact ⟨rfl, rfl⟩

theorem Database.Keyed.applySnapshot (h : db.Keyed) (w : SnapshotWrite) :
    (db.applySnapshot w).Keyed ∧ (db.applySnapshot w).otherEvidence = db.otherEvidence := by
  obtain ⟨hevidence, hother⟩ := db.updateSnapshot_evidence w
  have hupdated : (db.updateSnapshot w).Keyed := by
    intro id e he
    rw [hevidence] at he
    rw [hother]
    exact h id e he
  simp only [Database.applySnapshot]
  split
  · obtain ⟨hkeyed, hsame, _⟩ := insertEvidence_all w.evidence hupdated
    exact ⟨hkeyed, hsame.trans hother⟩
  · exact ⟨hupdated, hother⟩

theorem applySnapshot_job (w : SnapshotWrite) : (db.applySnapshot w).job = (db.updateSnapshot w).job := by
  simp only [Database.applySnapshot]
  split
  · exact (insertEvidence_keeps _ _).1
  · rfl

/-- Every write keeps the row reviewed and the evidence keyed. -/
theorem Write.Step.keeps {write : Write} (h : write.Step r db db') (hdb : db.Kept) : db'.Kept := by
  obtain ⟨hrow, hkeyed⟩ := hdb
  cases write with
  | snapshot current stored rev intent s =>
    obtain ⟨⟨input, remoteJobId, parsed, hparse, hs⟩, hsame, w, hw, rfl⟩ := h
    refine ⟨?_, (hkeyed.applySnapshot w).1⟩
    rw [applySnapshot_job]
    unfold Database.updateSnapshot
    split
    · next happlies =>
      simp only [Database.snapshotApplies, Bool.and_eq_true, decide_eq_true_eq] at happlies
      have hcurrent := hsame (happlies.1.trans (applyCoreSnapshot_follows hw).readRevision)
      have hreviewed : current.Reviewed := by
        rw [← hcurrent]
        exact ⟨hrow.proposed, hrow.consumed⟩
      have hparsed := parseCoreSnapshot_parsed hparse
      have hawaiting : s.state = .awaitingApproval → s.approvalProposal.isSome = true := by
        rw [hs]
        exact hparsed.awaiting
      obtain ⟨hproposed, hconsumed⟩ := hreviewed.mirrored hawaiting hw
      exact ⟨hproposed, hconsumed⟩
    · exact hrow
  | recordDecisionIntent rev intent =>
    simp only [Write.Step, Database.recordDecisionIntent] at h
    split at h
    · obtain rfl := Option.some.inj h
      exact ⟨⟨hrow.proposed, hrow.consumed⟩, hkeyed⟩
    · cases h
  | cancel rev summary =>
    obtain ⟨hallowed, h⟩ := h
    unfold Database.transition at h
    split at h
    · obtain rfl := Option.some.inj h
      refine ⟨⟨fun hstate => ?_, fun hc => ?_⟩, hkeyed⟩
      · rcases hstate with hstate | hstate
        · cases hstate
        · cases hstate
      · rw [(hrow.consumed hc).1] at hallowed
        exact absurd hallowed (by decide)
    · cases h
  | reserveDispatch rev reservedAt =>
    simp only [Write.Step, Database.reserveDispatch] at h
    split at h
    · obtain rfl := Option.some.inj h
      exact ⟨⟨hrow.proposed, hrow.consumed⟩, hkeyed⟩
    · cases h
  | setRemoteJob rev id summary =>
    simp only [Write.Step, Database.setRemoteJob] at h
    split at h
    · obtain rfl := Option.some.inj h
      exact ⟨⟨hrow.proposed, hrow.consumed⟩, hkeyed⟩
    · cases h
  | sourceUploaded ready =>
    obtain rfl : db' = _ := h
    unfold Database.sourceUploaded
    split
    · next hstate =>
      refine ⟨⟨fun hnext => ?_, fun hc => ?_⟩, hkeyed⟩
      · cases ready with
        | true =>
          rcases hnext with hnext | hnext
          · cases hnext
          · cases hnext
        | false => exact hrow.proposed hnext
      · have hcompleted := (hrow.consumed hc).1
        rw [hstate] at hcompleted
        cases hcompleted
    · exact ⟨hrow, hkeyed⟩
  | elsewhere id =>
    obtain ⟨hfree, rfl⟩ := h
    refine ⟨hrow, fun key e he => ⟨(hkeyed key e he).1, fun hmem => ?_⟩⟩
    rcases List.mem_append.mp hmem with hmem | hmem
    · exact (hkeyed key e he).2 hmem
    · rw [List.mem_singleton] at hmem
      subst hmem
      have hcontains := (Dict.contains_iff db.evidence key).mpr ⟨e, he⟩
      rw [hcontains] at hfree
      cases hfree

/-- The tables some writes lead to from a new job. -/
def Database.Reached (r : Runtime) (db : Database) : Prop :=
  ∃ sources other writes, Run (fun db write db' => Write.Step r db write db') (.created sources other) writes db

theorem Database.Reached.kept (h : db.Reached r) : db.Kept := by
  obtain ⟨sources, other, writes, hrun⟩ := h
  exact hrun.preserves (fun _ _ _ _ hdb hstep => hstep.keeps hdb) (.created sources other)

/-! ## Mirroring again -/

/-- An accepted snapshot at the row's revision changes nothing, and the row says what it says. -/
theorem mirror_same_revision (hdb : db.Kept) (hparsed : snapshot.Parsed)
    (hrevision : db.job.coreRevision = some snapshot.coreRevision) (h : db.mirror r snapshot = .ok db') :
    db' = db ∧ db.Says snapshot := by
  unfold Database.mirror at h
  split at h
  · cases h
  · next hnone =>
    rw [hrevision] at hnone
    obtain ⟨_, hmirrored, hcompleted⟩ := same_revision hparsed hnone
    refine ⟨(Except.ok.inj h).symm, says_of_mirrored hparsed hmirrored fun hconsumed => ?_⟩
    obtain ⟨hstate, hsome⟩ := hdb.row.consumed hconsumed
    have hsnapshot : snapshot.state = .completed := by
      simp only [coreSnapshotAlreadyMirrored, Bool.and_eq_true, beq_iff_eq] at hmirrored
      rw [← hmirrored.1.1.1.1.1.1.1.2]
      exact hstate
    apply hcompleted ?_ hsnapshot
    cases snapshot.approvalProposal with
    | none => exact hsome
    | some p => rfl
  · next w hw =>
    rw [hrevision] at hw
    cases (same_revision hparsed hw).1

/-- The job after an accepted snapshot is at the snapshot's revision. -/
theorem mirror_revision (h : db.mirror r snapshot = .ok db') (hparsed : snapshot.Parsed) :
    db'.job.coreRevision = some snapshot.coreRevision := by
  unfold Database.mirror at h
  split at h
  · cases h
  · next hnone =>
    obtain rfl := Except.ok.inj h
    unfold applyCoreSnapshot at hnone
    obtain ⟨-, h⟩ := unless_ok hnone
    obtain ⟨-, h⟩ := unless_ok h
    obtain ⟨_, -, h⟩ := bind_value h
    obtain ⟨-, h⟩ := unless_ok h
    obtain ⟨-, h⟩ := unless_ok h
    obtain ⟨-, h⟩ := unless_ok h
    obtain ⟨-, h⟩ := unless_ok h
    obtain ⟨-, h⟩ := unless_ok h
    obtain ⟨-, h⟩ := unless_ok h
    obtain ⟨-, h⟩ := unless_ok h
    obtain ⟨-, h⟩ := unless_ok h
    rw [hparsed.summary_take] at h
    rw [show (if snapshot.summary = [] then snapshot.state.words else snapshot.summary) = snapshot.mirroredSummary
      from rfl] at h
    simp only at h
    split at h
    · next hmirrored =>
      simp only [coreSnapshotAlreadyMirrored, Bool.and_eq_true, beq_iff_eq] at hmirrored
      exact hmirrored.1.1.1.1.1.1.1.1
    · obtain ⟨-, h⟩ := unless_ok h
      obtain ⟨-, h⟩ := unless_ok h
      rw [evidenceRows_parsed hparsed.evidence] at h
      cases Except.ok.inj h
  · next w hw =>
    split at h
    · next happlies =>
      obtain rfl := Except.ok.inj h
      rw [applySnapshot_job]
      unfold Database.updateSnapshot
      rw [if_pos happlies]
      exact congrArg some (applyCoreSnapshot_again hparsed hw).2.1
    · cases h

/-- Where no identifier of the snapshot's evidence is another job's, applying it to what it left
changes nothing. -/
theorem mirror_mirrored (hdb : db.Kept) (hparsed : snapshot.Parsed) (h : db.mirror r snapshot = .ok db')
    (hfree : ∀ e ∈ snapshot.evidence, e.id ∉ db.otherEvidence) : db'.mirror r snapshot = .ok db' := by
  have hfirst := h
  unfold Database.mirror at h
  split at h
  · cases h
  · obtain rfl := Except.ok.inj h
    exact hfirst
  · next w hw =>
    split at h
    case isFalse => cases h
    next happlies =>
    obtain ⟨hread, hrevision, hevidence, hsubset, hagain⟩ := applyCoreSnapshot_again hparsed hw
    have hjob : db'.job = (db.updateSnapshot w).job := by
      rw [← Except.ok.inj h]
      exact applySnapshot_job w
    have hupdate : (db.updateSnapshot w).job = { db.job with
        state := w.state
        summary := w.summary
        proposalDigest := w.proposalDigest
        sourceDigest := w.sourceDigest
        approvalProposal := w.approvalProposal
        approvalConsumed := w.approvalConsumed
        coreRevision := some w.coreRevision
        revision := db.job.revision + 1 } := by
      unfold Database.updateSnapshot
      rw [if_pos happlies]
    have hperm : db'.evidence.values.Perm (snapshot.evidence.map CoreEvidence.toEvidence) := by
      obtain ⟨hsame, hother⟩ := db.updateSnapshot_evidence w
      have hkeyed : (db.updateSnapshot w).Keyed := by
        intro id e he
        rw [hsame] at he
        rw [hother]
        exact hdb.keyed id e he
      have hinserted : (db.updateSnapshot w).job.revision = w.readRevision + 1 ∧
          (db.updateSnapshot w).job.coreRevision = some w.coreRevision := by
        rw [hupdate, hread]
        exact ⟨rfl, rfl⟩
      have hresult : db' = w.evidence.foldl Database.insertEvidence (db.updateSnapshot w) := by
        rw [← Except.ok.inj h]
        exact if_pos hinserted
      rw [hresult, hevidence]
      apply insertEvidence_perm hkeyed
      · rw [List.map_map]
        exact hparsed.ids
      · rw [hsame]
        exact hsubset
      · intro e he
        obtain ⟨item, hitem, rfl⟩ := List.mem_map.mp he
        rw [hother]
        exact hfree item hitem
    have hsecond := hagain db'.job db'.evidence.values (by rw [hjob, hupdate]) (by rw [hjob, hupdate])
      (by rw [hjob, hupdate]) (by rw [hjob, hupdate]) (by rw [hjob, hupdate]) (by rw [hjob, hupdate]) hperm
    have hauthorized : db'.job.authorized = db.job.authorized := by rw [hjob, hupdate]
    unfold Database.mirror
    rw [mirror_revision hfirst hparsed, hauthorized, hsecond]

theorem mirror_other (hdb : db.Kept) (h : db.mirror r snapshot = .ok db') :
    db'.Keyed ∧ db'.otherEvidence = db.otherEvidence := by
  unfold Database.mirror at h
  split at h
  · cases h
  · obtain rfl := Except.ok.inj h
    exact ⟨hdb.keyed, rfl⟩
  · next w hw =>
    split at h
    · obtain rfl := Except.ok.inj h
      exact hdb.keyed.applySnapshot w
    · cases h

/-- A snapshot mirrored before has none of its evidence under an identifier of another job. -/
theorem says_free (hkeyed : db.Keyed) (hlisted : db.evidence.values.Perm (snapshot.evidence.map CoreEvidence.toEvidence)) :
    ∀ e ∈ snapshot.evidence, e.id ∉ db.otherEvidence := by
  intro e he
  have hstored := hlisted.mem_iff.mpr (List.mem_map_of_mem (f := CoreEvidence.toEvidence) he)
  obtain ⟨id, hid⟩ := (Dict.mem_values_iff _ _).mp hstored
  obtain ⟨hsame, hfree⟩ := hkeyed id _ hid
  exact hsame ▸ hfree

def plainRuntime : Runtime where
  dateParse _ := some 0
  toISOString _ := JsString.ofText "1970-01-01T00:00:00.000Z"
  numberText _ := []

def sharedEvidenceId : String := "evidence:00000000000000000000000000000000"

/-- What the core answers for a job in planning, with one item of evidence. -/
def plannedResponse : Value :=
  .object [("id", .text "remote-job"), ("state", .text "planning"), ("coreRevision", .num 1),
    ("evidence", .arr [.object [("id", .text sharedEvidenceId), ("category", .text "log"), ("filename", .text "run.log"),
      ("mediaType", .text "text/plain"), ("sizeBytes", .num 3),
      ("sha256", .text "0000000000000000000000000000000000000000000000000000000000000000"),
      ("createdAt", .text "1970-01-01"), ("corePath", .text "/v1/jobs/remote-job/evidence/run.log")]])]

/-- Whether the response is accepted, and whether it is accepted again. -/
def acceptedTwice (db : Database) (input : Value) : Option (Bool × Bool) :=
  (parseCoreSnapshot plainRuntime input).map fun parsed =>
    match db.mirror plainRuntime parsed.2 with
    | .error _ => (false, false)
    | .ok db' => (true, (db'.mirror plainRuntime parsed.2).isOk)

theorem plannedResponse_twice :
    acceptedTwice (.created 0 []) plannedResponse = some (true, true) ∧
    acceptedTwice (.created 0 [JsString.ofText sharedEvidenceId]) plannedResponse = some (true, false) := by
  decide +kernel

theorem acceptedTwice_cases {db : Database} {input : Value} {second : Bool}
    (h : acceptedTwice db input = some (true, second)) : ∃ parsed db', parseCoreSnapshot plainRuntime input = some parsed ∧
      db.mirror plainRuntime parsed.2 = .ok db' ∧ (db'.mirror plainRuntime parsed.2).isOk = second := by
  obtain ⟨parsed, hparse, h⟩ := Option.map_eq_some_iff.mp h
  split at h
  · cases h
  · next db' hmirror => exact ⟨parsed, db', hparse, hmirror, (Prod.mk.inj h).2⟩

theorem created_reached (sources : Nat) (other : List JsString) : (Database.created sources other).Reached plainRuntime :=
  ⟨sources, other, [], .nil _⟩

end LilTweak.Worker
