import LilTweak.Worker.Requests

/-!
# What no request undoes

How the row, its evidence and the core's jobs can differ between two moments. A request
relies on this of the others. It guarantees it as well, as long as each batch that applies
was decided on the row as it still is: the guards say that for the batches one by one.
-/

namespace LilTweak.Worker

open LilTweak.Lib

/-- A dispatch is reserved, or a job of the core is bound. -/
def JobRow.Held (r : JobRow) : Prop := r.dispatchReservedAt ≠ none ∨ r.remoteJobId ≠ none

/-- `r'` is the row at some moment after it was `r`. A revision stands for all columns but the
authorized decision. -/
structure JobRow.Later (r r' : JobRow) : Prop where
  revision : r.revision ≤ r'.revision
  same : r.revision = r'.revision → { r' with authorized := r.authorized } = r
  authorized : ∀ i, r.authorized = some i → r'.authorized = some i
  coreRevision : ∀ c, r.coreRevision = some c → ∃ c', r'.coreRevision = some c' ∧ c ≤ c'
  sourceDigest : ∀ d, r.sourceDigest = some d → r'.sourceDigest = some d
  approvalProposal : ∀ p, r.approvalProposal = some p →
    ∃ p', r'.approvalProposal = some p' ∧ p'.fingerprint = p.fingerprint
  terminal : r.state.terminal = true → r'.state = r.state
  remoteJobId : ∀ id, r.remoteJobId = some id → r'.remoteJobId = some id
  held : r.Held → r'.Held

theorem JobRow.Later.refl (r : JobRow) : r.Later r where
  revision := le_refl _
  same _ := rfl
  authorized _ h := h
  coreRevision c h := ⟨c, h, le_refl c⟩
  sourceDigest _ h := h
  approvalProposal p h := ⟨p, h, rfl⟩
  terminal _ := rfl
  remoteJobId _ h := h
  held h := h

theorem JobRow.Later.trans {r s t : JobRow} (h : r.Later s) (h' : s.Later t) : r.Later t where
  revision := h.revision.trans h'.revision
  same he := by
    have h1 := h.revision
    have h2 := h'.revision
    have hs := h.same (by omega)
    have ht := h'.same (by omega)
    rw [← hs, ← ht]
  authorized i hi := h'.authorized i (h.authorized i hi)
  coreRevision c hc := by
    obtain ⟨d, hd, hcd⟩ := h.coreRevision c hc
    obtain ⟨e, he, hde⟩ := h'.coreRevision d hd
    exact ⟨e, he, hcd.trans hde⟩
  sourceDigest d hd := h'.sourceDigest d (h.sourceDigest d hd)
  approvalProposal p hp := by
    obtain ⟨q, hq, hpq⟩ := h.approvalProposal p hp
    obtain ⟨u, hu, hqu⟩ := h'.approvalProposal q hq
    exact ⟨u, hu, hqu.trans hpq⟩
  terminal ht := by
    have hs := h.terminal ht
    exact (h'.terminal (hs ▸ ht)).trans hs
  remoteJobId id hid := h'.remoteJobId id (h.remoteJobId id hid)
  held hr := h'.held (h.held hr)

/-- What holds of the row at any moment. -/
structure JobRow.Sound (r : JobRow) : Prop where
  sourceDigest : r.sourceDigest ≠ some []
  consumed : r.approvalConsumed = true → r.state = .completed ∧
    ∃ d, r.proposalDigest = some d ∧ r.authorized = some ⟨.approve, d⟩
  reservedAt : r.dispatchReservedAt ≠ some []
  remoteJobId : r.remoteJobId ≠ some []

/-- The evidence of `db` is all there, unchanged, in `db'`. -/
def Database.KeepsEvidence (db db' : Database) : Prop :=
  ∀ id e, db.evidence.get? id = some e → db'.evidence.get? id = some e

/-- What holds of the tables and the core at any moment. A job of the core is only created for
a row that is held, and a row cancelled without the core is never held. -/
structure World.Sound (w : World) : Prop where
  row : w.db.job.Sound
  created : w.created ≠ [] → w.db.job.Held
  bound : ∀ id, w.db.job.remoteJobId = some id → id ∈ w.created
  cancelled : w.locallyCancelled = true → w.db.job.state = .cancelled ∧ ¬w.db.job.Held

/-- `w'` is the state at some moment after it was `w`. -/
structure World.Later (w w' : World) : Prop where
  row : w.db.job.Later w'.db.job
  evidence : w.db.KeepsEvidence w'.db
  created : ∀ id ∈ w.created, id ∈ w'.created
  cancelled : w.locallyCancelled = true → w'.locallyCancelled = true

theorem World.Later.refl (w : World) : w.Later w where
  row := .refl _
  evidence _ _ h := h
  created _ h := h
  cancelled h := h

theorem World.Later.trans {u v w : World} (h : u.Later v) (h' : v.Later w) : u.Later w where
  row := h.row.trans h'.row
  evidence id e he := h'.evidence id e (h.evidence id e he)
  created id hid := h'.created id (h.created id hid)
  cancelled hc := h'.cancelled (h.cancelled hc)

/-! ## Batches on the row -/

variable {w w' : World}

/-- A step that only writes the row, as a later row allows, and moves neither the core nor what
holds the row. -/
theorem World.Sound.rewrite (hw : w.Sound) (row : JobRow) (hrow : row.Sound)
    (hlater : w.db.job.Later row) (hremote : row.remoteJobId = w.db.job.remoteJobId)
    (hreserved : row.dispatchReservedAt = w.db.job.dispatchReservedAt) :
    ({ w with db := { w.db with job := row } } : World).Sound ∧
      w.Later { w with db := { w.db with job := row } } := by
  refine ⟨⟨hrow, fun hc => hlater.held (hw.created hc), fun id hid => ?_, fun hc => ?_⟩,
    ⟨hlater, fun _ _ he => he, fun _ h => h, fun h => h⟩⟩
  · exact hw.bound id (hremote ▸ hid)
  · obtain ⟨hstate, hheld⟩ := hw.cancelled hc
    have hterminal : w.db.job.state.terminal = true := by rw [hstate]; decide
    refine ⟨(hlater.terminal hterminal).trans hstate, fun hh => hheld ?_⟩
    simpa only [JobRow.Held, hremote, hreserved] using hh

/-- Recording a decision writes nothing but the decision, and that only once. -/
theorem recordDecisionIntent_later {db db' : Database} {rev : Int} {intent : DecisionIntent}
    (h : db.recordDecisionIntent rev intent = some db') (hrow : db.job.Sound) :
    ∃ row, db' = { db with job := row } ∧ row.Sound ∧ db.job.Later row ∧
      row.remoteJobId = db.job.remoteJobId ∧ row.dispatchReservedAt = db.job.dispatchReservedAt := by
  unfold Database.recordDecisionIntent at h
  split at h
  · next hif =>
    obtain rfl := Option.some.inj h
    refine ⟨_, rfl, ⟨hrow.sourceDigest, fun hc => ?_, hrow.reservedAt, hrow.remoteJobId⟩, ?_, rfl, rfl⟩
    · have hstate := (hrow.consumed hc).1
      rw [hif.2.1] at hstate
      cases hstate
    · refine { JobRow.Later.refl db.job with authorized := fun i hi => ?_, same := fun _ => rfl }
      rcases hif.2.2.2 with hnone | hsome
      · rw [hnone] at hi
        cases hi
      · exact hsome ▸ hi
  · cases h

theorem JobRow.Later.move {r : JobRow} (state : JobState) (summary : JsString)
    (h : r.state.terminal = true → state = r.state) :
    r.Later { r with state, summary, revision := r.revision + 1 } :=
  { JobRow.Later.refl r with
    revision := Nat.le_succ _
    same := fun he => absurd he (Nat.ne_of_lt (Nat.lt_succ_self _))
    terminal := h }

/-- A row that is not completed has not consumed its approval. -/
theorem JobRow.Sound.move {r : JobRow} (hr : r.Sound) (state : JobState) (summary : JsString)
    (h : r.state.terminal = false) :
    ({ r with state, summary, revision := r.revision + 1 } : JobRow).Sound where
  sourceDigest := hr.sourceDigest
  consumed hc := by
    rw [(hr.consumed hc).1] at h
    cases h
  reservedAt := hr.reservedAt
  remoteJobId := hr.remoteJobId

/-- A legal move starts in a state that is not terminal. -/
theorem transitionAllowed_terminal {source target : JobState} (h : transitionAllowed source target = true) :
    source.terminal = false := by
  cases source <;> first | rfl | cases target <;> cases h

/-- A move of the row; where it cancels the row, nothing holds the row. -/
theorem World.Sound.transition (hw : w.Sound) {next : JobState} (summary : JsString)
    (hallowed : transitionAllowed w.db.job.state next = true)
    (hcancel : next = .cancelled → ¬w.db.job.Held) :
    ({ w with
      db := { w.db with job := { w.db.job with state := next, summary, revision := w.db.job.revision + 1 } }
      locallyCancelled := w.locallyCancelled || decide (next = .cancelled) } : World).Sound ∧
    w.Later { w with
      db := { w.db with job := { w.db.job with state := next, summary, revision := w.db.job.revision + 1 } }
      locallyCancelled := w.locallyCancelled || decide (next = .cancelled) } := by
  have hopen := transitionAllowed_terminal hallowed
  have hlater : w.db.job.Later _ := .move next summary fun ht => by
    rw [hopen] at ht
    cases ht
  obtain ⟨hsound, hafter⟩ := hw.rewrite _ (hw.row.move next summary hopen) hlater rfl rfl
  refine ⟨⟨hsound.row, hsound.created, hsound.bound, fun hc => ?_⟩,
    ⟨hafter.row, hafter.evidence, hafter.created, fun hc => ?_⟩⟩
  · have hnext : w.locallyCancelled = true ∨ next = .cancelled := by simpa using hc
    rcases hnext with hbefore | hnow
    · have hstate := (hw.cancelled hbefore).1
      rw [hstate] at hopen
      cases hopen
    · exact ⟨hnow, hcancel hnow⟩
  · simp only [hc, Bool.true_or]

/-- Reserving a dispatch. -/
theorem World.Sound.reserveDispatch (hw : w.Sound) {rev : Int} {reservedAt : JsString} {db : Database}
    (hne : reservedAt ≠ []) (h : w.db.reserveDispatch rev reservedAt = some db) :
    ({ w with db } : World).Sound ∧ w.Later { w with db } := by
  unfold Database.reserveDispatch at h
  split at h
  · next hif =>
    obtain ⟨-, hstate, hremote, -⟩ := hif
    obtain rfl := Option.some.inj h
    refine ⟨⟨⟨hw.row.sourceDigest, hw.row.consumed, ?_, hw.row.remoteJobId⟩, ?_, hw.bound, ?_⟩,
      ⟨?_, fun _ _ he => he, fun _ h => h, fun h => h⟩⟩
    · exact fun he => hne (Option.some.inj he)
    · exact fun _ => .inl (by simp)
    · intro hc
      have hcancelled := (hw.cancelled hc).1
      rw [hstate] at hcancelled
      cases hcancelled
    · exact { JobRow.Later.refl w.db.job with
        revision := Nat.le_succ _
        same := fun he => absurd he (Nat.ne_of_lt (Nat.lt_succ_self _))
        held := fun _ => .inl (by simp) }
  · cases h

/-- Binding a job of the core to the row. -/
theorem World.Sound.setRemoteJob (hw : w.Sound) {rev : Int} {id summary : JsString} {db : Database}
    (hne : id ≠ []) (hid : id ∈ w.created) (h : w.db.setRemoteJob rev id summary = some db) :
    ({ w with db } : World).Sound ∧ w.Later { w with db } := by
  unfold Database.setRemoteJob at h
  split at h
  · next hif =>
    obtain ⟨-, hremote, hreserved⟩ := hif
    obtain rfl := Option.some.inj h
    refine ⟨⟨⟨hw.row.sourceDigest, hw.row.consumed, by simp, ?_⟩, ?_, ?_, ?_⟩,
      ⟨?_, fun _ _ he => he, fun _ h => h, fun h => h⟩⟩
    · exact fun he => hne (Option.some.inj he)
    · exact fun _ => .inr (by simp)
    · intro id' hid'
      obtain rfl := Option.some.inj hid'
      exact hid
    · exact fun hc => absurd (Or.inl hreserved) (hw.cancelled hc).2
    · exact { JobRow.Later.refl w.db.job with
        revision := Nat.le_succ _
        same := fun he => absurd he (Nat.ne_of_lt (Nat.lt_succ_self _))
        remoteJobId := fun id' hid' => by
          rw [hremote] at hid'
          cases hid'
        held := fun _ => .inr (by simp) }
  · cases h

/-- A source was uploaded. -/
theorem World.Sound.sourceUploaded (hw : w.Sound) (ready : Bool) :
    ({ w with db := w.db.sourceUploaded ready } : World).Sound ∧
      w.Later { w with db := w.db.sourceUploaded ready } := by
  unfold Database.sourceUploaded
  split
  · next hstate =>
    have hopen : w.db.job.state.terminal = false := by rw [hstate]; rfl
    refine hw.rewrite _ (hw.row.move _ _ hopen) (.move _ _ fun ht => ?_) rfl rfl
    rw [hopen] at ht
    cases ht
  · exact ⟨hw, .refl w⟩

/-! ## The batch of a snapshot -/

/-- What the batch of a snapshot writes over the row it was decided on. -/
structure SnapshotWrite.Follows (x : SnapshotWrite) (current : JobRow) (intent : Option DecisionIntent) :
    Prop where
  readRevision : x.readRevision = current.revision
  started : current.state.terminal = false
  sourceDigest : x.sourceDigest ≠ some []
  sourceKept : ∀ d, d ≠ [] → current.sourceDigest = some d → x.sourceDigest = some d
  proposalKept : ∀ p, current.approvalProposal = some p →
    ∃ p', x.approvalProposal = some p' ∧ p'.fingerprint = p.fingerprint
  consumed : x.approvalConsumed = true → current.approvalConsumed = true ∨
    (x.state = .completed ∧ ∃ d, x.proposalDigest = some d ∧ intent = some ⟨.approve, d⟩)

theorem coreSnapshotTransitionAllowed_started {source target : JobState} {authorized : Bool}
    (h : coreSnapshotTransitionAllowed source target authorized = true) : source.terminal = false := by
  unfold coreSnapshotTransitionAllowed at h
  split at h
  · cases h
  · next hne => simpa using hne

theorem approvalProposalsEqual_some {p : ApprovalProposal} {right : Option ApprovalProposal}
    (h : approvalProposalsEqual (some p) right = true) :
    ∃ p', right = some p' ∧ p'.fingerprint = p.fingerprint := by
  cases right with
  | none => simp [approvalProposalsEqual] at h
  | some p' =>
    refine ⟨p', rfl, ?_⟩
    simpa [approvalProposalsEqual, eq_comm] using h

theorem approvedIntent_exact {intent : Option DecisionIntent} {digest : Option JsString}
    (h : ¬(match intent, digest with
      | some intent, some digest => decide (intent.decision = .approve) && decide (digest ≠ []) &&
          decide (intent.proposalDigest = digest)
      | _, _ => false) = false) : ∃ d, digest = some d ∧ intent = some ⟨.approve, d⟩ := by
  split at h
  · next i d =>
    obtain ⟨decision, proposalDigest⟩ := i
    simp only [Bool.not_eq_false, Bool.and_eq_true, decide_eq_true_eq] at h
    obtain ⟨⟨rfl, -⟩, rfl⟩ := h
    exact ⟨proposalDigest, rfl, rfl⟩
  · exact absurd rfl h

/-- `applyCoreSnapshot` accepts nothing else. -/
theorem applyCoreSnapshot_follows {r : Runtime} {current : JobRow} {stored : List Evidence}
    {rev : Option Int} {intent : Option DecisionIntent} {snapshot : CoreSnapshot} {x : SnapshotWrite}
    (h : applyCoreSnapshot r current stored rev intent snapshot = .ok (some x)) :
    x.Follows current intent := by
  unfold applyCoreSnapshot at h
  obtain ⟨-, h⟩ := unless_ok h
  obtain ⟨-, h⟩ := unless_ok h
  obtain ⟨_, -, _, h, rfl⟩ := exists_bind_ok.mp ⟨_, h, rfl⟩
  obtain ⟨hdigest, h⟩ := unless_ok h
  obtain ⟨hsource, h⟩ := unless_ok h
  obtain ⟨-, h⟩ := unless_ok h
  obtain ⟨-, h⟩ := unless_ok h
  obtain ⟨hproposal, h⟩ := unless_ok h
  obtain ⟨hconsumed, h⟩ := unless_ok h
  obtain ⟨-, h⟩ := unless_ok h
  obtain ⟨-, h⟩ := unless_ok h
  -- The snapshot was not mirrored before, or nothing would be written.
  obtain ⟨-, h⟩ := else_ok (by simp) h
  obtain ⟨-, h⟩ := unless_ok h
  obtain ⟨hallowed, h⟩ := unless_ok h
  cases hrows : snapshot.evidence.mapM evidenceRow with
  | none =>
    simp only [hrows] at h
    cases h
  | some rows =>
  simp only [hrows] at h
  obtain rfl := Option.some.inj (Except.ok.inj h)
  refine ⟨rfl, coreSnapshotTransitionAllowed_started (by simpa using hallowed), ?_, ?_, ?_, ?_⟩
  · intro he
    simp only at he
    rw [he] at hdigest
    exact hdigest rfl
  · intro d hd hcur
    by_contra hne
    apply hsource
    rw [Option.any_eq_true]
    exact ⟨d, hcur, by simp only [ne_eq, hd, not_false_eq_true, decide_true, Bool.true_and]
                       exact decide_eq_true hne⟩
  · intro p hp
    apply approvalProposalsEqual_some
    simpa [hp] using hproposal
  · intro hx
    rcases Bool.eq_false_or_eq_true current.approvalConsumed with hcur | hcur
    · exact .inl hcur
    · right
      have hsnap : snapshot.approvalConsumed = true := by simpa [hcur] using hx
      have hall := not_or.mp fun hn => hconsumed ⟨hcur, hsnap, hn⟩
      obtain ⟨happroved, hstates⟩ := hall
      refine ⟨not_not.mp (not_or.mp hstates).2, ?_⟩
      exact approvedIntent_exact happroved

/-- Evidence goes in beside what is there, and touches nothing else. -/
theorem insertEvidence_keeps (rows : List Evidence) (db : Database) :
    (rows.foldl Database.insertEvidence db).job = db.job ∧
      db.KeepsEvidence (rows.foldl Database.insertEvidence db) := by
  induction rows generalizing db with
  | nil => exact ⟨rfl, fun _ _ h => h⟩
  | cons e rest ih =>
    obtain ⟨hjob, hkeeps⟩ := ih (db.insertEvidence e)
    have hone : (db.insertEvidence e).job = db.job ∧ db.KeepsEvidence (db.insertEvidence e) := by
      unfold Database.insertEvidence
      split
      · exact ⟨rfl, fun _ _ h => h⟩
      · next hnew =>
        refine ⟨rfl, fun id row hrow => ?_⟩
        have hne : id ≠ e.id := by
          intro heq
          apply hnew
          left
          rw [Dict.contains_iff, ← heq]
          exact ⟨row, hrow⟩
        rw [Dict.get?_set, if_neg hne]
        exact hrow
    exact ⟨hjob.trans hone.1, fun id row h => hkeeps id row (hone.2 id row h)⟩

/-- Mirroring a snapshot that was decided on a row as it once was, with a decision that was
recorded by then. -/
theorem World.Sound.applySnapshot (hw : w.Sound) {x : SnapshotWrite} {current : JobRow}
    {intent : Option DecisionIntent} (hx : x.Follows current intent) (hread : current.Later w.db.job)
    (hintent : ∀ i, intent = some i → w.db.job.authorized = some i) :
    ({ w with db := w.db.applySnapshot x } : World).Sound ∧ w.Later { w with db := w.db.applySnapshot x } := by
  have hupdate : ({ w with db := w.db.updateSnapshot x } : World).Sound ∧
      w.Later { w with db := w.db.updateSnapshot x } := by
    unfold Database.updateSnapshot
    split
    · next happlies =>
      simp only [Database.snapshotApplies, Bool.and_eq_true, decide_eq_true_eq] at happlies
      obtain ⟨hrev, hcore⟩ := happlies
      -- The row is still the one the snapshot was decided on.
      have hsame := hread.same (by rw [hrev, hx.readRevision])
      have hstarted : w.db.job.state.terminal = false := by
        have hstate := congrArg JobRow.state hsame
        exact hstate ▸ hx.started
      apply hw.rewrite
      · refine ⟨hx.sourceDigest, fun hc => ?_, hw.row.reservedAt, hw.row.remoteJobId⟩
        rcases hx.consumed hc with hbefore | ⟨hstate, d, hd, happroved⟩
        · have hconsumed := congrArg JobRow.approvalConsumed hsame
          have hstate := (hw.row.consumed (hconsumed.trans hbefore)).1
          rw [hstate] at hstarted
          cases hstarted
        · exact ⟨hstate, d, hd, hintent _ happroved⟩
      · refine { JobRow.Later.refl w.db.job with
          revision := Nat.le_succ _
          same := fun he => absurd he (Nat.ne_of_lt (Nat.lt_succ_self _))
          coreRevision := fun c hc => ⟨x.coreRevision, rfl, ?_⟩
          sourceDigest := fun d hd => ?_
          approvalProposal := fun p hp => ?_
          terminal := fun ht => ?_ }
        · rw [hc] at hcore
          simpa using hcore
        · have hne : d ≠ [] := fun he => hw.row.sourceDigest (he ▸ hd)
          exact hx.sourceKept d hne ((congrArg JobRow.sourceDigest hsame).symm.trans hd)
        · exact hx.proposalKept p ((congrArg JobRow.approvalProposal hsame).symm.trans hp)
        · rw [hstarted] at ht
          cases ht
      · rfl
      · rfl
    · exact ⟨hw, .refl w⟩
  simp only [Database.applySnapshot]
  split
  · obtain ⟨hjob, hkeeps⟩ := insertEvidence_keeps x.evidence (w.db.updateSnapshot x)
    obtain ⟨hsound, hlater⟩ := hupdate
    have hevidence : World.Later { w with db := w.db.updateSnapshot x }
        { w with db := x.evidence.foldl Database.insertEvidence (w.db.updateSnapshot x) } :=
      ⟨hjob ▸ .refl _, hkeeps, fun _ h => h, fun h => h⟩
    refine ⟨⟨?_, ?_, ?_, ?_⟩, hlater.trans hevidence⟩
    · exact hjob ▸ hsound.row
    · exact hjob ▸ hsound.created
    · exact hjob ▸ hsound.bound
    · exact hjob ▸ hsound.cancelled
  · exact hupdate

end LilTweak.Worker
