import LilTweak.Orchestrator.System

/-!
# Approvals

The links between the approvals, their index and the jobs. They hold in every
run in which an approval is never recorded under a token hash that is already
taken: the dict has no other protection against a second job's approval.
-/

namespace LilTweak.Orchestrator

open LilTweak.Lib LilTweak.Core LilTweak.Store LilTweak.Evidence MemoryJobStore

/-- The approval a decision is about to record has a token hash of its own. -/
def TokenUnused (s : MemoryJobStore) (c : Call) : Prop :=
  ∀ call, c.op = .decideJobIdempotent call →
    s.decisions.get? (call.ownerId, call.idempotencyKey) = none →
    ∀ job, s.jobs.get? call.jobId = some job →
    ∀ a, call.approval job (call.now.getD (c.clk 0)) = some a → s.approvals.get? a.tokenHash = none

/-- The job of an approval: it is the approval's own, it has left the wait for the
approval, and it is completed exactly when the approval is consumed. -/
structure Settled (a : Approval) (job : Job) : Prop where
  owner : a.ownerId = job.ownerId
  proposal : job.proposalDigest = some a.proposalDigest
  state : job.state = .applying ∨ job.state.terminal = true
  completed : job.state = .completed → a.consumed = true ∧ job.approvalConsumed = true
  consumed : a.consumed = true → job.state = .completed ∧ job.approvalConsumed = true

/-- The links between the approvals, the index and the jobs. -/
structure Ledger (s : MemoryJobStore) : Prop where
  indexed : ∀ id revision digest hash, s.approvalIndex.get? (id, revision, digest) = some hash →
    ∃ a, s.approvals.get? hash = some a ∧ a.jobId = id ∧ a.revision = revision ∧
      a.proposalDigest = digest
  settled : ∀ hash a, s.approvals.get? hash = some a →
    ∃ job, s.jobs.get? a.jobId = some job ∧ Settled a job
  single : ∀ hash hash' a a', s.approvals.get? hash = some a → s.approvals.get? hash' = some a' →
    a.jobId = a'.jobId → hash = hash'
  applying : ∀ id job, s.jobs.get? id = some job → job.state = .applying →
    ∃ hash a, s.approvals.get? hash = some a ∧ a.jobId = id

theorem ledger_empty : Ledger {} := by
  constructor <;> intros <;> contradiction

variable {H : Hashes} {P : Platform} {s s' : MemoryJobStore}

/-- A write to tables that hold neither jobs nor approvals keeps the links. -/
theorem Ledger.aside (h : Ledger s) (hj : s'.jobs = s.jobs) (ha : s'.approvals = s.approvals)
    (hi : s'.approvalIndex = s.approvalIndex) : Ledger s' where
  indexed := by rw [ha, hi]; exact h.indexed
  settled := by rw [ha, hj]; exact h.settled
  single := by rw [ha]; exact h.single
  applying := by rw [ha, hj]; exact h.applying

/-- A job that is not being applied has no live approval. -/
theorem Ledger.unapproved (h : Ledger s) {id : JobId} {job : Job} (hjob : s.jobs.get? id = some job)
    (hlive : job.state.terminal = false) (hstate : job.state ≠ .applying) {hash : String}
    {a : Approval} (ha : s.approvals.get? hash = some a) : a.jobId ≠ id := by
  rintro rfl
  obtain ⟨job', hjob', hset⟩ := h.settled hash a ha
  obtain rfl := Option.some.inj (hjob.symm.trans hjob')
  rcases hset.state with happ | hterm
  · exact hstate happ
  · rw [hlive] at hterm
    cases hterm

/-- The approval of a job that is being applied is not consumed. -/
theorem Ledger.unconsumed (h : Ledger s) {job : Job} (hstate : job.state = .applying) {hash : String}
    {a : Approval} (ha : s.approvals.get? hash = some a) (hjob : s.jobs.get? a.jobId = some job) :
    a.consumed = false := by
  obtain ⟨job', hjob', hset⟩ := h.settled hash a ha
  obtain rfl := Option.some.inj (hjob.symm.trans hjob')
  by_contra hc
  have hdone := (hset.consumed (by simpa using hc)).1
  rw [hstate] at hdone
  cases hdone

/-- A live job may be written anew: a job that is being applied only to end
without completing, any other job not to be applied. -/
theorem Ledger.write (h : Ledger s) (s' : MemoryJobStore) {id : JobId} {job job' : Job} (hjob : s.jobs.get? id = some job)
    (hj : s'.jobs = s.jobs.set id job') (ha : s'.approvals = s.approvals)
    (hi : s'.approvalIndex = s.approvalIndex) (hlive : job.state.terminal = false)
    (hnot : job'.state ≠ .applying)
    (hend : job.state = .applying → job'.state.terminal = true ∧ job'.state ≠ .completed ∧
      job'.ownerId = job.ownerId ∧ job'.proposalDigest = job.proposalDigest) : Ledger s' where
  indexed := by rw [ha, hi]; exact h.indexed
  single := by rw [ha]; exact h.single
  settled hash a hget := by
    rw [ha] at hget
    obtain ⟨job₁, hjob₁, hset⟩ := h.settled hash a hget
    rw [hj, Dict.get?_set]
    by_cases hid : a.jobId = id
    · rw [hid, hjob] at hjob₁
      obtain rfl := Option.some.inj hjob₁
      have hstate : job.state = .applying := by
        rcases hset.state with happ | hterm
        · exact happ
        · rw [hlive] at hterm
          cases hterm
      obtain ⟨hterm, hne, howner, hdigest⟩ := hend hstate
      have hopen := h.unconsumed hstate hget (by rw [hid, hjob])
      refine ⟨job', by rw [if_pos hid], ?_, ?_, .inr hterm, fun hc => absurd hc hne, fun hc => ?_⟩
      · rw [howner, hset.owner]
      · rw [hdigest, hset.proposal]
      · rw [hopen] at hc
        cases hc
    · exact ⟨job₁, by rw [if_neg hid, hjob₁], hset⟩
  applying id' job₁ hjob₁ hstate := by
    rw [ha]
    rw [hj, Dict.get?_set] at hjob₁
    split at hjob₁
    · obtain rfl := Option.some.inj hjob₁
      exact absurd hstate hnot
    · exact h.applying id' job₁ hjob₁ hstate

theorem Recovers.ledger {t : Time} {id : JobId} (h : Recovers t s id s') (hw : s.WellFormed)
    (hl : Ledger s) : Ledger s' := by
  obtain ⟨job, target, at_, hjob, hactive, -, htarget, rfl⟩ := h.effect
  have hwrite := hl.write { s with
      jobs := s.jobs.set id (advance job target t), claims := s.claims.erase id }
    hjob rfl rfl rfl (active_live hactive) ?_ ?_
  · exact hwrite.aside rfl rfl rfl
  · rcases reconcileTarget_cases htarget with ⟨-, rfl⟩ | ⟨-, ⟨-, -, -, rfl⟩ | rfl⟩ <;>
      simp [advance]
  · intro hstate
    rcases reconcileTarget_cases htarget with ⟨hnot, -⟩ | ⟨-, ⟨a, ha, hc, rfl⟩ | rfl⟩
    · exact absurd hstate hnot
    · -- The approval that reconciliation found consumed belongs to a completed job.
      have hfind := List.find?_some ha
      simp only [Bool.and_eq_true, beq_iff_eq] at hfind
      obtain ⟨hash, hget⟩ := (Dict.mem_values_iff _ _).mp (List.mem_of_find?_eq_some ha)
      have hopen := hl.unconsumed hstate hget (by rw [hfind.1.1, hw.ids id job hjob, hjob])
      rw [hopen] at hc
      cases hc
    · exact ⟨rfl, by simp [advance], rfl, rfl⟩

theorem recoveries_ledger {t : Time} {ids : List JobId} (h : Run (Recovers t) s ids s')
    (hw : s.WellFormed) (hl : Ledger s) : Ledger s' :=
  (h.preserves (P := fun s => s.WellFormed ∧ Ledger s)
    (fun _ _ _ _ hs hstep => ⟨hstep.wellFormed hs.1, Recovers.ledger hstep hs.1 hs.2⟩) ⟨hw, hl⟩).2

theorem decideApproval_fields {call : DecideCall} {job : Job} {t : Time} {a : Approval}
    (h : call.approval job t = some a) : a.jobId = call.jobId ∧ a.ownerId = call.ownerId ∧
      a.revision = job.revision ∧ a.proposalDigest = call.proposalDigest ∧ a.consumed = false := by
  unfold DecideCall.approval at h
  split at h
  · split at h
    · split at h
      · obtain rfl := Option.some.inj h
        exact ⟨rfl, rfl, rfl, rfl, rfl⟩
      · cases h
    · cases h
  · cases h

theorem decideApproval_token {call : DecideCall} {job : Job} {t : Time} {a : Approval}
    (h : call.approval job t = some a) : call.approvalTokenHash = some a.tokenHash := by
  unfold DecideCall.approval at h
  split at h
  · next htoken _ =>
    split at h
    · split at h
      · obtain rfl := Option.some.inj h
        exact htoken
      · cases h
    · cases h
  · cases h

/-- An approval is recorded under a hash of its own for a job that awaited it. -/
theorem Ledger.record (h : Ledger s) {id : JobId} {job : Job} {a : Approval} {t : Time}
    {digest : String} (hjob : s.jobs.get? id = some job) (hstate : job.state = .awaitingApproval)
    (hdigest : job.proposalDigest = some digest)
    (hfields : a.jobId = id ∧ a.ownerId = job.ownerId ∧ a.revision = job.revision ∧
      a.proposalDigest = digest ∧ a.consumed = false)
    (hfree : s.approvals.get? a.tokenHash = none)
    (hj : s'.jobs = s.jobs.set id (approved job t))
    (ha : s'.approvals = s.approvals.set a.tokenHash a)
    (hi : s'.approvalIndex = s.approvalIndex.set (id, job.revision, digest) a.tokenHash) :
    Ledger s' := by
  obtain ⟨hid, howner, hrev, hdig, hopen⟩ := hfields
  have other : ∀ {hash : String} {b : Approval}, s.approvals.get? hash = some b → b.jobId ≠ id :=
    fun hb => h.unapproved hjob (by rw [hstate]; rfl) (by rw [hstate]; decide) hb
  have kept : ∀ {hash : String} {b : Approval}, s.approvals.get? hash = some b →
      s'.approvals.get? hash = some b := by
    intro hash b hb
    have hne : hash ≠ a.tokenHash := fun e => by rw [e, hfree] at hb; cases hb
    rw [ha, Dict.get?_set_ne _ _ hne, hb]
  have back : ∀ {hash : String} {b : Approval}, s'.approvals.get? hash = some b →
      (hash = a.tokenHash ∧ b = a) ∨ s.approvals.get? hash = some b := by
    intro hash b hb
    rw [ha, Dict.get?_set] at hb
    split at hb
    · next hh => exact .inl ⟨hh, (Option.some.inj hb).symm⟩
    · exact .inr hb
  constructor
  · intro id' revision' digest' hash hget
    rw [hi, Dict.get?_set] at hget
    split at hget
    · next hkey =>
      obtain rfl := Option.some.inj hget
      obtain ⟨rfl, rfl, rfl⟩ := by simpa using hkey
      exact ⟨a, by rw [ha, Dict.get?_set_self], hid, hrev, hdig⟩
    · obtain ⟨b, hb, hrest⟩ := h.indexed _ _ _ _ hget
      exact ⟨b, kept hb, hrest⟩
  · intro hash b hb
    rcases back hb with ⟨-, rfl⟩ | hb
    · refine ⟨approved job t, by rw [hj, hid, Dict.get?_set_self], howner, ?_, .inl rfl,
        (fun hc => by cases hc), fun hc => ?_⟩
      · rw [hdig]
        exact hdigest
      · rw [hopen] at hc
        cases hc
    · obtain ⟨job', hjob', hset⟩ := h.settled hash b hb
      exact ⟨job', by rw [hj, Dict.get?_set_ne _ _ (other hb), hjob'], hset⟩
  · intro hash hash' b b' hb hb' hsame
    rcases back hb with ⟨rfl, rfl⟩ | hb <;> rcases back hb' with ⟨rfl, rfl⟩ | hb'
    · rfl
    · exact absurd (hsame.symm.trans hid) (other hb')
    · exact absurd (hsame.trans hid) (other hb)
    · exact h.single hash hash' b b' hb hb' hsame
  · intro id' job' hjob' hstate'
    rw [hj, Dict.get?_set] at hjob'
    split at hjob'
    · next hh => exact ⟨a.tokenHash, a, by rw [ha, Dict.get?_set_self], by rw [hid, hh]⟩
    · obtain ⟨hash, b, hb, hrest⟩ := h.applying id' job' hjob' hstate'
      exact ⟨hash, b, kept hb, hrest⟩

/-- The approval of a job that is being applied is consumed, and the job completes. -/
theorem Ledger.consume (h : Ledger s) {id : JobId} {job : Job} {a : Approval} {t : Time}
    {hash : String} (hjob : s.jobs.get? id = some job)
    (hget : s.approvals.get? hash = some a) (hid : a.jobId = id)
    (hj : s'.jobs = s.jobs.set id (Store.exported job t))
    (ha : s'.approvals = s.approvals.set hash (consumedAt a t))
    (hi : s'.approvalIndex = s.approvalIndex) : Ledger s' := by
  obtain ⟨job₁, hjob₁, hset⟩ := h.settled hash a hget
  rw [hid, hjob] at hjob₁
  obtain rfl := Option.some.inj hjob₁
  have kept : ∀ {hash' : String} {b : Approval}, s.approvals.get? hash' = some b →
      ∃ b', s'.approvals.get? hash' = some b' ∧ b'.jobId = b.jobId ∧ b'.revision = b.revision ∧
        b'.proposalDigest = b.proposalDigest := by
    intro hash' b hb
    rw [ha, Dict.get?_set]
    by_cases hh : hash' = hash
    · subst hh
      obtain rfl := Option.some.inj (hget.symm.trans hb)
      exact ⟨consumedAt a t, by rw [if_pos rfl], rfl, rfl, rfl⟩
    · exact ⟨b, by rw [if_neg hh, hb], rfl, rfl, rfl⟩
  have back : ∀ {hash' : String} {b : Approval}, s'.approvals.get? hash' = some b →
      (hash' = hash ∧ b = consumedAt a t) ∨ (hash' ≠ hash ∧ s.approvals.get? hash' = some b) := by
    intro hash' b hb
    rw [ha, Dict.get?_set] at hb
    split at hb
    · next hh => exact .inl ⟨hh, (Option.some.inj hb).symm⟩
    · next hh => exact .inr ⟨hh, hb⟩
  constructor
  · intro id' revision' digest' hash' hget'
    rw [hi] at hget'
    obtain ⟨b, hb, h1, h2, h3⟩ := h.indexed _ _ _ _ hget'
    obtain ⟨b', hb', h1', h2', h3'⟩ := kept hb
    exact ⟨b', hb', h1'.trans h1, h2'.trans h2, h3'.trans h3⟩
  · intro hash' b hb
    rcases back hb with ⟨-, rfl⟩ | ⟨hne, hb⟩
    · exact ⟨Store.exported job t, by rw [hj]; exact hid ▸ Dict.get?_set_self .., hset.owner,
        hset.proposal, .inr rfl, fun _ => ⟨rfl, rfl⟩, fun _ => ⟨rfl, rfl⟩⟩
    · obtain ⟨job', hjob', hset'⟩ := h.settled hash' b hb
      have hother : b.jobId ≠ id := fun e => hne (h.single hash' hash b a hb hget (e.trans hid.symm))
      exact ⟨job', by rw [hj, Dict.get?_set_ne _ _ hother, hjob'], hset'⟩
  · intro hash₁ hash₂ b₁ b₂ hb₁ hb₂ hsame
    have origin : ∀ {hash' : String} {b : Approval}, s'.approvals.get? hash' = some b →
        ∃ b', s.approvals.get? hash' = some b' ∧ b'.jobId = b.jobId := by
      intro hash' b hb
      rcases back hb with ⟨rfl, rfl⟩ | ⟨-, hb⟩
      · exact ⟨a, hget, rfl⟩
      · exact ⟨b, hb, rfl⟩
    obtain ⟨b₁', hb₁', h1⟩ := origin hb₁
    obtain ⟨b₂', hb₂', h2⟩ := origin hb₂
    exact h.single hash₁ hash₂ b₁' b₂' hb₁' hb₂' (by rw [h1, h2, hsame])
  · intro id' job' hjob' hstate'
    rw [hj, Dict.get?_set] at hjob'
    split at hjob'
    · obtain rfl := Option.some.inj hjob'
      cases hstate'
    · obtain ⟨hash', b, hb, hid'⟩ := h.applying id' job' hjob' hstate'
      obtain ⟨b', hb', h1, -⟩ := kept hb
      exact ⟨hash', b', hb', h1.trans hid'⟩

theorem cancelled_state (job : Job) (t : Time) :
    (cancelled job t).state ≠ .applying ∧
      (job.state = .applying → (cancelled job t).state.terminal = true ∧
        (cancelled job t).state ≠ .completed ∧ (cancelled job t).ownerId = job.ownerId ∧
        (cancelled job t).proposalDigest = job.proposalDigest) := by
  constructor
  · have hnot : ∀ state : JobState, cancelTarget state ≠ .applying := by
      intro state
      cases state <;> decide
    exact hnot _
  · intro hstate
    simp [cancelled, hstate, cancelTarget, JobState.terminal]

/-- A transition leaves a job that is being applied only for an end without completion. -/
theorem CoreStep.ends {c : Call} (h : CoreStep H P s c s') (hw : s.WellFormed) {id : JobId}
    {job : Job} {u : JobUpdate} (hjob : s.jobs.get? id = some job)
    (hop : c.op = .updateJob u ∨ ∃ kind data, c.op = .transitionJob u kind data)
    (hid : u.jobId = job.id) (hrev : (job.revision : Int) = u.expectedRevision)
    (ht : transition job.state u.state u.evidence = .ok u.state) (t : Time) :
    (u.apply job u.state t).state ≠ .applying ∧
      (job.state = .applying → (u.apply job u.state t).state.terminal = true ∧
        (u.apply job u.state t).state ≠ .completed ∧
        (u.apply job u.state t).ownerId = job.ownerId ∧
        (u.apply job u.state t).proposalDigest = job.proposalDigest) := by
  have hedge := (transition_ok ht).2.2
  have hnot : u.state ≠ .applying := fun e => by
    rw [e] at ht
    cases transition_applying ht
  refine ⟨hnot, fun hstate => ?_⟩
  rw [hstate] at hedge
  rcases h.update hw hjob hop hid hrev with hplain | ⟨cfg, m, hu, hmove⟩
  · have hfailed : u.state = .failed := by
      rcases hplain.state with e | e | e
      · rw [e] at hedge
        exact absurd hedge (by decide)
      · rw [e] at hedge
        exact absurd hedge (by decide)
      · exact e
    refine ⟨by simp [JobUpdate.apply, hfailed, JobState.terminal],
      by simp [JobUpdate.apply, hfailed], rfl, ?_⟩
    simp [JobUpdate.apply, hplain.proposalDigest, orElse, truthy]
  · rw [hu] at hedge ⊢
    cases hmove with
    | @plain state hm =>
      have hexc : ∀ state ∈ [JobState.queued, .ingesting, .executing, .testing, .collecting,
          .cancelled, .timedOut, .failed],
          state ∈ JobState.applying.forward ∨ state ∈ JobState.exceptional →
          state.terminal = true ∧ state ≠ .completed := by decide
      exact ⟨(hexc state hm hedge).1, (hexc state hm hedge).2, rfl, rfl⟩
    | planning => exact absurd hedge (show ¬(JobState.planning ∈ JobState.applying.forward ∨
        JobState.planning ∈ JobState.exceptional) by decide)
    | awaiting _ _ _ _ _ hcollecting _ =>
      rw [hstate] at hcollecting
      cases hcollecting
    | finish _ _ _ _ _ hcollecting _ =>
      rw [hstate] at hcollecting
      cases hcollecting

/-- Every step that records no approval under a taken hash keeps the links. -/
theorem CoreStep.ledger {c : Call} (h : CoreStep H P s c s') (hw : s.WellFormed)
    (hunused : TokenUnused s c) (hl : Ledger s) : Ledger s' := by
  rcases h.1.cases hw with ⟨-, rfl⟩ | ⟨r, -, heff⟩
  · exact hl
  obtain ⟨op, clk⟩ := c
  have hcore := h
  obtain ⟨hstep, hcall⟩ := h
  have ids : ∀ {id : JobId} {job : Job}, s.jobs.get? id = some job → id = job.id :=
    fun hjob => (hw.ids _ _ hjob).symm
  simp only at heff hcall
  cases heff with
  | read _ => exact hl
  | nonces => exact hl.aside rfl rfl rfl
  | claimed => exact hl.aside rfl rfl rfl
  | renewed => exact hl.aside rfl rfl rfl
  | released => exact hl.aside rfl rfl rfl
  | reconciled ids _ hrun => exact recoveries_ledger hrun hw hl
  | @created call uuid =>
    have hfresh : s.jobs.get? uuid = none := hstep.1
    constructor
    · exact hl.indexed
    · intro hash a ha
      obtain ⟨job, hjob, hset⟩ := hl.settled hash a ha
      have hne : a.jobId ≠ uuid := fun e => by rw [e, hfresh] at hjob; cases hjob
      exact ⟨job, (Dict.get?_set_ne _ _ hne).trans hjob, hset⟩
    · exact hl.single
    · intro id job hjob hstate
      rw [Dict.get?_set] at hjob
      split at hjob
      · obtain rfl := Option.some.inj hjob
        cases hstate
      · exact hl.applying id job hjob hstate
  | @updated u _ current target hjob _ hrev _ ht =>
    obtain ⟨rfl, hedge⟩ := transition_ok ht
    have hends := hcore.ends hw hjob (.inl rfl) (ids hjob) hrev ht (clk 0)
    exact hl.write _ hjob rfl rfl rfl hedge.1 hends.1 hends.2
  | @transitioned u kind data _ current target v hjob _ hrev _ ht =>
    obtain ⟨rfl, hedge⟩ := transition_ok ht
    have hends := hcore.ends hw hjob (.inr ⟨kind, data, rfl⟩) (ids hjob) hrev ht (clk 0)
    exact (hl.write { s with jobs := s.jobs.set u.jobId (u.apply current u.state (clk 0)) }
      hjob rfl rfl rfl hedge.1 hends.1 hends.2).aside rfl rfl rfl
  | @cancelRequested jobId ownerId revision _ current hjob _ _ hlive =>
    exact hl.write _ hjob rfl rfl rfl hlive (cancelled_state _ _).1 (cancelled_state _ _).2
  | @cancelDecided call _ current v _ hjob _ _ hlive =>
    exact (hl.write { s with jobs := s.jobs.set call.jobId (cancelled current (clk 0)) }
      hjob rfl rfl rfl hlive (cancelled_state _ _).1 (cancelled_state _ _).2).aside rfl rfl rfl
  | @rejected call _ current v _ hjob _ hstate =>
    exact (hl.write { s with
        jobs := s.jobs.set call.jobId (advance current .rejected (call.now.getD (clk 0))) }
      hjob rfl rfl rfl (by rw [hstate]; rfl) (by simp [advance])
      (fun happ => by rw [hstate] at happ; cases happ)).aside rfl rfl rfl
  | @approved call _ current approval v w hnew hjob howner hstate _ hdigest happroval =>
    obtain ⟨h1, h2, h3, h4, h5⟩ := decideApproval_fields happroval
    exact hl.record hjob hstate hdigest ⟨h1, h2.trans howner.symm, h3, h4, h5⟩
      (hunused call rfl hnew current hjob approval happroval) rfl rfl rfl
  | @exported call _ current approval v _ happroval hjob hcovers =>
    have hid : approval.jobId = call.jobId := by
      simp only [approvalCovers, Bool.and_eq_true, beq_iff_eq] at hcovers
      exact hcovers.1.1.1.1.1.1.1.2
    exact hl.consume hjob happroval hid rfl rfl rfl
  | eventAppended => exact hl.aside rfl rfl rfl
  | approvalCreated => exact (hcall.elim id id).elim
  | approvalConsumed => exact (hcall.elim id id).elim
  | decisionRecorded => exact hl.aside rfl rfl rfl

/-! ## What is recorded stays -/

/-- A later record of the same approval: the same, or the same consumed meanwhile. -/
def Kept (a a' : Approval) : Prop := a' = a ∨ (a.consumed = false ∧ ∃ t, a' = consumedAt a t)

theorem Kept.jobId {a a' : Approval} (h : Kept a a') : a'.jobId = a.jobId := by
  rcases h with rfl | ⟨-, t, rfl⟩ <;> rfl

theorem Kept.trans {a b c : Approval} (h : Kept a b) (h' : Kept b c) : Kept a c := by
  rcases h with rfl | ⟨hopen, t, rfl⟩
  · exact h'
  · rcases h' with rfl | ⟨hopen', -⟩
    · exact .inr ⟨hopen, t, rfl⟩
    · cases hopen'

/-- Every approval of the first store is kept in the second. -/
def KeepsApprovals (s s' : MemoryJobStore) : Prop :=
  ∀ hash a, s.approvals.get? hash = some a → ∃ a', s'.approvals.get? hash = some a' ∧ Kept a a'

theorem KeepsApprovals.of_eq (h : s'.approvals = s.approvals) : KeepsApprovals s s' :=
  fun _ a ha => ⟨a, by rw [h, ha], .inl rfl⟩

theorem KeepsApprovals.trans {s t u : MemoryJobStore} (h : KeepsApprovals s t)
    (h' : KeepsApprovals t u) : KeepsApprovals s u := by
  intro hash a ha
  obtain ⟨b, hb, hk⟩ := h hash a ha
  obtain ⟨c, hc, hk'⟩ := h' hash b hb
  exact ⟨c, hc, hk.trans hk'⟩

theorem recoveries_approvals {t : Time} {ids : List JobId} (h : Run (Recovers t) s ids s') :
    s'.approvals = s.approvals :=
  h.preserves (P := fun u => u.approvals = s.approvals) (fun _ _ _ _ hu hstep => by
    obtain ⟨_, _, _, -, -, -, -, rfl⟩ := hstep.effect
    exact hu) rfl

theorem CoreStep.keeps {c : Call} (h : CoreStep H P s c s') (hw : s.WellFormed)
    (hunused : TokenUnused s c) : KeepsApprovals s s' := by
  rcases h.1.cases hw with ⟨-, rfl⟩ | ⟨r, -, heff⟩
  · exact .of_eq rfl
  obtain ⟨op, clk⟩ := c
  obtain ⟨-, hcall⟩ := h
  simp only at heff hcall
  cases heff with
  | @approved call _ current approval v w hnew hjob _ _ _ _ happroval =>
    intro hash a ha
    have hfree := hunused call rfl hnew current hjob approval happroval
    have hne : hash ≠ approval.tokenHash := fun e => by rw [e, hfree] at ha; cases ha
    exact ⟨a, (Dict.get?_set_ne _ _ hne).trans ha, .inl rfl⟩
  | @exported call _ current approval v _ happroval hjob hcovers =>
    intro hash a ha
    by_cases hh : hash = H.sha256Hex call.approvalToken
    · subst hh
      obtain rfl := Option.some.inj (happroval.symm.trans ha)
      have hopen : approval.consumed = false := by
        simp only [approvalCovers, Bool.and_eq_true, Bool.not_eq_true'] at hcovers
        exact hcovers.1.1.1.1.1.1.1.1.1
      exact ⟨_, Dict.get?_set_self .., .inr ⟨hopen, _, rfl⟩⟩
    · exact ⟨a, (Dict.get?_set_ne _ _ hh).trans ha, .inl rfl⟩
  | reconciled ids _ hrun => exact .of_eq (recoveries_approvals hrun)
  | approvalCreated => exact (hcall.elim id id).elim
  | approvalConsumed => exact (hcall.elim id id).elim
  | _ => exact .of_eq rfl

/-- A step of the system that records no approval under a taken hash. -/
def FreshTokenStep (H : Hashes) (P : Platform) (w : System) (a : Action) (w' : System) : Prop :=
  SystemStep H P w a w' ∧ ∀ c, a = .call c → TokenUnused w.store c

/-- The system is sound and its approvals are linked. -/
def Audited (H : Hashes) (P : Platform) (w : System) : Prop :=
  Sound (H := H) (P := P) w ∧ Ledger w.store

theorem FreshTokenStep.audited {w w' : System} {a : Action} (h : FreshTokenStep H P w a w')
    (hw : Audited H P w) : Audited H P w' ∧ KeepsApprovals w.store w'.store := by
  obtain ⟨hstep, hunused⟩ := h
  have hsound := (hstep.sound hw.1).1
  have hwf := hw.1.wellFormed
  have done : ∀ c, CoreStep H P w.store c w'.store → TokenUnused w.store c →
      Audited H P w' ∧ KeepsApprovals w.store w'.store := fun c hc hu =>
    ⟨⟨hsound, hc.ledger hwf hu hw.2⟩, hc.keeps hwf hu⟩
  have idle : w'.store = w.store → Audited H P w' ∧ KeepsApprovals w.store w'.store := fun e =>
    ⟨⟨hsound, e ▸ hw.2⟩, .of_eq (by rw [e])⟩
  cases hstep with
  | @call c hout hfresh => exact done c ⟨⟨hfresh, rfl⟩, .inl hout⟩ (hunused c rfl)
  | start => exact idle rfl
  | @resume n clk op k hrun =>
    have hguard := (hw.1.runs n _ hrun _ ((storeProtocol H P).refl w.store)).1
    refine done ⟨op, clk⟩ ⟨WorkerCall.step hguard rfl, .inr hguard⟩ ?_
    intro call hop
    simp only at hop
    rw [hop] at hguard
    exact hguard.elim
  | serve => exact idle rfl
  | crash => exact idle rfl

def sampleDigest : String := String.ofList (List.replicate 64 'a')

/-- SHA-256 and the clock of the evidence stand in as constants. -/
def constantPlatform : Platform := ⟨fun _ => sampleDigest, fun _ => "2026-01-01T00:00:00Z"⟩

/-- An agent that asks to export the patch of an unchanged workspace. -/
def exportOracle : Oracle
  | .clock => .ok (0 : Time)
  | .monotonic => .ok (0 : Time)
  | .recoveryContextExists => .ok false
  | .removeSnapshotTree _ => .ok ()
  | .captureWorkspace _ => .ok emptySnapshot
  | .captureFinalSnapshot _ _ => .ok emptySnapshot
  | .fetchGalor _ => .ok (none, false)
  | .runAgent .. => .ok { plan := "", summary := "", externalAction := some (JsonObj.ofFields
      [("effect", .str "export_patch"), ("target", .str "owner_download")]) }
  | .verifyRunner .. => .ok (∅ : JsonObj)
  | .commandEvidence => .ok ⟨[], []⟩
  | .editJournalEvidence => .ok (∅ : JsonObj)
  | .buildBundle .. => .ok ⟨[⟨"changes.patch", [], sampleDigest⟩], sampleDigest⟩
  | .putEvidence _ _ h => .ok ⟨h, 0⟩

/-- A job is created and run until it awaits approval. -/
def untilAwaiting (run : Nat) (jobId key : String) : List Input :=
  let ask : Input := .resume run fun _ => 0
  let serve : Input := .serve run exportOracle
  [.call ⟨.createJob { ownerId := "owner", idempotencyKey := key, mode := .build, prompt := "p" } jobId,
      fun _ => 0⟩ trivial,
   .start run { captureTools := false } { jobId, ownerId := "owner" } none,
   ask, serve, serve, ask, ask, ask, ask, ask, ask, serve, ask, ask, ask,
   serve, serve, serve, serve, serve, serve, ask, ask]

/-- The owner approves the proposal of a job under the token with the sample digest. -/
def approveSample (jobId key : String) : Input :=
  .call ⟨.decideJobIdempotent
    { jobId, ownerId := "owner", expectedRevision := 7, idempotencyKey := key, requestHash := key
      decision := .approve, proposalDigest := sampleDigest
      approvalProposal := some ((approvalBinding { captureTools := false } sampleDigest
        "2026-01-01T00:00:00Z").set "proposalDigest" (.str sampleDigest))
      approvalTokenHash := some sampleDigest, expiresAt := some 300, now := some 0 }, fun _ => 0⟩ trivial

/-- The job of the approval recorded under the sample digest. -/
def approvedJob (w : System) : Option JobId :=
  (w.store.approvals.get? sampleDigest).map Approval.jobId

/-- Steps that decide nothing record no approval. -/
theorem Run.freshToken {w w' : System} {actions : List Action}
    (h : Run (SystemStep H P) w actions w')
    (hno : ∀ c, Action.call c ∈ actions → ∀ call, c.op ≠ .decideJobIdempotent call) :
    Run (FreshTokenStep H P) w actions w' := by
  induction h with
  | nil w => exact .nil w
  | cons hstep _ ih =>
    refine .cons ⟨hstep, fun c hc call hop => ?_⟩ (ih fun c hc => hno c (List.mem_cons_of_mem _ hc))
    exact absurd hop (hno c (hc ▸ List.mem_cons_self) call)

end LilTweak.Orchestrator
