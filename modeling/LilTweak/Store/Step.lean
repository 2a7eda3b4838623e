import LilTweak.Store.Effects

/-!
# Every operation has an effect

One lemma per operation, in the order the operations are defined, and from them
`exec_effect`: on a well-formed store a call either raises and leaves the store
untouched or answers and writes what its `Effect` says.
-/

namespace LilTweak.Store

open LilTweak.Lib LilTweak.Core MemoryJobStore

/-- The call raises and changes nothing, or it has an effect. -/
def Lawful (H : Hashes) (s : MemoryJobStore) (op : StoreOp) (clk : Clock) : Prop :=
  (∃ e, exec H s op clk = (.error e, s)) ∨
    ∃ r s', exec H s op clk = (.ok r, s') ∧ Effect H s op clk r s'

variable {H : Hashes} {s : MemoryJobStore} {clk : Clock}

theorem Lawful.raises {op : StoreOp} {e : StoreFault} (h : exec H s op clk = (.error e, s)) :
    Lawful H s op clk := .inl ⟨e, h⟩

theorem Lawful.answers {op : StoreOp} {r : Reply} {s' : MemoryJobStore}
    (h : exec H s op clk = (.ok r, s')) (he : Effect H s op clk r s') : Lawful H s op clk :=
  .inr ⟨r, s', h, he⟩

@[simp] theorem reply_ok {α : Type} (a : α) (f : α → Reply) :
    Outcome.reply ((.ok a, s) : Outcome α) f = (.ok (f a), s) := rfl

@[simp] theorem reply_error {α : Type} (e : StoreFault) (f : α → Reply) :
    Outcome.reply ((.error e, s) : Outcome α) f = (.error e, s) := rfl

@[simp] theorem andThen_ok {α β : Type} (a : α) (f : α → MemoryJobStore → Outcome β) :
    Outcome.andThen ((.ok a, s) : Outcome α) f = f a s := rfl

@[simp] theorem andThen_error {α β : Type} (e : StoreFault) (f : α → MemoryJobStore → Outcome β) :
    Outcome.andThen ((.error e, s) : Outcome α) f = (.error e, s) := rfl

attribute [local simp] exec

/-! ## Nonces, claims and reconciliation -/

theorem consumeNonce_lawful (keyId nonce : String) :
    Lawful H s (.consumeNonce keyId nonce) clk := by
  by_cases hblank : keyId = "" ∨ nonce = ""
  · exact .answers (r := .bool false) (by simp [consumeNonce, hblank]) (.read .blankNonce)
  by_cases hin : (s.nonces.filter fun _ t => decide (clk 0 - 600 < t)).contains (keyId, nonce) = true
  · refine .answers ?_ (.nonces (b := false)
      (t := s.nonces.filter fun _ t => decide (clk 0 - 600 < t)))
    simp only [exec, consumeNonce, if_neg hblank, if_pos hin, reply_ok]
  · refine .answers ?_ (.nonces (b := true)
      (t := (s.nonces.filter fun _ t => decide (clk 0 - 600 < t)).set (keyId, nonce) (clk 1)))
    simp only [exec, consumeNonce, if_neg hblank, if_neg hin, reply_ok]

theorem claimJob_lawful (jobId : JobId) (ownerId : OwnerId) (workerId : String) (leaseSeconds : Int)
    (now : Option Time) : Lawful H s (.claimJob jobId ownerId workerId leaseSeconds now) clk := by
  by_cases hbad : workerId = "" ∨ leaseSeconds ≤ 0
  · exact .raises (e := .valueError "invalid lease") (by simp [claimJob, hbad])
  have unclaimed : s.claimJob jobId ownerId workerId leaseSeconds now clk = (.ok none, s) →
      Lawful H s (.claimJob jobId ownerId workerId leaseSeconds now) clk := fun h =>
    .answers (r := .leaseOption none) (by simp [h]) (.read .unclaimed)
  cases hjob : s.jobs.get? jobId with
  | none => exact unclaimed (by simp [claimJob, hbad, hjob])
  | some job =>
    by_cases howner : job.ownerId ≠ ownerId ∨ unclaimable job.state = true
    · exact unclaimed (by simp only [claimJob, if_neg hbad, hjob, if_pos howner])
    by_cases hfree : s.leased jobId (now.getD (clk 0)) = true
    · exact unclaimed (by simp only [claimJob, if_neg hbad, hjob, if_neg howner, if_pos hfree])
    · refine .answers (r := .leaseOption (some _)) ?_ (.claimed hjob (by simpa using
        (not_or.mp howner).1) (by simpa using (not_or.mp hbad).2) (by simpa using hfree) _ rfl)
      simp only [exec, claimJob, if_neg hbad, hjob, if_neg howner, if_neg hfree, reply_ok]

theorem renewClaim_lawful (lease : JobLease) (leaseSeconds : Int) (now : Option Time) :
    Lawful H s (.renewClaim lease leaseSeconds now) clk := by
  by_cases hbad : leaseSeconds ≤ 0
  · exact .raises (e := .valueError "invalid lease") (by simp [renewClaim, hbad])
  cases hclaim : s.claims.get? lease.jobId with
  | none => exact .raises (e := .staleLease) (by simp [renewClaim, hbad, hclaim])
  | some current =>
    by_cases hstale : sameLease current lease = false ∨ current.expiresAt ≤ now.getD (clk 0)
    · exact .raises (e := .staleLease) (by simp [renewClaim, hbad, hclaim, hstale])
    · have hsame : sameLease current lease = true := by simpa using (not_or.mp hstale).1
      refine .answers (r := .lease _) ?_
        (.renewed (not_le.mp hbad) hclaim hsame (not_le.mp (not_or.mp hstale).2))
      simp [renewClaim, hbad, hclaim, hstale]

theorem releaseClaim_lawful (lease : JobLease) : Lawful H s (.releaseClaim lease) clk := by
  cases hclaim : s.claims.get? lease.jobId with
  | none =>
    refine .answers (r := .unit) (by simp [releaseClaim, hclaim])
      (.read (.notHeld fun c hc => ?_))
    rw [hclaim] at hc
    cases hc
  | some current =>
    by_cases hsame : sameLease current lease = true
    · refine .answers (r := .unit) ?_ (.released hclaim hsame)
      simp [releaseClaim, hclaim, hsame]
    · refine .answers (r := .unit) (by simp [releaseClaim, hclaim, hsame])
        (.read (.notHeld fun c hc => ?_))
      obtain rfl := Option.some.inj (hclaim.symm.trans hc)
      simpa using hsame

theorem listSchedulableJobs_lawful (now : Option Time) (limit : Int) :
    Lawful H s (.listSchedulableJobs now limit) clk := by
  by_cases hlimit : 1 ≤ limit ∧ limit ≤ 1000
  · refine .answers ?_ (.read (.schedulable (a := (s.sortedJobs.filter fun job =>
      job.state == .queued && !s.leased job.id (now.getD (clk 0))).take limit.toNat)))
    simp only [exec, listSchedulableJobs, if_neg (not_not.mpr hlimit), reply_ok]
  · exact .raises (e := .valueError "invalid scheduler limit")
      (by simp only [exec, listSchedulableJobs, if_pos hlimit, reply_error])

theorem reconcileActiveJobs_lawful (hw : s.WellFormed) (now : Option Time) (limit : Int) :
    Lawful H s (.reconcileActiveJobs now limit) clk := by
  obtain ⟨ids, answer, s', hids, hrun, heq⟩ := reconcileActiveJobs_run hw now limit clk
  exact .answers (r := .jobs answer) (by simp only [exec, heq, reply_ok]) (.reconciled ids hids hrun)

/-! ## Creation and transitions -/

theorem createJob_lawful (hw : s.WellFormed) (call : CreateCall) (uuid : JobId) :
    Lawful H s (.createJob call uuid) clk := by
  by_cases hbad : call.ownerId = "" ∨ call.idempotencyKey = "" ∨ blank call.prompt = true
  · exact .raises (e := .valueError "owner, idempotency key, and prompt are required")
      (by simp only [exec, createJob, if_pos hbad, reply_error])
  cases hp : s.idempotency.get? (call.ownerId, call.idempotencyKey) with
  | none =>
    refine .answers (r := .job _) ?_ (.created hp)
    simp only [exec, createJob, if_neg hbad, hp, reply_ok]
  | some p =>
    by_cases hsame : p.2 = call.fingerprint H
    · obtain ⟨job, hjob⟩ := hw.remembered _ p hp
      refine .answers (r := .job job) ?_ (.read (.existing hp hjob))
      simp only [exec, createJob, if_neg hbad, hp, hsame, hjob, ne_eq, not_true_eq_false, if_false,
        reply_ok]
    · exact .raises (e := .idempotencyConflict)
        (by simp only [exec, createJob, if_neg hbad, hp, ne_eq, if_pos hsame, reply_error])

theorem getJob_lawful (jobId : JobId) (ownerId : OwnerId) : Lawful H s (.getJob jobId ownerId) clk :=
  .answers (r := .jobOption _) (by simp only [exec, getJob, reply_ok]) (.read .got)

/-- `update_job` raises and changes nothing, or it stores the updated job. -/
theorem updateJob_cases (s : MemoryJobStore) (u : JobUpdate) (clk : Clock) :
    (∃ e, s.updateJob u clk = (.error e, s)) ∨
    ∃ current target, s.jobs.get? u.jobId = some current ∧ current.ownerId = u.ownerId ∧
      (current.revision : Int) = u.expectedRevision ∧ s.leaseAdmits u (clk 0) = true ∧
      transition current.state u.state u.evidence = .ok target ∧
      s.updateJob u clk = (.ok (u.apply current target (clk 0)),
        { s with jobs := s.jobs.set u.jobId (u.apply current target (clk 0)) }) := by
  cases hjob : s.ownedJob u.jobId u.ownerId with
  | none => exact .inl ⟨.jobNotFound, by simp only [updateJob, hjob]⟩
  | some current =>
    by_cases hrev : (current.revision : Int) = u.expectedRevision
    · cases hlease : s.leaseAdmits u (clk 0) with
      | false => exact .inl ⟨.staleLease, by simp only [updateJob, hjob, hrev, hlease, ne_eq,
          not_true_eq_false, if_false, if_true]⟩
      | true =>
        cases ht : transition current.state u.state u.evidence with
        | error e => exact .inl ⟨.policy e, by simp only [updateJob, hjob, hrev, hlease, ht, ne_eq,
            not_true_eq_false, if_false, Bool.true_eq_false]⟩
        | ok target =>
          obtain ⟨h1, h2⟩ := ownedJob_eq_some.mp hjob
          exact .inr ⟨current, target, h1, h2, hrev, rfl, ht, by
            simp only [updateJob, hjob, hrev, hlease, ht, ne_eq, not_true_eq_false, if_false,
              Bool.true_eq_false]⟩
    · exact .inl ⟨.staleRevision, by simp only [updateJob, hjob, ne_eq, if_pos hrev]⟩

theorem updateJob_lawful (u : JobUpdate) : Lawful H s (.updateJob u) clk := by
  rcases updateJob_cases s u clk with ⟨e, he⟩ | ⟨current, target, h1, h2, h3, h4, h5, he⟩
  · exact .raises (e := e) (by simp only [exec, he, reply_error])
  · exact .answers (by simp only [exec, he, reply_ok]) (.updated h1 h2 h3 h4 h5)

theorem transitionJob_lawful (hw : s.WellFormed) (u : JobUpdate) (kind : String)
    (data : Option JsonObj) : Lawful H s (.transitionJob u kind data) clk := by
  cases hv : validatedEventData kind data with
  | error e => exact .raises (e := e) (by simp only [exec, transitionJob, hv, reply_error])
  | ok v =>
    rcases updateJob_cases s u clk with ⟨e, he⟩ | ⟨current, target, h1, h2, h3, h4, h5, he⟩
    · exact .raises (e := e) (by simp only [exec, transitionJob, hv, he, andThen_error, reply_error])
    · obtain ⟨log, hlog⟩ := hw.logged _ _ h1
      refine .answers ?_ (.transitioned (v := v) h1 h2 h3 h4 h5)
      simp only [exec, transitionJob, hv, he, andThen_ok]
      rw [appendEventLocked_eq (l := log) (by exact hlog), andThen_ok, reply_ok]

/-! ## Cancellation and decisions -/

/-- A transition to `cancelled` is refused in the terminal states only. -/
theorem transition_cancelled (current : JobState) :
    transition current .cancelled = .ok .cancelled ∧ current.terminal = false ∨
      ∃ e, transition current .cancelled = .error e := by
  cases current <;> first
    | exact .inl ⟨rfl, rfl⟩
    | exact .inr ⟨_, rfl⟩

theorem requestCancel_lawful (jobId : JobId) (ownerId : OwnerId) (revision : Int) :
    Lawful H s (.requestCancel jobId ownerId revision) clk := by
  cases hjob : s.ownedJob jobId ownerId with
  | none => exact .raises (e := .jobNotFound) (by simp only [exec, requestCancel, hjob, reply_error])
  | some current =>
    by_cases hrev : (current.revision : Int) = revision
    · obtain ⟨h1, h2⟩ := ownedJob_eq_some.mp hjob
      rcases transition_cancelled current.state with ⟨ht, hlive⟩ | ⟨e, ht⟩
      · refine .answers ?_ (.cancelRequested h1 h2 hrev hlive)
        simp only [exec, requestCancel, hjob, hrev, ne_eq, not_true_eq_false, if_false, ht, reply_ok]
      · exact .raises (e := .policy e) (by simp only [exec, requestCancel, hjob, hrev, ne_eq,
          not_true_eq_false, if_false, ht, reply_error])
    · exact .raises (e := .staleRevision)
        (by simp only [exec, requestCancel, hjob, ne_eq, if_pos hrev, reply_error])

/-- The two replay branches of a decision table: the stored request answers with
its job, any other request conflicts. -/
theorem replayed (hw : s.WellFormed) {key : OwnerId × String} {stored : String × JobId}
    (hd : s.decisions.get? key = some stored) {hash : String} {jobId : JobId}
    (hsame : stored = (hash, jobId)) :
    s.decisions.get? key = some (hash, jobId) ∧ ∃ job, s.jobs.get? jobId = some job := by
  subst hsame
  exact ⟨hd, hw.decided _ _ hd⟩

/-- The event a cancellation appends always passes validation. -/
theorem cancelEvent_valid (state : JobState) (revision : Nat) :
    validatedEventData (cancelEvent state) (some (revisionData revision)) =
      .ok (revisionData revision) := by
  cases state <;> rfl

theorem requestCancelIdempotent_lawful (hw : s.WellFormed) (call : CancelCall) :
    Lawful H s (.requestCancelIdempotent call) clk := by
  cases hd : s.decisions.get? (call.ownerId, call.idempotencyKey) with
  | some stored =>
    by_cases hsame : stored = (call.requestHash, call.jobId)
    · obtain ⟨hd', job, hjob⟩ := replayed hw hd hsame
      refine .answers ?_ (.read (.cancelReplay hd' hjob))
      simp only [exec, requestCancelIdempotent, hd, hsame, ne_eq, not_true_eq_false, if_false, hjob,
        reply_ok]
    · exact .raises (e := .idempotencyConflict)
        (by simp only [exec, requestCancelIdempotent, hd, ne_eq, if_pos hsame, reply_error])
  | none =>
    cases hjob : s.ownedJob call.jobId call.ownerId with
    | none =>
      exact .raises (e := .jobNotFound)
        (by simp only [exec, requestCancelIdempotent, hd, hjob, reply_error])
    | some current =>
      by_cases hrev : (current.revision : Int) = call.expectedRevision
      · obtain ⟨h1, h2⟩ := ownedJob_eq_some.mp hjob
        obtain ⟨log, hlog⟩ := hw.logged _ _ h1
        rcases transition_cancelled current.state with ⟨ht, hlive⟩ | ⟨e, ht⟩
        · refine .answers ?_ (.cancelDecided (v := revisionData (current.revision + 1)) hd h1 h2 hrev hlive)
          simp only [exec, requestCancelIdempotent, hd, hjob, hrev, ne_eq, not_true_eq_false,
            if_false, ht, cancelEvent_valid]
          rw [appendEventLocked_eq (l := log) (by exact hlog), andThen_ok, reply_ok]
        · exact .raises (e := .policy e) (by simp only [exec, requestCancelIdempotent, hd, hjob, hrev,
            ne_eq, not_true_eq_false, if_false, ht, reply_error])
      · exact .raises (e := .staleRevision)
          (by simp only [exec, requestCancelIdempotent, hd, hjob, ne_eq, if_pos hrev, reply_error])

theorem rejectJob_eq {call : DecideCall} {current : Job} {log : List JobEvent} {t : Time}
    (hstate : current.state = .awaitingApproval) (hlog : s.events.get? call.jobId = some log) :
    s.rejectJob call current t clk =
      (.ok (advance current .rejected t), ({ s with
        jobs := s.jobs.set call.jobId (advance current .rejected t)
        decisions := s.decisions.set (call.ownerId, call.idempotencyKey)
          (call.requestHash, call.jobId) } : MemoryJobStore).logEvent call.jobId "rejected" ∅
            (clk 1)) := by
  have ht : transition current.state .rejected = .ok .rejected := by rw [hstate]; rfl
  have hv : validatedEventData "rejected" (some ∅) = .ok ∅ := rfl
  simp only [rejectJob, ht, hv]
  rw [appendEventLocked_eq (l := log) (by exact hlog), andThen_ok]

/-- The approve branch raises and changes nothing, or it records the approval. -/
theorem approveJob_cases (clk : Clock) (t : Time) {call : DecideCall} (current : Job)
    {log : List JobEvent}
    (hlog : s.events.get? call.jobId = some log) :
    (∃ e, s.approveJob call current t clk = (.error e, s)) ∨
    ∃ approval v w, call.approval current t = some approval ∧
      s.approvalIndex.get? (call.jobId, current.revision, call.proposalDigest) = none ∧
      s.approveJob call current t clk = (.ok (approved current t), (({ s with
          jobs := s.jobs.set call.jobId (approved current t)
          approvals := s.approvals.set approval.tokenHash approval
          approvalIndex := s.approvalIndex.set
            (call.jobId, current.revision, call.proposalDigest) approval.tokenHash
          decisions := s.decisions.set (call.ownerId, call.idempotencyKey)
            (call.requestHash, call.jobId) } : MemoryJobStore).logEvent call.jobId "approved" v
              (clk 1)).logEvent call.jobId "applying" w (clk 2)) := by
  cases ha : call.approval current t with
  | none => exact .inl ⟨.approvalError, by simp only [approveJob, ha]⟩
  | some approval =>
    cases ht : transition current.state .applying call.evidence with
    | error e => exact .inl ⟨.policy e, by simp only [approveJob, ha, ht]⟩
    | ok target =>
      cases hi : s.approvalIndex.get? (call.jobId, current.revision, call.proposalDigest) with
      | some hash =>
        have hc : s.approvalIndex.contains (call.jobId, current.revision, call.proposalDigest) =
          true := (Dict.contains_iff _ _).mpr ⟨hash, hi⟩
        exact .inl ⟨.approvalError, by simp only [approveJob, ha, ht, hc, if_true]⟩
      | none =>
        have hc : s.approvalIndex.contains (call.jobId, current.revision, call.proposalDigest) =
          false := by simp [Dict.contains, hi]
        cases hv : validatedEventData "approved" (some (approvedData approval)) with
        | error e =>
          exact .inl ⟨e, by simp only [approveJob, ha, ht, hc, Bool.false_eq_true, if_false, hv]⟩
        | ok v =>
          have hw : validatedEventData "applying" (some exportAction) = .ok exportAction := rfl
          refine .inr ⟨approval, v, exportAction, rfl, rfl, ?_⟩
          simp only [approveJob, ha, ht, hc, Bool.false_eq_true, if_false, hv, hw]
          rw [appendEventLocked_eq (l := log) (by exact hlog), andThen_ok,
            appendEventLocked_eq (by rw [logEvent_events, Dict.get?_set_self]), andThen_ok]

theorem decideJobIdempotent_lawful (hw : s.WellFormed) (call : DecideCall) :
    Lawful H s (.decideJobIdempotent call) clk := by
  cases hd : s.decisions.get? (call.ownerId, call.idempotencyKey) with
  | some stored =>
    by_cases hsame : stored = (call.requestHash, call.jobId)
    · obtain ⟨hd', job, hjob⟩ := replayed hw hd hsame
      refine .answers ?_ (.read (.decideReplay hd' hjob))
      simp only [exec, decideJobIdempotent, hd, hsame, ne_eq, not_true_eq_false, if_false, hjob,
        reply_ok]
    · exact .raises (e := .idempotencyConflict)
        (by simp only [exec, decideJobIdempotent, hd, ne_eq, if_pos hsame, reply_error])
  | none =>
    cases hjob : s.ownedJob call.jobId call.ownerId with
    | none =>
      exact .raises (e := .jobNotFound)
        (by simp only [exec, decideJobIdempotent, hd, hjob, reply_error])
    | some current =>
      by_cases hstale : current.state ≠ .awaitingApproval ∨
          (current.revision : Int) ≠ call.expectedRevision ∨
          current.proposalDigest ≠ some call.proposalDigest
      · exact .raises (e := .staleRevision)
          (by simp only [exec, decideJobIdempotent, hd, hjob, if_pos hstale, reply_error])
      · have hok := not_or.mp hstale
        have hstate : current.state = .awaitingApproval := not_not.mp hok.1
        have hrev := not_not.mp (not_or.mp hok.2).1
        have hdigest := not_not.mp (not_or.mp hok.2).2
        obtain ⟨h1, h2⟩ := ownedJob_eq_some.mp hjob
        obtain ⟨log, hlog⟩ := hw.logged _ _ h1
        by_cases hreject : call.decision = .reject
        · refine .answers ?_ (.rejected (v := ∅) hd h1 h2 hstate hrev hdigest hreject)
          simp only [exec, decideJobIdempotent, hd, hjob, if_neg hstale, if_pos hreject]
          rw [rejectJob_eq hstate hlog, reply_ok]
        · rcases approveJob_cases clk (call.now.getD (clk 0)) current hlog with
            ⟨e, he⟩ | ⟨approval, v, w, ha, hi, he⟩
          · exact .raises (e := e) (by simp only [exec, decideJobIdempotent, hd, hjob,
              if_neg hstale, if_neg hreject, he, reply_error])
          · refine .answers ?_ (.approved (v := v) (w := w) hd h1 h2 hstate hrev hdigest ha hi)
            simp only [exec, decideJobIdempotent, hd, hjob, if_neg hstale, if_neg hreject, he,
              reply_ok]

theorem exportable_applying {current : Job} {call : ExportCall}
    (h : exportable current call = true) : current.state = .applying := by
  simp only [exportable, Bool.and_eq_true, beq_iff_eq] at h
  exact h.1.1.1.1.1.1.2

theorem consumeExportIdempotent_lawful (hw : s.WellFormed) (call : ExportCall) :
    Lawful H s (.consumeExportIdempotent call) clk := by
  cases hc : canonicalApprovalToken call.approvalToken with
  | false =>
    exact .raises (e := .approvalError)
      (by simp only [exec, consumeExportIdempotent, hc, if_true, reply_error])
  | true =>
    cases hd : s.decisions.get? (call.ownerId, call.storedKey) with
    | some stored =>
      by_cases hsame : stored = (call.requestHash, call.jobId)
      · obtain ⟨hd', job, hjob⟩ := replayed hw hd hsame
        cases ha : s.approvals.get? (H.sha256Hex call.approvalToken) with
        | none => exact .raises (e := .approvalError) (by simp only [exec, consumeExportIdempotent,
            hc, hd, hsame, ha, ne_eq, not_true_eq_false, if_false, Bool.true_eq_false, reply_error])
        | some approval =>
          by_cases hspent : approval.expiresAt ≤ call.now.getD (clk 0) ∨
              job.ownerId ≠ call.ownerId ∨ job.state ≠ .completed ∨ job.approvalConsumed = false
          · exact .raises (e := .approvalError) (by simp only [exec, consumeExportIdempotent, hc, hd,
              hsame, ha, hjob, if_pos hspent, ne_eq, not_true_eq_false, if_false,
              Bool.true_eq_false, reply_error])
          · refine .answers ?_ (.read (.exportReplay hd' hjob))
            simp only [exec, consumeExportIdempotent, hc, hd, hsame, ha, hjob, if_neg hspent,
              ne_eq, not_true_eq_false, if_false, Bool.true_eq_false, reply_ok]
      · exact .raises (e := .idempotencyConflict) (by simp only [exec, consumeExportIdempotent, hc,
          hd, ne_eq, if_pos hsame, if_false, Bool.true_eq_false, reply_error])
    | none =>
      cases ha : s.approvals.get? (H.sha256Hex call.approvalToken) with
      | none => exact .raises (e := .approvalError) (by simp only [exec, consumeExportIdempotent,
          hc, hd, ha, if_false, Bool.true_eq_false, reply_error])
      | some approval =>
        cases hjob : s.jobs.get? call.jobId with
        | none => exact .raises (e := .approvalError) (by simp only [exec, consumeExportIdempotent,
            hc, hd, ha, hjob, if_false, Bool.true_eq_false, reply_error])
        | some current =>
          by_cases hbad : approvalCovers approval call (call.now.getD (clk 0)) = false ∨
              exportable current call = false
          · exact .raises (e := .approvalError) (by simp only [exec, consumeExportIdempotent, hc,
              hd, ha, hjob, if_pos hbad, if_false, Bool.true_eq_false, reply_error])
          · have hcovers : approvalCovers approval call (call.now.getD (clk 0)) = true := by
              simpa using (not_or.mp hbad).1
            have hexport : exportable current call = true := by simpa using (not_or.mp hbad).2
            have ht : transition current.state .completed = .ok .completed := by
              rw [exportable_applying hexport]; rfl
            have hv : validatedEventData "completed" (some exportAction) = .ok exportAction := rfl
            obtain ⟨log, hlog⟩ := hw.logged _ _ hjob
            refine .answers ?_ (.exported (v := exportAction) hd ha hjob hcovers hexport)
            simp only [exec, consumeExportIdempotent, hc, hd, ha, hjob, if_neg hbad, if_false,
              Bool.true_eq_false, ht, hv]
            rw [appendEventLocked_eq (l := log) (by exact hlog), andThen_ok, reply_ok]

/-! ## Events, approvals and the decision table -/

theorem appendEvent_lawful (hw : s.WellFormed) (jobId : JobId) (ownerId : OwnerId) (kind : String)
    (data : Option JsonObj) : Lawful H s (.appendEvent jobId ownerId kind data) clk := by
  by_cases hkind : kind = ""
  · exact .raises (e := .valueError "event kind is required")
      (by simp only [exec, appendEvent, if_pos hkind, reply_error])
  cases hv : validatedEventData kind data with
  | error e => exact .raises (e := e) (by simp only [exec, appendEvent, if_neg hkind, hv, reply_error])
  | ok v =>
    cases hjob : s.ownedJob jobId ownerId with
    | none =>
      exact .raises (e := .jobNotFound)
        (by simp only [exec, appendEvent, if_neg hkind, hv, hjob, reply_error])
    | some job =>
      obtain ⟨h1, -⟩ := ownedJob_eq_some.mp hjob
      obtain ⟨log, hlog⟩ := hw.logged _ _ h1
      refine .answers ?_ (.eventAppended (v := v) h1)
      simp only [exec, appendEvent, if_neg hkind, hv, hjob]
      rw [appendEventLocked_eq hlog, reply_ok]

theorem listEvents_lawful (jobId : JobId) (ownerId : OwnerId) :
    Lawful H s (.listEvents jobId ownerId) clk := by
  cases hjob : s.ownedJob jobId ownerId with
  | none => exact .raises (e := .jobNotFound) (by simp only [exec, listEvents, hjob, reply_error])
  | some job =>
    cases hlog : s.events.get? jobId with
    | none => exact .raises (e := .keyError) (by simp only [exec, listEvents, hjob, hlog, reply_error])
    | some log =>
      exact .answers (r := .events log) (by simp only [exec, listEvents, hjob, hlog, reply_ok])
        (.read .eventList)

theorem createApproval_lawful (call : ApprovalCall) : Lawful H s (.createApproval call) clk := by
  cases hjob : s.ownedJob call.jobId call.ownerId with
  | none => exact .raises (e := .approvalError) (by simp only [exec, createApproval, hjob, reply_error])
  | some job =>
    by_cases hbad : (job.revision : Int) ≠ call.revision ∨
        job.proposalDigest ≠ some call.proposalDigest ∨ job.sourceDigest ≠ some call.sourceDigest ∨
        call.expiresAt ≤ call.now.getD (clk 0) ∨ validSha256 call.approvalTokenHash = false
    · exact .raises (e := .approvalError)
        (by simp only [exec, createApproval, hjob, if_pos hbad, reply_error])
    by_cases hc : s.approvalIndex.contains (call.jobId, job.revision, call.proposalDigest) = true
    · exact .raises (e := .approvalError)
        (by simp only [exec, createApproval, hjob, if_neg hbad, if_pos hc, reply_error])
    · obtain ⟨h1, -⟩ := ownedJob_eq_some.mp hjob
      have hfree : s.approvalIndex.get? (call.jobId, job.revision, call.proposalDigest) = none := by
        simpa [Dict.contains] using hc
      refine .answers ?_ (.approvalCreated h1 (not_not.mp (not_or.mp hbad).1) hfree)
      simp only [exec, createApproval, hjob, if_neg hbad, if_neg hc, reply_ok]

theorem consumeApproval_lawful (call : ConsumeCall) : Lawful H s (.consumeApproval call) clk := by
  cases ha : s.approvals.get? (H.sha256Hex call.token) with
  | none => exact .raises (e := .approvalError) (by simp only [exec, consumeApproval, ha, reply_error])
  | some approval =>
    cases hjob : s.ownedJob call.jobId call.ownerId with
    | none =>
      exact .raises (e := .approvalError)
        (by simp only [exec, consumeApproval, ha, hjob, reply_error])
    | some job =>
      by_cases hbad : approval.consumed = true ∨ approval.ownerId ≠ call.ownerId ∨
          approval.jobId ≠ call.jobId ∨ (approval.revision : Int) ≠ call.revision ∨
          approval.proposalDigest ≠ call.proposalDigest ∨
          approval.sourceDigest ≠ call.sourceDigest ∨
          approval.policyVersion ≠ call.policyVersion ∨
          Json.typeEqual (.obj approval.resourceProfile) (.obj call.resourceProfile) = false ∨
          approval.expiresAt ≤ call.now.getD (clk 0) ∨ (job.revision : Int) ≠ call.revision ∨
          job.proposalDigest ≠ some call.proposalDigest ∨ job.sourceDigest ≠ some call.sourceDigest
      · exact .raises (e := .approvalError)
          (by simp only [exec, consumeApproval, ha, hjob, if_pos hbad, reply_error])
      · refine .answers ?_ (.approvalConsumed ha)
        simp only [exec, consumeApproval, ha, hjob, if_neg hbad, reply_ok]

theorem getDecision_lawful (hw : s.WellFormed) (ownerId : OwnerId) (key hash : String) :
    Lawful H s (.getDecision ownerId key hash) clk := by
  cases hd : s.decisions.get? (ownerId, key) with
  | none =>
    exact .answers (r := .jobOption none) (by simp only [exec, getDecision, hd, reply_ok])
      (.read .decision)
  | some stored =>
    by_cases hsame : stored.1 = hash
    · obtain ⟨job, hjob⟩ := hw.decided _ _ hd
      refine .answers (r := .jobOption (some job)) ?_ (.read .decision)
      simp only [exec, getDecision, hd, hsame, ne_eq, not_true_eq_false, if_false, hjob, reply_ok]
    · exact .raises (e := .idempotencyConflict)
        (by simp only [exec, getDecision, hd, ne_eq, if_pos hsame, reply_error])

theorem recordDecision_lawful (ownerId : OwnerId) (key hash : String) (jobId : JobId) :
    Lawful H s (.recordDecision ownerId key hash jobId) clk := by
  cases hjob : s.ownedJob jobId ownerId with
  | none => exact .raises (e := .jobNotFound) (by simp only [exec, recordDecision, hjob, reply_error])
  | some job =>
    obtain ⟨h1, -⟩ := ownedJob_eq_some.mp hjob
    cases hd : s.decisions.get? (ownerId, key) with
    | none =>
      refine .answers ?_ (.decisionRecorded h1)
      simp only [exec, recordDecision, hjob, hd, reply_ok]
    | some stored =>
      by_cases hsame : stored = (hash, jobId)
      · refine .answers ?_ (.decisionRecorded h1)
        simp only [exec, recordDecision, hjob, hd, hsame, ne_eq, not_true_eq_false, if_false, reply_ok]
      · exact .raises (e := .idempotencyConflict)
          (by simp only [exec, recordDecision, hjob, hd, ne_eq, if_pos hsame, reply_error])

/-- On a well-formed store every call raises and changes nothing, or has its effect. -/
theorem exec_effect (hw : s.WellFormed) (op : StoreOp) (clk : Clock) : Lawful H s op clk := by
  cases op with
  | consumeNonce keyId nonce => exact consumeNonce_lawful keyId nonce
  | claimJob jobId ownerId workerId leaseSeconds now =>
    exact claimJob_lawful jobId ownerId workerId leaseSeconds now
  | renewClaim lease leaseSeconds now => exact renewClaim_lawful lease leaseSeconds now
  | releaseClaim lease => exact releaseClaim_lawful lease
  | listSchedulableJobs now limit => exact listSchedulableJobs_lawful now limit
  | reconcileActiveJobs now limit => exact reconcileActiveJobs_lawful hw now limit
  | createJob call uuid => exact createJob_lawful hw call uuid
  | getJob jobId ownerId => exact getJob_lawful jobId ownerId
  | updateJob update => exact updateJob_lawful update
  | transitionJob update kind data => exact transitionJob_lawful hw update kind data
  | requestCancel jobId ownerId revision => exact requestCancel_lawful jobId ownerId revision
  | requestCancelIdempotent call => exact requestCancelIdempotent_lawful hw call
  | decideJobIdempotent call => exact decideJobIdempotent_lawful hw call
  | consumeExportIdempotent call => exact consumeExportIdempotent_lawful hw call
  | appendEvent jobId ownerId kind data => exact appendEvent_lawful hw jobId ownerId kind data
  | listEvents jobId ownerId => exact listEvents_lawful jobId ownerId
  | createApproval call => exact createApproval_lawful call
  | consumeApproval call => exact consumeApproval_lawful call
  | getDecision ownerId key hash => exact getDecision_lawful hw ownerId key hash
  | recordDecision ownerId key hash jobId => exact recordDecision_lawful ownerId key hash jobId

end LilTweak.Store
