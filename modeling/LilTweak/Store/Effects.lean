import LilTweak.Store.Operations
import LilTweak.Lib.Run

/-!
# What a store operation can do

`exec_effect` says once, for every operation, that it either raises and leaves
the store as it was or writes exactly what its `Effect` says. Every invariant of
the store is proved from the effects; no later proof unfolds an operation.
-/

namespace LilTweak.Store

open LilTweak.Lib LilTweak.Core

namespace MemoryJobStore

/-- The event the store appends next to a job's log. -/
def nextEvent (s : MemoryJobStore) (jobId : JobId) (kind : String) (data : JsonObj) (t : Time) :
    JobEvent where
  jobId := jobId
  sequence := ((s.events.get? jobId).getD []).length + 1
  kind := kind
  data := data
  createdAt := t

/-- The store after one event is appended to a job's log. -/
def logEvent (s : MemoryJobStore) (jobId : JobId) (kind : String) (data : JsonObj) (t : Time) :
    MemoryJobStore :=
  { s with events :=
      s.events.set jobId ((s.events.get? jobId).getD [] ++ [s.nextEvent jobId kind data t]) }

section
variable (s : MemoryJobStore) (jobId : JobId) (kind : String) (data : JsonObj) (t : Time)

@[simp] theorem logEvent_nonces : (s.logEvent jobId kind data t).nonces = s.nonces := rfl
@[simp] theorem logEvent_jobs : (s.logEvent jobId kind data t).jobs = s.jobs := rfl
@[simp] theorem logEvent_idempotency :
    (s.logEvent jobId kind data t).idempotency = s.idempotency := rfl
@[simp] theorem logEvent_approvals : (s.logEvent jobId kind data t).approvals = s.approvals := rfl
@[simp] theorem logEvent_approvalIndex :
    (s.logEvent jobId kind data t).approvalIndex = s.approvalIndex := rfl
@[simp] theorem logEvent_decisions : (s.logEvent jobId kind data t).decisions = s.decisions := rfl
@[simp] theorem logEvent_claims : (s.logEvent jobId kind data t).claims = s.claims := rfl
@[simp] theorem logEvent_leaseGenerations :
    (s.logEvent jobId kind data t).leaseGenerations = s.leaseGenerations := rfl
@[simp] theorem logEvent_events : (s.logEvent jobId kind data t).events =
    s.events.set jobId ((s.events.get? jobId).getD [] ++ [s.nextEvent jobId kind data t]) := rfl

end

/-- The links between the dicts that no operation breaks: a job is stored under
its id and has an event log numbered from one, and the tables that remember
requests name stored jobs. -/
structure WellFormed (s : MemoryJobStore) : Prop where
  ids : ∀ id job, s.jobs.get? id = some job → job.id = id
  logged : ∀ id job, s.jobs.get? id = some job → ∃ log, s.events.get? id = some log
  numbered : ∀ id log, s.events.get? id = some log →
    log.map JobEvent.sequence = List.range' 1 log.length
  remembered : ∀ k p, s.idempotency.get? k = some p → ∃ job, s.jobs.get? p.1 = some job
  decided : ∀ k p, s.decisions.get? k = some p → ∃ job, s.jobs.get? p.2 = some job

theorem wellFormed_empty : WellFormed {} := by
  constructor <;> intro _ _ h <;> cases h

theorem appendEventLocked_eq {s : MemoryJobStore} {jobId : JobId} {l : List JobEvent}
    (h : s.events.get? jobId = some l) (kind : String) (data : JsonObj) (t : Time) :
    s.appendEventLocked jobId kind data t =
      (.ok (s.nextEvent jobId kind data t), s.logEvent jobId kind data t) := by
  simp [appendEventLocked, nextEvent, logEvent, h]

theorem ownedJob_eq_some {s : MemoryJobStore} {jobId : JobId} {ownerId : OwnerId} {job : Job} :
    s.ownedJob jobId ownerId = some job ↔ s.jobs.get? jobId = some job ∧ job.ownerId = ownerId := by
  simp [ownedJob, Option.filter_eq_some_iff]

/-! ## Reconciliation as a run of single recoveries -/

/-- One recovery: an active job without a live claim moves to its target. -/
structure Recovers (t : Time) (s : MemoryJobStore) (id : JobId) (s' : MemoryJobStore) : Prop where
  effect : ∃ job target at_, s.jobs.get? id = some job ∧ active job.state = true ∧
    s.leased id t = false ∧ s.reconcileTarget job t = some target ∧
    s' = ({ s with
      jobs := s.jobs.set id (advance job target t)
      claims := s.claims.erase id } : MemoryJobStore).logEvent id target.value
        (reconcileData target) at_

/-- A recovery of one job leaves another job, its log and its claim alone. -/
theorem Recovers.frame {t : Time} {s s' : MemoryJobStore} {id id' : JobId}
    (h : Recovers t s id s') (hne : id' ≠ id) :
    s'.jobs.get? id' = s.jobs.get? id' ∧ s'.events.get? id' = s.events.get? id' ∧
      s'.claims.get? id' = s.claims.get? id' ∧ s'.approvals = s.approvals := by
  obtain ⟨job, target, at_, -, -, -, -, rfl⟩ := h.effect
  simp [Dict.get?_set, Dict.get?_erase, hne]

/-- The loop recovers some of the remaining jobs, each at most once. -/
theorem reconcileLoop_run (limit : Int) (t : Time) (clk : Clock) (rest : List Job) :
    ∀ (recovered : List Job) (n : Nat) (s : MemoryJobStore),
      (rest.map Job.id).Nodup →
      (∀ job ∈ rest, s.jobs.get? job.id = some job ∧ ∃ log, s.events.get? job.id = some log) →
      ∃ ids answer s', ids.Sublist (rest.map Job.id) ∧ Run (Recovers t) s ids s' ∧
        reconcileLoop limit t clk rest recovered n s = (.ok answer, s') := by
  induction rest with
  | nil => intro recovered n s _ _; exact ⟨[], recovered, s, List.Sublist.refl _, .nil s, rfl⟩
  | cons job rest ih =>
    intro recovered n s hnd hstored
    obtain ⟨hjob, log, hlog⟩ := hstored job List.mem_cons_self
    have hnd' : job.id ∉ rest.map Job.id ∧ (rest.map Job.id).Nodup := by
      simpa only [List.map_cons, List.nodup_cons] using hnd
    have hrest : ∀ j ∈ rest, s.jobs.get? j.id = some j ∧ ∃ log, s.events.get? j.id = some log :=
      fun j hj => hstored j (List.mem_cons_of_mem _ hj)
    have skip : ∃ ids answer s', ids.Sublist ((job :: rest).map Job.id) ∧
        Run (Recovers t) s ids s' ∧
        reconcileLoop limit t clk rest recovered n s = (.ok answer, s') := by
      obtain ⟨ids, answer, s', hsub, hrun, heq⟩ := ih recovered n s hnd'.2 hrest
      exact ⟨ids, answer, s', hsub.cons _, hrun, heq⟩
    rw [reconcileLoop]
    split
    · exact skip
    · next hactive =>
      split
      · exact skip
      · next hleased =>
        cases htarget : s.reconcileTarget job t with
        | none => exact skip
        | some target =>
          simp only
          rw [appendEventLocked_eq (l := log) (by exact hlog)]
          simp only [Outcome.andThen]
          have hone : Recovers t s job.id (({ s with
              jobs := s.jobs.set job.id (advance job target t)
              claims := s.claims.erase job.id } : MemoryJobStore).logEvent job.id target.value
                (reconcileData target) (clk n)) :=
            ⟨job, target, clk n, hjob, by simpa using (not_or.mp hactive).2, by simpa using hleased,
              htarget, rfl⟩
          obtain ⟨ids, answer, s', hsub, hrun, heq⟩ := ih _ (n + 1) _ hnd'.2 (fun j hj => by
            have hne : j.id ≠ job.id := fun e => hnd'.1 (e ▸ List.mem_map_of_mem (f := Job.id) hj)
            have hf := hone.frame hne
            rw [hf.1, hf.2.1]
            exact hrest j hj)
          exact ⟨job.id :: ids, answer, s', hsub.cons_cons _, .cons hone hrun, heq⟩

theorem mem_sortedJobs {s : MemoryJobStore} (hw : s.WellFormed) {job : Job} :
    job ∈ s.sortedJobs ↔ s.jobs.get? job.id = some job := by
  rw [sortedJobs, (List.perm_insertionSort jobBefore s.jobs.values).mem_iff, Dict.mem_values_iff]
  constructor
  · rintro ⟨id, h⟩
    rw [hw.ids id job h]
    exact h
  · exact fun h => ⟨job.id, h⟩

theorem sortedJobs_nodup {s : MemoryJobStore} (hw : s.WellFormed) :
    (s.sortedJobs.map Job.id).Nodup := by
  have hperm := (List.perm_insertionSort jobBefore s.jobs.values).map Job.id
  rw [sortedJobs, hperm.nodup_iff, Dict.values, List.map_map]
  have hkeys : s.jobs.entries.map (Job.id ∘ Prod.snd) = s.jobs.entries.map Prod.fst := by
    apply List.map_congr_left
    rintro ⟨id, job⟩ h
    exact hw.ids id job ((Dict.mem_entries_iff _ _ _).mp h)
  rw [hkeys]
  exact s.jobs.nodup

theorem reconcileActiveJobs_run {s : MemoryJobStore} (hw : s.WellFormed) (now : Option Time)
    (limit : Int) (clk : Clock) :
    ∃ ids answer s', ids.Nodup ∧ Run (Recovers (now.getD (clk 0))) s ids s' ∧
      s.reconcileActiveJobs now limit clk = (.ok answer, s') := by
  obtain ⟨ids, answer, s', hsub, hrun, heq⟩ := reconcileLoop_run limit (now.getD (clk 0)) clk
    s.sortedJobs [] 1 s (sortedJobs_nodup hw) (fun job hj => by
      have h := (mem_sortedJobs hw).mp hj
      exact ⟨h, hw.logged job.id job h⟩)
  exact ⟨ids, answer, s', (sortedJobs_nodup hw).sublist hsub, hrun, heq⟩

end MemoryJobStore

open MemoryJobStore

/-! ## The effects -/

/-- The calls that answer without writing. -/
inductive Reads (s : MemoryJobStore) : StoreOp → Reply → Prop
  | blankNonce {keyId nonce} : Reads s (.consumeNonce keyId nonce) (.bool false)
  | unclaimed {jobId ownerId workerId leaseSeconds now} :
      Reads s (.claimJob jobId ownerId workerId leaseSeconds now) (.leaseOption none)
  | notHeld {lease} (h : ∀ c, s.claims.get? lease.jobId = some c → sameLease c lease = false) :
      Reads s (.releaseClaim lease) .unit
  | schedulable {now limit a} : Reads s (.listSchedulableJobs now limit) (.jobs a)
  | existing {call uuid job p} (hp : s.idempotency.get? (call.ownerId, call.idempotencyKey) = some p)
      (hjob : s.jobs.get? p.1 = some job) : Reads s (.createJob call uuid) (.job job)
  | got {jobId ownerId} : Reads s (.getJob jobId ownerId) (.jobOption (s.ownedJob jobId ownerId))
  | cancelReplay {call : CancelCall} {job}
      (hd : s.decisions.get? (call.ownerId, call.idempotencyKey) =
        some (call.requestHash, call.jobId))
      (hjob : s.jobs.get? call.jobId = some job) :
      Reads s (.requestCancelIdempotent call) (.job job)
  | decideReplay {call : DecideCall} {job}
      (hd : s.decisions.get? (call.ownerId, call.idempotencyKey) =
        some (call.requestHash, call.jobId))
      (hjob : s.jobs.get? call.jobId = some job) :
      Reads s (.decideJobIdempotent call) (.job job)
  | exportReplay {call : ExportCall} {job}
      (hd : s.decisions.get? (call.ownerId, call.storedKey) = some (call.requestHash, call.jobId))
      (hjob : s.jobs.get? call.jobId = some job) :
      Reads s (.consumeExportIdempotent call) (.job job)
  | eventList {jobId ownerId answer} : Reads s (.listEvents jobId ownerId) (.events answer)
  | decision {ownerId key hash answer} : Reads s (.getDecision ownerId key hash) (.jobOption answer)

/-- What a call that does not raise answers and writes. -/
inductive Effect (H : Hashes) (s : MemoryJobStore) :
    StoreOp → Clock → Reply → MemoryJobStore → Prop
  | read {op clk r} (h : Reads s op r) : Effect H s op clk r s
  | nonces {keyId nonce clk b t} :
      Effect H s (.consumeNonce keyId nonce) clk (.bool b) { s with nonces := t }
  | claimed {jobId ownerId workerId now clk job} {leaseSeconds : Int}
      (hjob : s.jobs.get? jobId = some job) (howner : job.ownerId = ownerId)
      (hpos : 0 < leaseSeconds) (hfree : s.leased jobId (now.getD (clk 0)) = false)
      (lease : JobLease)
      (hlease : lease =
        { jobId, ownerId, workerId
          generation := (s.leaseGenerations.get? jobId).getD 0 + 1
          expiresAt := now.getD (clk 0) + leaseSeconds }) :
      Effect H s (.claimJob jobId ownerId workerId leaseSeconds now) clk (.leaseOption (some lease))
        { s with
          leaseGenerations := s.leaseGenerations.set jobId lease.generation
          claims := s.claims.set jobId lease }
  | renewed {lease now clk current} {leaseSeconds : Int} (hpos : 0 < leaseSeconds)
      (hclaim : s.claims.get? lease.jobId = some current) (hsame : sameLease current lease = true)
      (hlive : now.getD (clk 0) < current.expiresAt) :
      Effect H s (.renewClaim lease leaseSeconds now) clk
        (.lease { current with expiresAt := now.getD (clk 0) + leaseSeconds })
        { s with
          claims := s.claims.set lease.jobId
            ({ current with expiresAt := now.getD (clk 0) + leaseSeconds }) }
  | released {lease clk current} (hclaim : s.claims.get? lease.jobId = some current)
      (hsame : sameLease current lease = true) :
      Effect H s (.releaseClaim lease) clk .unit { s with claims := s.claims.erase lease.jobId }
  | reconciled {now limit clk answer s'} (ids : List JobId) (hids : ids.Nodup)
      (hrun : Run (Recovers (now.getD (clk 0))) s ids s') :
      Effect H s (.reconcileActiveJobs now limit) clk (.jobs answer) s'
  | created {call uuid clk}
      (hnew : s.idempotency.get? (call.ownerId, call.idempotencyKey) = none) :
      Effect H s (.createJob call uuid) clk (.job (call.newJob uuid (clk 0)))
        { s with
          jobs := s.jobs.set uuid (call.newJob uuid (clk 0))
          idempotency := s.idempotency.set (call.ownerId, call.idempotencyKey)
            (uuid, call.fingerprint H)
          events := s.events.set uuid [] }
  | updated {u clk current target} (hjob : s.jobs.get? u.jobId = some current)
      (howner : current.ownerId = u.ownerId) (hrev : (current.revision : Int) = u.expectedRevision)
      (hlease : s.leaseAdmits u (clk 0) = true)
      (ht : transition current.state u.state u.evidence = .ok target) :
      Effect H s (.updateJob u) clk (.job (u.apply current target (clk 0)))
        { s with jobs := s.jobs.set u.jobId (u.apply current target (clk 0)) }
  | transitioned {u kind data clk current target v} (hjob : s.jobs.get? u.jobId = some current)
      (howner : current.ownerId = u.ownerId) (hrev : (current.revision : Int) = u.expectedRevision)
      (hlease : s.leaseAdmits u (clk 0) = true)
      (ht : transition current.state u.state u.evidence = .ok target) :
      Effect H s (.transitionJob u kind data) clk (.job (u.apply current target (clk 0)))
        (({ s with jobs := s.jobs.set u.jobId (u.apply current target (clk 0)) } :
          MemoryJobStore).logEvent u.jobId kind v (clk 1))
  | cancelRequested {jobId ownerId revision clk current} (hjob : s.jobs.get? jobId = some current)
      (howner : current.ownerId = ownerId) (hrev : (current.revision : Int) = revision)
      (ht : current.state.terminal = false) :
      Effect H s (.requestCancel jobId ownerId revision) clk (.job (cancelled current (clk 0)))
        { s with jobs := s.jobs.set jobId (cancelled current (clk 0)) }
  | cancelDecided {call : CancelCall} {clk current v}
      (hnew : s.decisions.get? (call.ownerId, call.idempotencyKey) = none)
      (hjob : s.jobs.get? call.jobId = some current) (howner : current.ownerId = call.ownerId)
      (hrev : (current.revision : Int) = call.expectedRevision)
      (ht : current.state.terminal = false) :
      Effect H s (.requestCancelIdempotent call) clk (.job (cancelled current (clk 0)))
        (({ s with
          jobs := s.jobs.set call.jobId (cancelled current (clk 0))
          decisions := s.decisions.set (call.ownerId, call.idempotencyKey)
            (call.requestHash, call.jobId) } : MemoryJobStore).logEvent call.jobId
              (cancelEvent current.state) v (clk 1))
  | rejected {call : DecideCall} {clk current v}
      (hnew : s.decisions.get? (call.ownerId, call.idempotencyKey) = none)
      (hjob : s.jobs.get? call.jobId = some current) (howner : current.ownerId = call.ownerId)
      (hstate : current.state = .awaitingApproval)
      (hrev : (current.revision : Int) = call.expectedRevision)
      (hdigest : current.proposalDigest = some call.proposalDigest)
      (hdecision : call.decision = .reject) :
      Effect H s (.decideJobIdempotent call) clk
        (.job (advance current .rejected (call.now.getD (clk 0))))
        (({ s with
          jobs := s.jobs.set call.jobId (advance current .rejected (call.now.getD (clk 0)))
          decisions := s.decisions.set (call.ownerId, call.idempotencyKey)
            (call.requestHash, call.jobId) } : MemoryJobStore).logEvent call.jobId "rejected" v (clk 1))
  | approved {call : DecideCall} {clk current approval v w}
      (hnew : s.decisions.get? (call.ownerId, call.idempotencyKey) = none)
      (hjob : s.jobs.get? call.jobId = some current) (howner : current.ownerId = call.ownerId)
      (hstate : current.state = .awaitingApproval)
      (hrev : (current.revision : Int) = call.expectedRevision)
      (hdigest : current.proposalDigest = some call.proposalDigest)
      (happroval : call.approval current (call.now.getD (clk 0)) = some approval)
      (hindex : s.approvalIndex.get? (call.jobId, current.revision, call.proposalDigest) = none) :
      Effect H s (.decideJobIdempotent call) clk
        (.job (MemoryJobStore.approved current (call.now.getD (clk 0))))
        ((({ s with
          jobs := s.jobs.set call.jobId (MemoryJobStore.approved current (call.now.getD (clk 0)))
          approvals := s.approvals.set approval.tokenHash approval
          approvalIndex := s.approvalIndex.set
            (call.jobId, current.revision, call.proposalDigest) approval.tokenHash
          decisions := s.decisions.set (call.ownerId, call.idempotencyKey)
            (call.requestHash, call.jobId) } : MemoryJobStore).logEvent call.jobId "approved" v
              (clk 1)).logEvent call.jobId "applying" w (clk 2))
  | exported {call : ExportCall} {clk current approval v}
      (hnew : s.decisions.get? (call.ownerId, call.storedKey) = none)
      (happroval : s.approvals.get? (H.sha256Hex call.approvalToken) = some approval)
      (hjob : s.jobs.get? call.jobId = some current)
      (hcovers : approvalCovers approval call (call.now.getD (clk 0)) = true)
      (hexportable : exportable current call = true) :
      Effect H s (.consumeExportIdempotent call) clk
        (.job (Store.exported current (call.now.getD (clk 0))))
        (({ s with
          approvals := s.approvals.set (H.sha256Hex call.approvalToken)
            (consumedAt approval (call.now.getD (clk 0)))
          jobs := s.jobs.set call.jobId (Store.exported current (call.now.getD (clk 0)))
          decisions := s.decisions.set (call.ownerId, call.storedKey)
            (call.requestHash, call.jobId) } : MemoryJobStore).logEvent call.jobId "completed" v
              (clk 1))
  | eventAppended {jobId ownerId kind data clk job v} (hjob : s.jobs.get? jobId = some job) :
      Effect H s (.appendEvent jobId ownerId kind data) clk
        (.event (s.nextEvent jobId kind v (clk 0))) (s.logEvent jobId kind v (clk 0))
  | approvalCreated {call : ApprovalCall} {clk job} (hjob : s.jobs.get? call.jobId = some job)
      (hrev : (job.revision : Int) = call.revision)
      (hfree : s.approvalIndex.get? (call.jobId, job.revision, call.proposalDigest) = none) :
      Effect H s (.createApproval call) clk (.approval (call.approval job))
        { s with
          approvals := s.approvals.set call.approvalTokenHash (call.approval job)
          approvalIndex := s.approvalIndex.set (call.jobId, job.revision, call.proposalDigest)
            call.approvalTokenHash }
  | approvalConsumed {call : ConsumeCall} {clk approval}
      (happroval : s.approvals.get? (H.sha256Hex call.token) = some approval) :
      Effect H s (.consumeApproval call) clk
        (.approval (consumedAt approval (call.now.getD (clk 0))))
        { s with
          approvals := s.approvals.set (H.sha256Hex call.token)
            (consumedAt approval (call.now.getD (clk 0))) }
  | decisionRecorded {ownerId key hash jobId clk job} (hjob : s.jobs.get? jobId = some job) :
      Effect H s (.recordDecision ownerId key hash jobId) clk (.job job)
        { s with decisions := s.decisions.set (ownerId, key) (hash, jobId) }

end LilTweak.Store
