import LilTweak.Store.Step

/-!
# The life of a job in the in-memory store

Runs of store calls, the links they keep between the dicts, and what one call
can do to one job. A call names its operation and the clock readings it makes;
the only thing asked of its arguments is that `uuid.uuid4()` does not return the
id of a stored job.
-/

namespace LilTweak.Store

open LilTweak.Lib LilTweak.Core MemoryJobStore

/-- One call with the readings of the clock it makes. -/
structure Call where
  op : StoreOp
  clk : Clock

/-- `uuid.uuid4()` returned an id that is not in use. -/
def Call.fresh (c : Call) (s : MemoryJobStore) : Prop :=
  match c.op with
  | .createJob _ uuid => s.jobs.get? uuid = none
  | _ => True

/-- One call takes the store from a state to the next, whether or not it raises. -/
def StoreStep (H : Hashes) (s : MemoryJobStore) (c : Call) (s' : MemoryJobStore) : Prop :=
  c.fresh s ∧ s' = (exec H s c.op c.clk).2

variable {H : Hashes} {s s' : MemoryJobStore}

/-! ## The links between the dicts -/

namespace MemoryJobStore

/-- A write to dicts that carry no job leaves the links alone. -/
theorem WellFormed.aside (hw : s.WellFormed) (hj : s'.jobs = s.jobs) (he : s'.events = s.events)
    (hi : s'.idempotency = s.idempotency)
    (hd : ∀ k p, s'.decisions.get? k = some p →
      s.decisions.get? k = some p ∨ ∃ job, s.jobs.get? p.2 = some job) : s'.WellFormed where
  ids := hj ▸ hw.ids
  logged := hj ▸ he ▸ hw.logged
  numbered := he ▸ hw.numbered
  remembered := hj ▸ hi ▸ hw.remembered
  decided k p hk := by
    rw [hj]
    exact (hd k p hk).elim (hw.decided k p) id

/-- Storing a stored job anew under its own id leaves the links alone. -/
theorem WellFormed.write (hw : s.WellFormed) (s' : MemoryJobStore) {id : JobId} {current new : Job}
    (hjob : s.jobs.get? id = some current) (hj : s'.jobs = s.jobs.set id new)
    (hid : new.id = current.id) (he : s'.events = s.events)
    (hi : s'.idempotency = s.idempotency)
    (hd : ∀ k p, s'.decisions.get? k = some p → s.decisions.get? k = some p ∨ p.2 = id) :
    s'.WellFormed := by
  have hkeep : ∀ j job, s.jobs.get? j = some job → ∃ job', s'.jobs.get? j = some job' := by
    intro j job h
    rw [hj, Dict.get?_set]
    by_cases hji : j = id
    · exact ⟨new, by rw [if_pos hji]⟩
    · exact ⟨job, by rw [if_neg hji, h]⟩
  have hback : ∀ j job, s'.jobs.get? j = some job → ∃ job', s.jobs.get? j = some job' ∧
      job.id = job'.id := by
    intro j job h
    rw [hj, Dict.get?_set] at h
    by_cases hji : j = id
    · rw [if_pos hji] at h
      obtain rfl := Option.some.inj h
      exact ⟨current, hji ▸ hjob, hid⟩
    · rw [if_neg hji] at h
      exact ⟨job, h, rfl⟩
  constructor
  · intro j job h
    obtain ⟨job', h', hsame⟩ := hback j job h
    exact hsame.trans (hw.ids j job' h')
  · intro j job h
    obtain ⟨job', h', -⟩ := hback j job h
    exact he ▸ hw.logged j job' h'
  · exact he ▸ hw.numbered
  · intro k p h
    obtain ⟨job, h'⟩ := hw.remembered k p (hi ▸ h)
    exact hkeep p.1 job h'
  · intro k p h
    rcases hd k p h with h' | h'
    · obtain ⟨job, h''⟩ := hw.decided k p h'
      exact hkeep p.2 job h''
    · exact h' ▸ hkeep id current hjob

/-- Appending an event to the log of a stored job keeps the numbering. -/
theorem WellFormed.log (hw : s.WellFormed) {id : JobId} {job : Job}
    (hjob : s.jobs.get? id = some job) (kind : String) (data : JsonObj) (t : Time) :
    (s.logEvent id kind data t).WellFormed := by
  obtain ⟨log, hlog⟩ := hw.logged id job hjob
  constructor
  · exact hw.ids
  · intro j job' h
    rw [logEvent_events, Dict.get?_set]
    by_cases hji : j = id
    · exact ⟨_, by rw [if_pos hji]⟩
    · rw [if_neg hji]
      exact hw.logged j job' h
  · intro j log' h
    rw [logEvent_events, Dict.get?_set] at h
    by_cases hji : j = id
    · rw [if_pos hji, hlog] at h
      obtain rfl := Option.some.inj h
      simp only [Option.getD_some, List.map_append, List.map_cons, List.map_nil, List.length_append,
        List.length_cons, List.length_nil, hw.numbered id log hlog, nextEvent, hlog]
      rw [Nat.zero_add, List.range'_concat, Nat.one_mul, Nat.add_comm 1]
    · rw [if_neg hji] at h
      exact hw.numbered j log' h
  · exact hw.remembered
  · exact hw.decided

/-- The decision a call records names the job it is about. -/
theorem decisions_set {id : JobId} {key : OwnerId × String} {hash : String}
    (k : OwnerId × String) (p : String × JobId)
    (h : (s.decisions.set key (hash, id)).get? k = some p) :
    s.decisions.get? k = some p ∨ p.2 = id := by
  rw [Dict.get?_set] at h
  by_cases hk : k = key
  · rw [if_pos hk] at h
    exact .inr (Option.some.inj h ▸ rfl)
  · rw [if_neg hk] at h
    exact .inl h

theorem Recovers.wellFormed {t : Time} {id : JobId} (hw : s.WellFormed) (h : Recovers t s id s') :
    s'.WellFormed := by
  obtain ⟨job, target, at_, hjob, -, -, -, rfl⟩ := h.effect
  have hstored := hw.write { s with
      jobs := s.jobs.set id (advance job target t), claims := s.claims.erase id }
    hjob rfl rfl rfl rfl fun _ _ => .inl
  exact hstored.log (Dict.get?_set_self ..) _ _ _

theorem recoveries_wellFormed {t : Time} {ids : List JobId} (hw : s.WellFormed)
    (h : Run (Recovers t) s ids s') : s'.WellFormed :=
  h.preserves (fun _ _ _ _ hs hstep => hstep.wellFormed hs) hw

end MemoryJobStore

theorem WellFormed.created (hw : s.WellFormed) {call : CreateCall} {uuid : JobId} {t : Time}
    (hfresh : s.jobs.get? uuid = none) (p : OwnerId × String) (f : String) :
    MemoryJobStore.WellFormed { s with
      jobs := s.jobs.set uuid (call.newJob uuid t)
      idempotency := s.idempotency.set p (uuid, f)
      events := s.events.set uuid [] } := by
  have hkeep : ∀ j job, s.jobs.get? j = some job →
      ∃ job', (s.jobs.set uuid (call.newJob uuid t)).get? j = some job' := by
    intro j job h
    have hne : j ≠ uuid := fun e => by rw [e, hfresh] at h; cases h
    exact ⟨job, by rw [Dict.get?_set_ne _ _ hne, h]⟩
  constructor
  · intro j job h
    simp only [Dict.get?_set] at h
    by_cases hj : j = uuid
    · rw [if_pos hj] at h
      obtain rfl := Option.some.inj h
      exact hj.symm
    · rw [if_neg hj] at h
      exact hw.ids j job h
  · intro j job h
    simp only [Dict.get?_set] at h ⊢
    by_cases hj : j = uuid
    · exact ⟨[], by rw [if_pos hj]⟩
    · rw [if_neg hj] at h ⊢
      exact hw.logged j job h
  · intro j log h
    simp only [Dict.get?_set] at h
    by_cases hj : j = uuid
    · rw [if_pos hj] at h
      obtain rfl := Option.some.inj h
      rfl
    · rw [if_neg hj] at h
      exact hw.numbered j log h
  · intro k q h
    simp only [Dict.get?_set] at h
    by_cases hk : k = p
    · rw [if_pos hk] at h
      obtain rfl := Option.some.inj h
      exact ⟨_, Dict.get?_set_self ..⟩
    · rw [if_neg hk] at h
      obtain ⟨job, hjob⟩ := hw.remembered k q h
      exact hkeep q.1 job hjob
  · intro k q h
    obtain ⟨job, hjob⟩ := hw.decided k q h
    exact hkeep q.2 job hjob

/-- Every effect keeps the links between the dicts. -/
theorem Effect.wellFormed {op : StoreOp} {clk : Clock} {r : Reply} (hw : s.WellFormed)
    (hfresh : Call.fresh ⟨op, clk⟩ s) (h : Effect H s op clk r s') : s'.WellFormed := by
  cases h with
  | read _ => exact hw
  | nonces => exact hw.aside rfl rfl rfl fun _ _ => .inl
  | claimed => exact hw.aside rfl rfl rfl fun _ _ => .inl
  | renewed => exact hw.aside rfl rfl rfl fun _ _ => .inl
  | released => exact hw.aside rfl rfl rfl fun _ _ => .inl
  | reconciled ids _ hrun => exact recoveries_wellFormed hw hrun
  | created _ => exact WellFormed.created hw hfresh _ _
  | updated hjob => exact hw.write _ hjob rfl rfl rfl rfl fun _ _ => .inl
  | transitioned hjob =>
    refine WellFormed.log ?_ (Dict.get?_set_self ..) _ _ _
    exact hw.write _ hjob rfl rfl rfl rfl fun _ _ => .inl
  | cancelRequested hjob => exact hw.write _ hjob rfl rfl rfl rfl fun _ _ => .inl
  | cancelDecided _ hjob =>
    refine WellFormed.log ?_ (Dict.get?_set_self ..) _ _ _
    exact hw.write _ hjob rfl rfl rfl rfl decisions_set
  | rejected _ hjob =>
    refine WellFormed.log ?_ (Dict.get?_set_self ..) _ _ _
    exact hw.write _ hjob rfl rfl rfl rfl decisions_set
  | approved _ hjob =>
    refine WellFormed.log ?_ (by rw [logEvent_jobs, Dict.get?_set_self]) _ _ _
    refine WellFormed.log ?_ (Dict.get?_set_self ..) _ _ _
    exact hw.write _ hjob rfl rfl rfl rfl decisions_set
  | exported _ _ hjob =>
    refine WellFormed.log ?_ (Dict.get?_set_self ..) _ _ _
    exact hw.write _ hjob rfl rfl rfl rfl decisions_set
  | eventAppended hjob => exact hw.log hjob _ _ _
  | approvalCreated => exact hw.aside rfl rfl rfl fun _ _ => .inl
  | approvalConsumed => exact hw.aside rfl rfl rfl fun _ _ => .inl
  | decisionRecorded hjob =>
    exact hw.aside rfl rfl rfl fun k p h =>
      (decisions_set k p h).imp_right fun e => ⟨_, e ▸ hjob⟩

/-- A call raises and changes nothing, or it has its effect. -/
theorem StoreStep.cases (hw : s.WellFormed) {c : Call} (h : StoreStep H s c s') :
    (∃ e, (exec H s c.op c.clk).1 = .error e) ∧ s' = s ∨
      ∃ r, (exec H s c.op c.clk).1 = .ok r ∧ Effect H s c.op c.clk r s' := by
  obtain ⟨-, rfl⟩ := h
  rcases exec_effect hw c.op c.clk with ⟨e, he⟩ | ⟨r, s'', hr, heff⟩
  · exact .inl ⟨⟨e, by rw [he]⟩, by rw [he]⟩
  · exact .inr ⟨r, by rw [hr], by rw [hr]; exact heff⟩

theorem StoreStep.wellFormed (hw : s.WellFormed) {c : Call} (h : StoreStep H s c s') :
    s'.WellFormed := by
  rcases h.cases hw with ⟨-, rfl⟩ | ⟨r, -, heff⟩
  · exact hw
  · exact heff.wellFormed hw h.1

/-- Every store a run reaches from the empty one is well formed. -/
theorem run_wellFormed {calls : List Call} (h : Run (StoreStep H) {} calls s) : s.WellFormed :=
  h.preserves (fun _ _ _ _ hs hstep => hstep.wellFormed hs) wellFormed_empty

/-! ## What one call can do to one job -/

/-- Reconciliation puts an active job without a live claim back in the queue. -/
def Requeues (s : MemoryJobStore) (c : Call) (job job' : Job) : Prop :=
  ∃ now limit, c.op = .reconcileActiveJobs now limit ∧ active job.state = true ∧
    s.leased job.id (now.getD (c.clk 0)) = false ∧ job'.state = .queued

/-- A job changes by one revision and along the state machine: it keeps its state
when a cancellation is only flagged, follows an edge, or is requeued. -/
structure Moves (s : MemoryJobStore) (c : Call) (job job' : Job) : Prop where
  revision : job'.revision = job.revision + 1
  live : job.state.terminal = false
  state : job'.state = job.state ∨ job.state.Edge job'.state ∨ Requeues s c job job'

theorem active_live {state : JobState} (h : active state = true) : state.terminal = false := by
  cases state <;> first | rfl | cases h

theorem cancelTarget_edge {state : JobState} (h : state.terminal = false) :
    cancelTarget state = state ∨ state.Edge (cancelTarget state) := by
  cases state <;> first | exact .inl rfl | exact .inr (by decide)

theorem reconcileTarget_cases {job : Job} {t : Time} {target : JobState}
    (h : s.reconcileTarget job t = some target) :
    (job.state ≠ .applying ∧ target = .queued) ∨
      job.state = .applying ∧
        ((∃ a, s.jobApproval job = some a ∧ a.consumed = true ∧ target = .completed) ∨
          target = .timedOut) := by
  unfold reconcileTarget at h
  split at h
  · next happlying =>
    refine .inr ⟨happlying, ?_⟩
    split at h
    · next a ha =>
      split at h
      · next hc => exact .inl ⟨a, ha, hc, (Option.some.inj h).symm⟩
      · split at h
        · cases h
        · exact .inr (Option.some.inj h).symm
    · exact .inr (Option.some.inj h).symm
  · next hnot => exact .inl ⟨hnot, (Option.some.inj h).symm⟩

/-- A run of recoveries of distinct jobs leaves a job alone or recovers it once,
as the store stood before the run. -/
theorem recoveries_job {t : Time} {ids : List JobId} (h : Run (Recovers t) s ids s')
    (hids : ids.Nodup) {id : JobId} {job : Job} (hjob : s.jobs.get? id = some job) :
    s'.jobs.get? id = some job ∨
      ∃ target, active job.state = true ∧ s.leased id t = false ∧
        s.reconcileTarget job t = some target ∧ s'.jobs.get? id = some (advance job target t) := by
  induction h with
  | nil _ => exact .inl hjob
  | @cons s u s' a l hstep hrun ih =>
    rw [List.nodup_cons] at hids
    by_cases ha : id = a
    · subst ha
      obtain ⟨job', target, at_, hjob', hactive, hfree, htarget, rfl⟩ := hstep.effect
      obtain rfl := Option.some.inj (hjob.symm.trans hjob')
      refine .inr ⟨target, hactive, hfree, htarget, ?_⟩
      have hlast : ∀ u w, Run (Recovers t) u l w → w.jobs.get? id = u.jobs.get? id := by
        intro u w hr
        refine hr.preserves (P := fun w => w.jobs.get? id = u.jobs.get? id) ?_ rfl
        intro v b w hb hv hs
        have hne : id ≠ b := fun e => hids.1 (e ▸ hb)
        rw [(hs.frame hne).1, hv]
      rw [hlast _ _ hrun, logEvent_jobs, Dict.get?_set_self]
    · have hf := hstep.frame ha
      have hleased : u.leased id t = s.leased id t := by simp only [leased, hf.2.2.1]
      have htarget : u.reconcileTarget job t = s.reconcileTarget job t := by
        simp only [reconcileTarget, jobApproval, hf.2.2.2]
      rw [← hleased, ← htarget]
      exact ih hids.2 (hf.1 ▸ hjob)

/-- The ways a call writes a stored job. -/
inductive Writes (s : MemoryJobStore) (c : Call) (job : Job) : Job → Prop
  | recovered {now limit target} (hop : c.op = .reconcileActiveJobs now limit)
      (hactive : active job.state = true) (hfree : s.leased job.id (now.getD (c.clk 0)) = false)
      (htarget : s.reconcileTarget job (now.getD (c.clk 0)) = some target) :
      Writes s c job (advance job target (now.getD (c.clk 0)))
  | updated {u} (hop : c.op = .updateJob u ∨ ∃ kind data, c.op = .transitionJob u kind data)
      (hid : u.jobId = job.id) (hrev : (job.revision : Int) = u.expectedRevision)
      (ht : transition job.state u.state u.evidence = .ok u.state) :
      Writes s c job (u.apply job u.state (c.clk 0))
  | cancelled (hlive : job.state.terminal = false) : Writes s c job (cancelled job (c.clk 0))
  | rejected {call} (hop : c.op = .decideJobIdempotent call) (hid : call.jobId = job.id)
      (hstate : job.state = .awaitingApproval)
      (hdigest : job.proposalDigest = some call.proposalDigest) (hdecision : call.decision = .reject) :
      Writes s c job (advance job .rejected (call.now.getD (c.clk 0)))
  | approved {call approval} (hop : c.op = .decideJobIdempotent call) (hid : call.jobId = job.id)
      (hstate : job.state = .awaitingApproval)
      (hdigest : job.proposalDigest = some call.proposalDigest)
      (happroval : call.approval job (call.now.getD (c.clk 0)) = some approval) :
      Writes s c job (MemoryJobStore.approved job (call.now.getD (c.clk 0)))
  | exported {call} (hop : c.op = .consumeExportIdempotent call) (hid : call.jobId = job.id)
      (hexportable : exportable job call = true) :
      Writes s c job (Store.exported job (call.now.getD (c.clk 0)))

/-- Every write moves the job. -/
theorem Writes.moves {c : Call} {job job' : Job} (h : Writes s c job job') : Moves s c job job' := by
  cases h with
  | recovered hop hactive hfree htarget =>
    refine ⟨rfl, active_live hactive, .inr ?_⟩
    rcases reconcileTarget_cases htarget with ⟨-, rfl⟩ | ⟨happlying, ⟨a, -, -, rfl⟩ | rfl⟩
    · exact .inr ⟨_, _, hop, hactive, hfree, rfl⟩
    · exact .inl (by simp [advance, happlying, JobState.Edge, JobState.terminal, JobState.forward])
    · exact .inl (by simp [advance, happlying, JobState.Edge, JobState.terminal,
        JobState.exceptional])
  | updated _ _ _ ht =>
    obtain ⟨-, hedge⟩ := transition_ok ht
    exact ⟨rfl, hedge.1, .inr (.inl hedge)⟩
  | cancelled hlive => exact ⟨rfl, hlive, (cancelTarget_edge hlive).imp_right .inl⟩
  | rejected _ _ hstate =>
    have hedge : JobState.awaitingApproval.Edge .rejected := by decide
    exact ⟨rfl, by rw [hstate]; rfl, .inr (.inl (by rw [hstate]; exact hedge))⟩
  | approved _ _ hstate =>
    have hedge : JobState.awaitingApproval.Edge .applying := by decide
    exact ⟨rfl, by rw [hstate]; rfl, .inr (.inl (by rw [hstate]; exact hedge))⟩
  | exported _ _ hexport =>
    have hstate := exportable_applying hexport
    have hedge : JobState.applying.Edge .completed := by decide
    exact ⟨rfl, by rw [hstate]; rfl, .inr (.inl (by rw [hstate]; exact hedge))⟩

/-- An effect leaves a stored job alone or writes it. -/
theorem Effect.writes {c : Call} {r : Reply} (hw : s.WellFormed) (hfresh : c.fresh s)
    (h : Effect H s c.op c.clk r s') {id : JobId} {job : Job} (hjob : s.jobs.get? id = some job) :
    ∃ job', s'.jobs.get? id = some job' ∧ (job' = job ∨ Writes s c job job') := by
  obtain ⟨op, clk⟩ := c
  -- The frame: a write to one job leaves the others.
  have write : ∀ {s'' : MemoryJobStore} {id' : JobId} {current new : Job},
      s.jobs.get? id' = some current → s''.jobs = s.jobs.set id' new →
      (id' = current.id → Writes s ⟨op, clk⟩ current new) →
      ∃ job', s''.jobs.get? id = some job' ∧ (job' = job ∨ Writes s ⟨op, clk⟩ job job') := by
    intro s'' id' current new hcur hset hwrite
    rw [hset, Dict.get?_set]
    by_cases hid : id = id'
    · subst hid
      obtain rfl := Option.some.inj (hjob.symm.trans hcur)
      exact ⟨new, by rw [if_pos rfl], .inr (hwrite (hw.ids _ _ hjob).symm)⟩
    · exact ⟨job, by rw [if_neg hid, hjob], .inl rfl⟩
  have keep : ∃ job', s.jobs.get? id = some job' ∧ (job' = job ∨ Writes s ⟨op, clk⟩ job job') :=
    ⟨job, hjob, .inl rfl⟩
  cases h with
  | read _ => exact keep
  | nonces => exact keep
  | claimed => exact keep
  | renewed => exact keep
  | released => exact keep
  | reconciled ids hids hrun =>
    rcases recoveries_job hrun hids hjob with h | ⟨target, hactive, hfree, htarget, h⟩
    · exact ⟨job, h, .inl rfl⟩
    · exact ⟨_, h, .inr (.recovered rfl hactive (by rw [hw.ids id job hjob]; exact hfree) htarget)⟩
  | @created call uuid =>
    have hne : id ≠ uuid := fun e => by rw [e, show s.jobs.get? uuid = none from hfresh] at hjob; cases hjob
    exact ⟨job, (Dict.get?_set_ne _ _ hne).trans hjob, .inl rfl⟩
  | updated hcur _ hrev _ ht =>
    obtain ⟨rfl, -⟩ := transition_ok ht
    exact write hcur rfl fun hid => .updated (.inl rfl) hid hrev ht
  | transitioned hcur _ hrev _ ht =>
    obtain ⟨rfl, -⟩ := transition_ok ht
    exact write hcur rfl fun hid => .updated (.inr ⟨_, _, rfl⟩) hid hrev ht
  | cancelRequested hcur _ _ hlive => exact write hcur rfl fun _ => .cancelled hlive
  | cancelDecided _ hcur _ _ hlive => exact write hcur rfl fun _ => .cancelled hlive
  | rejected _ hcur _ hstate _ hdigest hdecision =>
    exact write hcur rfl fun hid => .rejected rfl hid hstate hdigest hdecision
  | approved _ hcur _ hstate _ hdigest happroval =>
    exact write hcur rfl fun hid => .approved rfl hid hstate hdigest happroval
  | exported _ _ hcur _ hexport => exact write hcur rfl fun hid => .exported rfl hid hexport
  | eventAppended => exact keep
  | approvalCreated => exact keep
  | approvalConsumed => exact keep
  | decisionRecorded => exact keep

/-- A call leaves a stored job alone or writes it. -/
theorem StoreStep.writes (hw : s.WellFormed) {c : Call} (h : StoreStep H s c s') {id : JobId}
    {job : Job} (hjob : s.jobs.get? id = some job) :
    ∃ job', s'.jobs.get? id = some job' ∧ (job' = job ∨ Writes s c job job') := by
  rcases h.cases hw with ⟨-, rfl⟩ | ⟨r, -, heff⟩
  · exact ⟨job, hjob, .inl rfl⟩
  · exact heff.writes hw h.1 hjob

/-- A job that was not stored is one that was created. -/
theorem StoreStep.appears (hw : s.WellFormed) {c : Call} (h : StoreStep H s c s') {id : JobId}
    {job : Job} (hnew : s.jobs.get? id = none) (hjob : s'.jobs.get? id = some job) :
    ∃ call, c.op = .createJob call id ∧ job = call.newJob id (c.clk 0) := by
  have absent : ∀ {s'' : MemoryJobStore} {id' : JobId} {current new : Job},
      s.jobs.get? id' = some current → s''.jobs = s.jobs.set id' new →
      s''.jobs.get? id = none := by
    intro s'' id' current new hcur hset
    have hne : id ≠ id' := fun e => by rw [e, hcur] at hnew; cases hnew
    rw [hset, Dict.get?_set_ne _ _ hne, hnew]
  rcases h.cases hw with ⟨-, rfl⟩ | ⟨r, -, heff⟩
  · rw [hnew] at hjob
    cases hjob
  obtain ⟨op, clk⟩ := c
  simp only at heff
  cases heff with
  | @created call uuid =>
    rw [Dict.get?_set] at hjob
    split at hjob
    · next hid => exact ⟨call, by rw [hid], by rw [hid]; exact (Option.some.inj hjob).symm⟩
    · rw [hnew] at hjob
      cases hjob
  | reconciled ids hids hrun =>
    have hnone : s'.jobs.get? id = none := by
      refine hrun.preserves (P := fun w => w.jobs.get? id = none) ?_ hnew
      intro v b w _ hv hs
      by_cases hb : id = b
      · obtain ⟨job', _, _, hjob', -⟩ := hs.effect
        rw [← hb, hv] at hjob'
        cases hjob'
      · rw [(hs.frame hb).1, hv]
    rw [hnone] at hjob
    cases hjob
  | updated hcur => rw [absent hcur rfl] at hjob; cases hjob
  | transitioned hcur => rw [absent hcur rfl] at hjob; cases hjob
  | cancelRequested hcur => rw [absent hcur rfl] at hjob; cases hjob
  | cancelDecided _ hcur => rw [absent hcur rfl] at hjob; cases hjob
  | rejected _ hcur => rw [absent hcur rfl] at hjob; cases hjob
  | approved _ hcur => rw [absent hcur rfl] at hjob; cases hjob
  | exported _ _ hcur => rw [absent hcur rfl] at hjob; cases hjob
  | eventAppended => rw [logEvent_jobs, hnew] at hjob; cases hjob
  | _ => rw [hnew] at hjob; cases hjob

/-- What one call can do to one stored job. -/
theorem StoreStep.job (hw : s.WellFormed) {c : Call} (h : StoreStep H s c s') {id : JobId} {job : Job}
    (hjob : s.jobs.get? id = some job) :
    ∃ job', s'.jobs.get? id = some job' ∧ (job' = job ∨ Moves s c job job') := by
  obtain ⟨job', hjob', hw'⟩ := h.writes hw hjob
  exact ⟨job', hjob', hw'.imp_right Writes.moves⟩

/-- The jobs of a later store continue those of an earlier one: none is lost, no
revision falls, and a job that was terminal is the same job. -/
def Continues (s s' : MemoryJobStore) : Prop :=
  ∀ id job, s.jobs.get? id = some job → ∃ job', s'.jobs.get? id = some job' ∧
    job.revision ≤ job'.revision ∧ (job.revision = job'.revision → job' = job) ∧
    (job.state.terminal = true → job' = job)

theorem Continues.refl (s : MemoryJobStore) : Continues s s :=
  fun _ job h => ⟨job, h, le_refl _, fun _ => rfl, fun _ => rfl⟩

theorem Continues.trans {s t u : MemoryJobStore} (h : Continues s t) (h' : Continues t u) :
    Continues s u := by
  intro id job hjob
  obtain ⟨job', hjob', hle, hsame, hterm⟩ := h id job hjob
  obtain ⟨job'', hjob'', hle', hsame', hterm'⟩ := h' id job' hjob'
  refine ⟨job'', hjob'', hle.trans hle', fun e => ?_, fun ht => ?_⟩
  · obtain rfl := hsame (le_antisymm hle (e ▸ hle'))
    exact hsame' e
  · obtain rfl := hterm ht
    exact hterm' ht

theorem StoreStep.continues (hw : s.WellFormed) {c : Call} (h : StoreStep H s c s') :
    Continues s s' := by
  intro id job hjob
  obtain ⟨job', hjob', rfl | hmove⟩ := h.job hw hjob
  · exact ⟨job', hjob', le_refl _, fun _ => rfl, fun _ => rfl⟩
  · refine ⟨job', hjob', hmove.revision ▸ Nat.le_succ _, fun e => ?_, fun ht => ?_⟩
    · have hrev := hmove.revision
      omega
    · rw [hmove.live] at ht
      cases ht

theorem run_continues (hw : s.WellFormed) {calls : List Call} (h : Run (StoreStep H) s calls s') :
    Continues s s' :=
  h.relates (I := MemoryJobStore.WellFormed) Continues.refl (fun _ _ _ => Continues.trans)
    (fun _ _ _ hi hstep => hstep.wellFormed hi) (fun _ _ _ hi hstep => hstep.continues hi) hw

/-- From any store a run reaches: logs are numbered from one without gaps; a
call that raises leaves the store as it was; a call leaves a job alone or moves
it by one revision along the state machine; and whatever follows never lowers a
revision and never touches a terminal job. -/
theorem jobs_follow_lifecycle {calls : List Call} (h : Run (StoreStep H) {} calls s) :
    (∀ id log, s.events.get? id = some log →
      log.map JobEvent.sequence = List.range' 1 log.length) ∧
    (∀ c : Call, c.fresh s →
      (∀ e, (exec H s c.op c.clk).1 = .error e → (exec H s c.op c.clk).2 = s) ∧
      ∀ id job, s.jobs.get? id = some job →
        ∃ job', (exec H s c.op c.clk).2.jobs.get? id = some job' ∧
          (job' = job ∨ Moves s c job job')) ∧
    ∀ (more : List Call) (t : MemoryJobStore), Run (StoreStep H) s more t → Continues s t := by
  have hw := run_wellFormed h
  refine ⟨hw.numbered, fun c hc => ⟨fun e he => ?_, fun id job hjob => ?_⟩,
    fun more t hrun => run_continues hw hrun⟩
  · rcases exec_effect hw c.op c.clk with ⟨e', he'⟩ | ⟨r, s', hr, -⟩
    · rw [he']
    · rw [hr] at he
      cases he
  · exact StoreStep.job hw ⟨hc, rfl⟩ hjob

/-! ## A sample run -/

/-- Digests that leave their argument as it is. -/
def plainHashes : Hashes where
  requestFingerprint _ prompt _ _ _ := prompt
  sha256Hex text := text

def sampleCreate : StoreOp :=
  .createJob { ownerId := "owner", idempotencyKey := "key", mode := .build, prompt := "prompt" } "job"

/-- A transition of the sample job. -/
def sampleUpdate (revision : Int) (state : JobState) (lease : Option JobLease) : JobUpdate :=
  { jobId := "job", ownerId := "owner", expectedRevision := revision, state, lease }

/-- The store once the sample job is created. -/
def sampleStore : MemoryJobStore := (exec plainHashes {} sampleCreate fun _ => 0).2

theorem sample_created : StoreStep plainHashes {} ⟨sampleCreate, fun _ => 0⟩ sampleStore :=
  ⟨rfl, rfl⟩

/-- The lifecycle of a job that is created and then cancelled. -/
theorem jobs_follow_lifecycle_sample :
    Continues sampleStore
      (exec plainHashes sampleStore (.requestCancel "job" "owner" 0) fun _ => 1).2 :=
  (jobs_follow_lifecycle (.cons sample_created (.nil _))).2.2
    [⟨.requestCancel "job" "owner" 0, fun _ => 1⟩] _ (.cons ⟨trivial, rfl⟩ (.nil _))

end LilTweak.Store
