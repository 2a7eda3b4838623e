import LilTweak.Orchestrator.System

/-!
# Cancellation

Once a cancellation is accepted the job never again awaits approval, is applied
or completes. A running job is only flagged: the flag is honoured because every
gated move starts from a job that was read without it, at a revision the flag
would have raised.
-/

namespace LilTweak.Orchestrator

open LilTweak.Lib LilTweak.Core LilTweak.Store LilTweak.Evidence

/-- A cancellation of the job was accepted. -/
def CancelAccepted (job : Job) : Prop := job.cancelRequested = true ∨ job.state = .cancelled

/-- The states a cancelled job must not enter. -/
def JobState.gated : List JobState := [.awaitingApproval, .applying, .completed]

/-- No flagged job is in a gated state. -/
def Honoured (s : MemoryJobStore) : Prop :=
  ∀ id job, s.jobs.get? id = some job → job.cancelRequested = true → job.state ∉ JobState.gated

variable {H : Hashes} {P : Platform} {s s' : MemoryJobStore}

/-- A write that leads into a gated state starts from a job without the flag. -/
theorem CoreStep.gated {c : Call} (h : CoreStep H P s c s') (hw : s.WellFormed) (hs : Honoured s)
    {id : JobId} {job job' : Job} (hjob : s.jobs.get? id = some job) (hwrite : Writes s c job job')
    (hstate : job'.state ∈ JobState.gated) : job'.cancelRequested = false := by
  -- A gated job is not flagged, and no write but a cancellation raises the flag.
  have unflagged : job.state ∈ JobState.gated → job.cancelRequested = false := fun hg => by
    by_contra hf
    exact hs id job hjob (by simpa using hf) hg
  cases hwrite with
  | recovered _ _ _ htarget =>
    refine unflagged ?_
    rcases reconcileTarget_cases htarget with ⟨-, rfl⟩ | ⟨happlying, -⟩
    · exact absurd hstate (by simp [MemoryJobStore.advance, JobState.gated])
    · rw [happlying]
      decide
  | updated hop hid hrev _ =>
    rcases h.update hw hjob hop hid hrev with hplain | ⟨cfg, m, hu, hmove⟩
    · have hnot : ∀ state, state = JobState.queued ∨ state = .ingesting ∨ state = .failed →
          state ∉ JobState.gated := by
        rintro _ (rfl | rfl | rfl) <;> decide
      exact absurd hstate (hnot _ hplain.state)
    · rw [hu] at hstate
      cases hmove with
      | @plain state hm =>
        have hnot : ∀ state ∈ [JobState.queued, .ingesting, .executing, .testing, .collecting,
            .cancelled, .timedOut, .failed], state ∉ JobState.gated := by decide
        exact absurd hstate (hnot state hm)
      | planning => exact absurd hstate (show JobState.planning ∉ JobState.gated by decide)
      | awaiting _ _ _ _ _ _ hflag => exact hflag
      | finish _ _ _ _ _ _ hflag => exact hflag
  | cancelled hlive =>
    have hnot : ∀ state : JobState, state.terminal = false →
        cancelTarget state ∉ JobState.gated := by
      intro state
      cases state <;> decide
    exact absurd hstate (hnot _ hlive)
  | rejected => exact absurd hstate (by simp [MemoryJobStore.advance, JobState.gated])
  | approved _ _ hawaiting =>
    exact unflagged (by rw [hawaiting]; decide)
  | exported _ _ hexport =>
    exact unflagged (by rw [exportable_applying hexport]; decide)

/-- A step leaves no flagged job in a gated state. -/
theorem CoreStep.honoured {c : Call} (h : CoreStep H P s c s') (hw : s.WellFormed)
    (hs : Honoured s) : Honoured s' := by
  intro id job' hjob' hflag hstate
  cases hjob : s.jobs.get? id with
  | none =>
    obtain ⟨call, -, rfl⟩ := h.1.appears hw hjob hjob'
    cases hflag
  | some job =>
    obtain ⟨job'', hjob'', hcase⟩ := h.1.writes hw hjob
    obtain rfl := Option.some.inj (hjob'.symm.trans hjob'')
    rcases hcase with rfl | hwrite
    · exact hs id job' hjob hflag hstate
    · rw [h.gated hw hs hjob hwrite hstate] at hflag
      cases hflag

theorem honoured_empty : Honoured {} := fun _ _ h => by cases h

/-- An accepted cancellation stays accepted. -/
theorem Writes.cancelAccepted {c : Call} {job job' : Job} (h : Writes s c job job')
    (hc : CancelAccepted job) : CancelAccepted job' := by
  have hlive := h.moves.live
  rcases hc with hflag | hstate
  · refine .inl ?_
    cases h <;> first | exact hflag | rfl
  · rw [hstate] at hlive
    cases hlive

theorem StoreStep.cancelAccepted {c : Call} (h : StoreStep H s c s') (hw : s.WellFormed) {id : JobId}
    (hc : ∃ job, s.jobs.get? id = some job ∧ CancelAccepted job) :
    ∃ job, s'.jobs.get? id = some job ∧ CancelAccepted job := by
  obtain ⟨job, hjob, hc⟩ := hc
  obtain ⟨job', hjob', rfl | hwrite⟩ := h.writes hw hjob
  · exact ⟨job', hjob', hc⟩
  · exact ⟨job', hjob', Writes.cancelAccepted hwrite hc⟩

/-- Once a cancellation is accepted, whatever steps follow, the cancellation stays
accepted and the job is never in a gated state. -/
theorem cancellation_honoured {actions : List Action} {w : System}
    (h : Run (SystemStep H P) {} actions w) {id : JobId} {job : Job}
    (hjob : w.store.jobs.get? id = some job) (hc : CancelAccepted job) {more : List Action}
    {w' : System} (h' : Run (SystemStep H P) w more w') :
    ∃ job', w'.store.jobs.get? id = some job' ∧ CancelAccepted job' ∧
      job'.state ∉ JobState.gated := by
  have hsound := run_sound h
  obtain ⟨calls, hcalls⟩ := run_calls h (sound_start (H := H) (P := P))
  obtain ⟨later, hlater⟩ := run_calls h' hsound
  have start : (MemoryJobStore.WellFormed {} ∧ Honoured {}) :=
    ⟨MemoryJobStore.wellFormed_empty, honoured_empty⟩
  have both : ∀ {s t : MemoryJobStore} {c : Call}, s.WellFormed ∧ Honoured s → CoreStep H P s c t →
      t.WellFormed ∧ Honoured t := fun hs hstep => ⟨hstep.wellFormed hs.1, hstep.honoured hs.1 hs.2⟩
  have hhere := hcalls.preserves (fun _ _ _ _ hs hstep => both hs hstep) start
  have hthere := hlater.preserves (P := fun t => (t.WellFormed ∧ Honoured t) ∧
      ∃ job, t.jobs.get? id = some job ∧ CancelAccepted job)
    (fun _ _ _ _ hs hstep => ⟨both hs.1 hstep, StoreStep.cancelAccepted hstep.1 hs.1.1 hs.2⟩)
    ⟨hhere, job, hjob, hc⟩
  obtain ⟨⟨-, hon⟩, job', hjob', hc'⟩ := hthere
  refine ⟨job', hjob', hc', ?_⟩
  rcases hc' with hflag | hstate
  · exact hon id job' hjob' hflag
  · rw [hstate]
    decide

/-! ## A sample run -/

def sampleCancel : CancelCall :=
  { jobId := "job", ownerId := "owner", expectedRevision := 0, idempotencyKey := "cancel"
    requestHash := "hash" }

def samplePlatform : Platform := ⟨fun _ => "", fun _ => ""⟩

/-- The system once the sample job is created and cancelled. -/
def cancelledSystem : System :=
  { store := (exec plainHashes sampleStore (.requestCancelIdempotent sampleCancel) fun _ => 1).2 }

theorem cancelledSystem_reached : Run (SystemStep plainHashes samplePlatform) {}
    [.call ⟨sampleCreate, fun _ => 0⟩, .call ⟨.requestCancelIdempotent sampleCancel, fun _ => 1⟩]
    cancelledSystem :=
  .cons (.call trivial rfl) (.cons (.call trivial trivial) (.nil _))

/-- A run that starts after the cancellation and reads the job. -/
theorem cancellation_honoured_sample :
    ∃ job', cancelledSystem.store.jobs.get? "job" = some job' ∧ CancelAccepted job' ∧
      job'.state ∉ JobState.gated := by
  have hreads : Run (SystemStep plainHashes samplePlatform) cancelledSystem
      [.start 0 {} { jobId := "job", ownerId := "owner" } none, .resume 0 fun _ => 2] _ :=
    .cons .start (.cons (.resume rfl) (.nil _))
  have hjob : cancelledSystem.store.jobs.get? "job" = some _ := rfl
  have h := cancellation_honoured cancelledSystem_reached hjob (.inl rfl) hreads
  exact h

end LilTweak.Orchestrator
