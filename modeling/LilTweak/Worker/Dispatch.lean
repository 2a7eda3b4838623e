import LilTweak.Worker.Mirror

/-!
# Dispatch against cancellation

A reservation holds the row from before a job of the core is created until its id is bound, and
both writes raise the revision. The cancel route gives the row up without the core only at
the revision at which it saw the row not held, so the two never meet.
-/

namespace LilTweak.Worker

open LilTweak.Lib

variable {r : Runtime} {sources : Nat} {other : List JsString} {events later : List Event} {s t : System}

/-- However dispatches, retries, crashes and cancellations interleave: a bound job of the core stays
bound, it is one the core has created for the row, and where the core creates one job
under the key it is that one; a created job leaves the row reserved until it is bound; a row that was
ever held is not cancelled without the core, and one that was so cancelled is never held again,
nor does the core ever have a job for it. -/
theorem dispatch_kept (h : Run (System.Step r) (.created sources other) events s)
    (h' : Run (System.Step r) s later t) :
    (∀ id, s.state.db.job.remoteJobId = some id → t.state.db.job.remoteJobId = some id) ∧
    (∀ id, s.state.db.job.remoteJobId = some id → id ∈ s.state.created ∧
      ((∀ a ∈ s.state.created, ∀ b ∈ s.state.created, a = b) → ∀ a ∈ s.state.created, a = id)) ∧
    (s.state.created ≠ [] →
      s.state.db.job.dispatchReservedAt ≠ none ∨ s.state.db.job.remoteJobId ≠ none) ∧
    (s.state.db.job.dispatchReservedAt ≠ none ∨ s.state.db.job.remoteJobId ≠ none →
      t.state.locallyCancelled = false) ∧
    (s.state.locallyCancelled = true → t.state.db.job.state = .cancelled ∧
      t.state.db.job.dispatchReservedAt = none ∧ t.state.db.job.remoteJobId = none ∧
      t.state.created = []) := by
  obtain ⟨hs, -⟩ := reached_sound h
  obtain ⟨ht, hlater⟩ := reached_later h h'
  refine ⟨hlater.row.remoteJobId, fun id hid => ?_, hs.created, fun hheld => ?_, fun hc => ?_⟩
  · have hmem := hs.bound id hid
    exact ⟨hmem, fun hone a ha => hone a ha id hmem⟩
  · rw [← Bool.not_eq_true]
    intro hc
    exact (ht.cancelled hc).2 (hlater.row.held hheld)
  · obtain ⟨hstate, hfree⟩ := ht.cancelled (hlater.cancelled hc)
    obtain ⟨hreserved, hremote⟩ := not_or.mp hfree
    refine ⟨hstate, not_not.mp hreserved, not_not.mp hremote, ?_⟩
    by_contra hcreated
    exact hfree (ht.created hcreated)

/-- A dispatch crashes once the core has created the job; a cancellation is refused; a second
dispatch binds the job. -/
def resumedHistory : List Event :=
  requestEvents 0 (.dispatch 0) sampleChoice 14 ++ [.crash 0] ++
  requestEvents 1 (.cancel 1) sampleChoice 4 ++
  requestEvents 2 (.dispatch 1) sampleChoice 28

theorem resumedHistory_binds :
    ((System.created 0 []).run? (works sampleRuntime) resumedHistory).map
      (fun s => s.state.db.job.remoteJobId) = some (some (JsString.ofText "1")) := by
  decide +kernel

theorem dispatch_kept_resumed : ∃ s, (System.created 0 []).run? (works sampleRuntime) resumedHistory = some s ∧
    s.state.db.job.remoteJobId = some (JsString.ofText "1") ∧ JsString.ofText "1" ∈ s.state.created ∧
    s.state.locallyCancelled = false := by
  obtain ⟨s, hs, hbound⟩ := Option.map_eq_some_iff.mp resumedHistory_binds
  have hrun : Run (System.Step sampleRuntime) (.created 0 []) resumedHistory s := Pool.run?_run hs
  obtain ⟨-, hcreated, -, hfree, -⟩ := dispatch_kept hrun (.nil s)
  exact ⟨s, hs, hbound, (hcreated _ hbound).1, hfree (.inr (by rw [hbound]; exact Option.some_ne_none _))⟩

end LilTweak.Worker
