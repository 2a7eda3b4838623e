import LilTweak.Core.Contracts
import Mathlib.Tactic.ByContra

/-!
# Job-state policy

`transition` is the one function that decides whether a job may move from a
state to another. Forward edges are the workflow; `cancelled`, `failed` and
`timed_out` are open from every state that is not terminal.
-/

namespace LilTweak.Core

/-- `StatePolicyError` and its subclasses. -/
inductive StatePolicyError
  | invalidTransition
  | approvalRequired
  deriving DecidableEq, Repr

/-- `_FORWARD`. -/
def JobState.forward : JobState → List JobState
  | .draft => [.queued]
  | .queued => [.ingesting]
  | .ingesting => [.planning]
  | .planning => [.executing]
  | .executing => [.testing, .collecting]
  | .testing => [.collecting]
  | .collecting => [.awaitingApproval, .completed]
  | .awaitingApproval => [.applying, .rejected]
  | .applying => [.completed]
  | _ => []

/-- The states `transition` allows from every state that is not terminal. -/
def JobState.exceptional : List JobState := [.cancelled, .failed, .timedOut]

/-- The truth value of an optional string. -/
def truthy : Option String → Bool
  | some s => s ≠ ""
  | none => false

/-- The keyword arguments of `transition`; a manifest only counts when it is not empty. -/
structure TransitionEvidence where
  proposalDigest : Option String := none
  hasManifest : Bool := false
  approvedDigest : Option String := none
  approvalRecorded : Bool := false
  approvalConsumed : Bool := false

/-- `transition`. -/
def transition (current target : JobState) (e : TransitionEvidence := {}) :
    Except StatePolicyError JobState :=
  if current.terminal then .error .invalidTransition
  else if target ∉ current.forward ∧ target ∉ JobState.exceptional then .error .invalidTransition
  else if target = .awaitingApproval ∧ ¬(truthy e.proposalDigest ∧ e.hasManifest) then
    .error .approvalRequired
  else if target = .applying ∧ ¬(truthy e.proposalDigest ∧ truthy e.approvedDigest ∧
      e.proposalDigest = e.approvedDigest ∧ e.approvalRecorded ∧ ¬e.approvalConsumed) then
    .error .approvalRequired
  else .ok target

/-- The moves `transition` can allow. -/
def JobState.Edge (current target : JobState) : Prop :=
  current.terminal = false ∧ (target ∈ current.forward ∨ target ∈ JobState.exceptional)

instance (current target : JobState) : Decidable (current.Edge target) :=
  inferInstanceAs (Decidable (_ ∧ _))

theorem transition_ok {current target r : JobState} {e : TransitionEvidence}
    (h : transition current target e = .ok r) : r = target ∧ current.Edge target := by
  unfold transition at h
  split at h
  · cases h
  split at h
  · cases h
  split at h
  · cases h
  split at h
  · cases h
  obtain rfl := Except.ok.inj h
  refine ⟨rfl, by simpa using ‹¬current.terminal = true›, ?_⟩
  by_contra hn
  exact ‹¬(target ∉ current.forward ∧ target ∉ JobState.exceptional)› (not_or.mp hn)

/-- Entering `applying` requires a recorded approval of the same digest. -/
theorem transition_applying {current r : JobState} {e : TransitionEvidence}
    (h : transition current .applying e = .ok r) : e.approvalRecorded = true := by
  unfold transition at h
  by_contra hn
  have hn' : e.approvalRecorded = false := by simpa using hn
  simp only [hn'] at h
  split at h
  · cases h
  split at h
  · cases h
  split at h
  · cases h
  simp at h

theorem transition_exceptional {current target : JobState} (e : TransitionEvidence)
    (hc : current.terminal = false) (ht : target ∈ JobState.exceptional) :
    transition current target e = .ok target := by
  have h1 : target ≠ .awaitingApproval := by rintro rfl; simp [JobState.exceptional] at ht
  have h2 : target ≠ .applying := by rintro rfl; simp [JobState.exceptional] at ht
  simp [transition, hc, ht, h1, h2]

theorem transition_terminal {current target : JobState} {e : TransitionEvidence}
    (hc : current.terminal = true) : transition current target e = .error .invalidTransition := by
  simp [transition, hc]

end LilTweak.Core
