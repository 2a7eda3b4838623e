import Mathlib.Data.Rat.Defs
import Mathlib.Algebra.Order.Ring.Rat

/-!
# Stable protocol contracts

The job modes and job states shared by every component of the trusted core, and
the wall clock they read. A clock reading is a rational number of seconds: every
finite float is one, and the sums the stores form are taken without rounding.
-/

namespace LilTweak.Core

abbrev JobId := String
abbrev OwnerId := String

/-- A reading of `time.time()`, in seconds. -/
abbrev Time := ℚ

/-- `JobMode`. -/
inductive JobMode
  | build
  | debug
  | refactor
  | test
  | architect
  | chat
  deriving DecidableEq, Repr

/-- `JobState`. -/
inductive JobState
  | draft
  | queued
  | ingesting
  | planning
  | executing
  | testing
  | collecting
  | awaitingApproval
  | applying
  | completed
  | rejected
  | cancelled
  | failed
  | timedOut
  deriving DecidableEq, Repr

namespace JobState

/-- `JobState.value`. -/
def value : JobState → String
  | draft => "draft"
  | queued => "queued"
  | ingesting => "ingesting"
  | planning => "planning"
  | executing => "executing"
  | testing => "testing"
  | collecting => "collecting"
  | awaitingApproval => "awaiting_approval"
  | applying => "applying"
  | completed => "completed"
  | rejected => "rejected"
  | cancelled => "cancelled"
  | failed => "failed"
  | timedOut => "timed_out"

/-- Membership in `TERMINAL_STATES`. -/
def terminal : JobState → Bool
  | completed | rejected | cancelled | failed | timedOut => true
  | _ => false

end JobState

end LilTweak.Core
