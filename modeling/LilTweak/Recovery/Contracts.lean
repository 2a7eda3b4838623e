import Mathlib

/-!
# The contracts of failure recovery

The values the recovery engine passes around: identifiers and digests that are
well formed by construction, the failure codes with their texts, the signal and
the context of a failure, the server-owned budgets, what the policy decided, and
the entries of the append-only history. A signal's message and details, and the
sample texts of an exception, are read by no decision and are left out.
-/

namespace LilTweak.Recovery

/-! ## Well-formed texts -/

/-- `_ID`: a letter or digit, then at most 255 letters, digits or marks. -/
def idShape (s : String) : Bool :=
  match s.toList with
  | [] => false
  | c :: rest =>
      c.isAlphanum && decide (rest.length ≤ 255) &&
        rest.all fun d => d.isAlphanum || d ∈ ['.', '_', ':', '/', '-']

/-- A lower-case hexadecimal digit. -/
def hexDigit (c : Char) : Bool := c.isDigit || ('a' ≤ c && c ≤ 'f')

/-- `_SHA256`. -/
def digestShape (s : String) : Bool := s.toList.length == 64 && s.toList.all hexDigit

/-- `_REVISION`. -/
def revisionShape (s : String) : Bool :=
  (s.toList.length == 40 || s.toList.length == 64) && s.toList.all hexDigit

/-- `_REASON`: a lower-case letter, then at most 127 lower-case letters, digits
or underscores. -/
def reasonShape (s : String) : Bool :=
  match s.toList with
  | [] => false
  | c :: rest =>
      c.isLower && decide (rest.length ≤ 127) &&
        rest.all fun d => d.isLower || d.isDigit || d == '_'

/-- What `_require_id` lets through. -/
structure Identifier where
  text : String
  shaped : idShape text = true
deriving DecidableEq

/-- What `_require_digest` lets through. -/
structure Digest where
  text : String
  shaped : digestShape text = true
deriving DecidableEq

/-- A source revision. -/
structure Revision where
  text : String
  shaped : revisionShape text = true
deriving DecidableEq

/-! ## Enumerations -/

inductive FailureClass where
  | inputContract | planning | repositoryContext | execution | verification
  | infrastructureProvider | recovery | unknown
deriving DecidableEq

inductive FailureCode where
  | invalidRequest | missingContract | conflictingContract | staleContract | missingApproval
  | staleApproval | wrongDigestBinding | planIncomplete | planInvalid | planContractViolation
  | planScopeExcessive | planCriticFailure | staleSource | sourceChanged
  | repositoryUnavailable | mapperIncomplete | dependencyUncertain | repositoryIntegrityFailure
  | commandFailed | timeout | processCrash | resourceExhaustion | sandboxFailure
  | runnerUnavailable | runnerUnqualified | leaseRejected | leaseExpired | leaseReplayed
  | cancellation | cleanupFailure | testFailure | lintFailure | formatFailure
  | typecheckFailure | buildFailure | securityCheckFailure | deterministicVerificationFailure
  | independentVerificationFailure | falseCompletionClaim | providerUnhealthy | providerTimeout
  | providerCapacityExhausted | providerCostGate | providerAuthFailure | controlPlaneFailure
  | rollbackFailed | repairRepeated | repairBudgetExhausted | recoveryEvidenceInvalid
  | recoveryStrategyInvalid | recoveryStrategyNoProgress | unknownFailure
deriving DecidableEq

/-- The text of a failure code. -/
def FailureCode.value : FailureCode → String
  | .invalidRequest => "invalid_request"
  | .missingContract => "missing_contract"
  | .conflictingContract => "conflicting_contract"
  | .staleContract => "stale_contract"
  | .missingApproval => "missing_approval"
  | .staleApproval => "stale_approval"
  | .wrongDigestBinding => "wrong_digest_binding"
  | .planIncomplete => "plan_incomplete"
  | .planInvalid => "plan_invalid"
  | .planContractViolation => "plan_contract_violation"
  | .planScopeExcessive => "plan_scope_excessive"
  | .planCriticFailure => "plan_critic_failure"
  | .staleSource => "stale_source"
  | .sourceChanged => "source_changed"
  | .repositoryUnavailable => "repository_unavailable"
  | .mapperIncomplete => "mapper_incomplete"
  | .dependencyUncertain => "dependency_uncertain"
  | .repositoryIntegrityFailure => "repository_integrity_failure"
  | .commandFailed => "command_failed"
  | .timeout => "timeout"
  | .processCrash => "process_crash"
  | .resourceExhaustion => "resource_exhaustion"
  | .sandboxFailure => "sandbox_failure"
  | .runnerUnavailable => "runner_unavailable"
  | .runnerUnqualified => "runner_unqualified"
  | .leaseRejected => "lease_rejected"
  | .leaseExpired => "lease_expired"
  | .leaseReplayed => "lease_replayed"
  | .cancellation => "cancellation"
  | .cleanupFailure => "cleanup_failure"
  | .testFailure => "test_failure"
  | .lintFailure => "lint_failure"
  | .formatFailure => "format_failure"
  | .typecheckFailure => "typecheck_failure"
  | .buildFailure => "build_failure"
  | .securityCheckFailure => "security_check_failure"
  | .deterministicVerificationFailure => "deterministic_verification_failure"
  | .independentVerificationFailure => "independent_verification_failure"
  | .falseCompletionClaim => "false_completion_claim"
  | .providerUnhealthy => "provider_unhealthy"
  | .providerTimeout => "provider_timeout"
  | .providerCapacityExhausted => "provider_capacity_exhausted"
  | .providerCostGate => "provider_cost_gate"
  | .providerAuthFailure => "provider_auth_failure"
  | .controlPlaneFailure => "control_plane_failure"
  | .rollbackFailed => "rollback_failed"
  | .repairRepeated => "repair_repeated"
  | .repairBudgetExhausted => "repair_budget_exhausted"
  | .recoveryEvidenceInvalid => "recovery_evidence_invalid"
  | .recoveryStrategyInvalid => "recovery_strategy_invalid"
  | .recoveryStrategyNoProgress => "recovery_strategy_no_progress"
  | .unknownFailure => "unknown_failure"

inductive RecoveryDisposition where
  | retryable | replanRequired | rollbackRequired | resourceRerouteAllowed | approvalRequired
  | humanEscalationRequired | nonRecoverable
deriving DecidableEq

inductive RecoveryAction where
  | retryStep | replan | repairCandidate | rollback | rerouteResource | requalifyResource
  | escalate | block
deriving DecidableEq

/-- The actions that recover nothing. -/
def RecoveryAction.halts (action : RecoveryAction) : Bool :=
  action == .block || action == .escalate

inductive RecoveryOutcomeStatus where
  | pending | succeeded | failed | blocked
deriving DecidableEq

theorem FailureCode.value_reason (code : FailureCode) : reasonShape code.value = true := by
  cases code <;> decide

/-! ## Inputs of a decision -/

structure EvidenceRef where
  evidenceId : Identifier
  kind : Identifier
  sha256 : Digest
deriving DecidableEq

/-- Where a failure happened, as the caller binds it. -/
structure RecoveryContext where
  ownerId : Identifier
  taskId : Identifier
  dagRunId : Identifier
  nodeId : Identifier
  sourceRevision : Option Revision
  attempt : ℕ+
  planDigest : Option Digest
  candidateDigest : Option Digest
  contractDigest : Option Digest
  executionId : Option Identifier
  leaseId : Option Identifier
  resourceId : Option Identifier
  approvalPresent : Bool
  newAuthorityRequired : Bool
deriving DecidableEq

/-- The code of a signal: one of the engine's, or a text that is none of them. -/
inductive SignalCode where
  | known (code : FailureCode)
  | raw (text : String)
deriving DecidableEq

def SignalCode.value : SignalCode → String
  | .known code => code.value
  | .raw text => text

/-- What went wrong. -/
structure FailureSignal where
  code : SignalCode
  exceptionType : String
  failedChecks : List String
  evidence : List EvidenceRef
  transient : Bool
  partialMutation : Bool
  integrityFailure : Bool
  securitySensitive : Bool
deriving DecidableEq

/-- `RecoveryBudgets`: the limits a server sets, none above its hard maximum. -/
structure RecoveryBudgets where
  maxNodeRetries : ℕ
  maxFingerprintRetries : ℕ
  maxFullReplans : ℕ
  maxCandidateRepairs : ℕ
  maxResourceReroutes : ℕ
  maxRollbacks : ℕ
  within : maxNodeRetries ≤ 3 ∧ maxFingerprintRetries ≤ 2 ∧ maxFullReplans ≤ 2 ∧
    maxCandidateRepairs ≤ 3 ∧ maxResourceReroutes ≤ 1 ∧ maxRollbacks ≤ 1
deriving DecidableEq

theorem defaultBudgets_within :
    2 ≤ 3 ∧ 1 ≤ 2 ∧ 2 ≤ 2 ∧ 2 ≤ 3 ∧ 1 ≤ 1 ∧ 1 ≤ 1 := by decide

/-- The budgets of a controller that is given none. -/
def RecoveryBudgets.standard : RecoveryBudgets := ⟨2, 1, 2, 2, 1, 1, defaultBudgets_within⟩

/-- `limit_for`. -/
def RecoveryBudgets.limitFor (budgets : RecoveryBudgets) : RecoveryAction → ℕ
  | .retryStep => budgets.maxNodeRetries
  | .replan => budgets.maxFullReplans
  | .repairCandidate => budgets.maxCandidateRepairs
  | .rerouteResource => budgets.maxResourceReroutes
  | .rollback => budgets.maxRollbacks
  | .requalifyResource => budgets.maxResourceReroutes
  | .escalate => 0
  | .block => 0

/-- A resource the caller offers for a reroute, with the gates it passed. -/
structure ResourceRecoveryDecision where
  resourceId : Identifier
  qualified : Bool
  healthy : Bool
  authorized : Bool
  costApproved : Bool
  freshLease : Bool
  sourceBound : Bool
deriving DecidableEq

/-! ## Decisions, outcomes and the history -/

/-- What the classifier made of a signal. -/
structure ClassifiedFailure where
  failureClass : FailureClass
  code : FailureCode
  disposition : RecoveryDisposition
  preferredAction : RecoveryAction
  reasonCodes : List String
  automaticRecoveryProhibited : Bool
  requiresReauthorization : Bool
  requiresFreshLease : Bool
deriving DecidableEq

/-- A decision as it is recorded. The last three fields are what its
construction checks. -/
structure RecoveryDecision where
  ownerId : Identifier
  taskId : Identifier
  dagRunId : Identifier
  nodeId : Identifier
  sourceRevision : Option Revision
  planDigest : Option Digest
  candidateDigest : Option Digest
  contractDigest : Option Digest
  executionId : Option Identifier
  leaseId : Option Identifier
  resourceId : Option Identifier
  targetResourceId : Option Identifier
  attempt : ℕ+
  failureClass : FailureClass
  failureCode : FailureCode
  fingerprint : Digest
  disposition : RecoveryDisposition
  action : RecoveryAction
  allowed : Bool
  requiresReauthorization : Bool
  requiresFreshLease : Bool
  reasonCodes : List String
  decisionDigest : Digest
  halting_refused : allowed = true → action.halts = false
  target_bound : if action = .rerouteResource then
      targetResourceId ≠ none ∧ resourceId ≠ targetResourceId else targetResourceId = none
  reasons_shaped : reasonCodes ≠ [] ∧ reasonCodes.all reasonShape = true
deriving DecidableEq

/-- What came of a recovery. -/
structure RecoveryOutcome where
  status : RecoveryOutcomeStatus
  progress : Bool
  remainingFailedChecks : List String
  resultingPlanDigest : Option Digest
  resultingCandidateDigest : Option Digest
  resultingResourceId : Option Identifier
deriving DecidableEq

/-- One entry of an owner's history: a decision, or the outcome of one. -/
structure RecoveryHistoryEntry where
  ownerId : Identifier
  sequence : ℕ
  taskId : Identifier
  fingerprint : Digest
  action : RecoveryAction
  decisionDigest : Digest
  outcomeStatus : Option RecoveryOutcomeStatus
  progress : Option Bool
  remainingFailedChecks : List String
  resultingPlanDigest : Option Digest
  resultingCandidateDigest : Option Digest
  resultingResourceId : Option Identifier
  nodeId : Identifier
  attempt : ℕ+
  targetResourceId : Option Identifier
deriving DecidableEq

end LilTweak.Recovery
