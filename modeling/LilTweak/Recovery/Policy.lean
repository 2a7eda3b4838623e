import LilTweak.Recovery.Contracts

/-!
# Classifier and policy

`FailureClassifier.classify` maps a signal to one conservative disposition, and
`RecoveryPolicy.decide` chooses the narrowest action the context, the offered
resource, the owner's history and the budgets let through. What an allowed
decision found in the history is `policy_allowed`; the rest of the development
never unfolds the policy.
-/

namespace LilTweak.Recovery

/-! ## Classification -/

/-- `_failure_class`: every code belongs to one class. -/
def failureClass : FailureCode → FailureClass
  | .invalidRequest | .missingContract | .conflictingContract | .staleContract
  | .missingApproval | .staleApproval | .wrongDigestBinding => .inputContract
  | .planIncomplete | .planInvalid | .planContractViolation | .planScopeExcessive
  | .planCriticFailure => .planning
  | .staleSource | .sourceChanged | .repositoryUnavailable | .mapperIncomplete
  | .dependencyUncertain | .repositoryIntegrityFailure => .repositoryContext
  | .commandFailed | .timeout | .processCrash | .resourceExhaustion | .sandboxFailure
  | .runnerUnavailable | .runnerUnqualified | .leaseRejected | .leaseExpired | .leaseReplayed
  | .cancellation | .cleanupFailure => .execution
  | .testFailure | .lintFailure | .formatFailure | .typecheckFailure | .buildFailure
  | .securityCheckFailure | .deterministicVerificationFailure
  | .independentVerificationFailure | .falseCompletionClaim => .verification
  | .providerUnhealthy | .providerTimeout | .providerCapacityExhausted | .providerCostGate
  | .providerAuthFailure | .controlPlaneFailure => .infrastructureProvider
  | .rollbackFailed | .repairRepeated | .repairBudgetExhausted | .recoveryEvidenceInvalid
  | .recoveryStrategyInvalid | .recoveryStrategyNoProgress => .recovery
  | .unknownFailure => .unknown

/-- `_block`. -/
def blockFailure (code : FailureCode) (reason : String) : ClassifiedFailure :=
  { failureClass := failureClass code
    code
    disposition := .nonRecoverable
    preferredAction := .block
    reasonCodes := [reason]
    automaticRecoveryProhibited := true
    requiresReauthorization := false
    requiresFreshLease := false }

/-- A classification whose reason is the code itself. -/
def classified (code : FailureCode) (disposition : RecoveryDisposition)
    (preferredAction : RecoveryAction) (prohibited reauthorization freshLease : Bool) :
    ClassifiedFailure :=
  { failureClass := failureClass code
    code
    disposition
    preferredAction
    reasonCodes := [code.value]
    automaticRecoveryProhibited := prohibited
    requiresReauthorization := reauthorization
    requiresFreshLease := freshLease }

/-- `classify` on a known code; the tests are made in the order of the source. -/
def classifyCode (code : FailureCode) (signal : FailureSignal) : ClassifiedFailure :=
  if signal.integrityFailure ∨
      code ∈ [.repositoryIntegrityFailure, .recoveryEvidenceInvalid] then
    blockFailure code "integrity_failure"
  else if signal.securitySensitive ∨ code ∈ [.securityCheckFailure, .falseCompletionClaim,
      .leaseReplayed, .providerAuthFailure] then
    blockFailure code code.value
  else if code ∈ [.cancellation, .rollbackFailed, .repairBudgetExhausted, .repairRepeated,
      .recoveryStrategyInvalid, .recoveryStrategyNoProgress] then
    blockFailure code code.value
  else if code = .wrongDigestBinding then
    classified code .nonRecoverable .block true true false
  else if code ∈ [.missingApproval, .staleApproval] then
    classified code .approvalRequired .escalate false true false
  else if code ∈ [.staleSource, .sourceChanged, .staleContract, .conflictingContract,
      .planContractViolation] then
    classified code .humanEscalationRequired .escalate false true false
  else if failureClass code = .planning ∨ code ∈ [.mapperIncomplete, .dependencyUncertain] then
    classified code .replanRequired .replan false false false
  else if code ∈ [.testFailure, .lintFailure, .formatFailure, .typecheckFailure, .buildFailure,
      .deterministicVerificationFailure, .independentVerificationFailure, .commandFailed] then
    classified code .replanRequired .repairCandidate false false false
  else if code = .runnerUnqualified then
    classified code .resourceRerouteAllowed .requalifyResource false false true
  else if code ∈ [.runnerUnavailable, .providerUnhealthy, .providerTimeout,
      .providerCapacityExhausted, .resourceExhaustion, .controlPlaneFailure] then
    classified code .resourceRerouteAllowed .rerouteResource false false true
  else if code = .providerCostGate then
    classified code .approvalRequired .escalate false true false
  else if code ∈ [.leaseExpired, .leaseRejected] then
    classified code .nonRecoverable .block true false true
  else if code ∈ [.timeout, .processCrash, .sandboxFailure, .repositoryUnavailable] ∧
      signal.transient then
    classified code .retryable .retryStep false false false
  else if code = .cleanupFailure then
    classified code .rollbackRequired .rollback false false false
  else
    blockFailure code code.value

/-- `FailureClassifier.classify`; a text that is no code of the engine blocks. -/
def classify (signal : FailureSignal) : ClassifiedFailure :=
  match signal.code with
  | .known code => classifyCode code signal
  | .raw _ => blockFailure .unknownFailure FailureCode.unknownFailure.value

/-- A classification that names one well-formed reason. -/
def OneReason (failure : ClassifiedFailure) : Prop :=
  ∃ reason, failure.reasonCodes = [reason] ∧ reasonShape reason = true

theorem OneReason.ite {c : Prop} [Decidable c] {f g : ClassifiedFailure} (hf : OneReason f)
    (hg : OneReason g) : OneReason (if c then f else g) := by
  split
  · exact hf
  · exact hg

/-- Every classification names one well-formed reason. -/
theorem classify_reasons (signal : FailureSignal) : OneReason (classify signal) := by
  have hblock (code : FailureCode) : OneReason (blockFailure code code.value) :=
    ⟨_, rfl, code.value_reason⟩
  have hother (code : FailureCode) (d : RecoveryDisposition) (a : RecoveryAction)
      (p r l : Bool) : OneReason (classified code d a p r l) := ⟨_, rfl, code.value_reason⟩
  rw [classify]
  cases signal.code with
  | raw text => exact hblock .unknownFailure
  | known code =>
    dsimp only
    rw [classifyCode]
    apply OneReason.ite ⟨"integrity_failure", rfl, by decide⟩
    repeat' first | exact hblock code | exact hother code _ _ _ _ _ | apply OneReason.ite

/-! ## The policy -/

structure PolicyDecision where
  disposition : RecoveryDisposition
  action : RecoveryAction
  allowed : Bool
  requiresReauthorization : Bool
  requiresFreshLease : Bool
  reasonCodes : List String
deriving DecidableEq

/-- `_blocked` with its defaults. -/
def blocked (reason : String) : PolicyDecision :=
  ⟨.nonRecoverable, .block, false, false, false, [reason]⟩

/-- `_blocked` for what only a person may grant. -/
def approvalBlocked (reason : String) : PolicyDecision :=
  ⟨.approvalRequired, .escalate, false, true, false, [reason]⟩

/-- `_APPROVAL_REQUIRED_ACTIONS`. -/
def approvalRequiredActions : List RecoveryAction :=
  [.repairCandidate, .rollback, .rerouteResource, .requalifyResource]

/-- The decision before the context, the resource and the budgets are looked at:
the classifier's, or a rollback of what was left half done. -/
def baseDecision (failure : ClassifiedFailure) (signal : FailureSignal) : PolicyDecision :=
  if signal.partialMutation ∧ ¬(failure.automaticRecoveryProhibited ∨
      failure.requiresReauthorization ∨ failure.preferredAction.halts ∨
      failure.code ∈ [.rollbackFailed, .recoveryEvidenceInvalid, .securityCheckFailure]) then
    ⟨.rollbackRequired, .rollback, true, false, false, ["partial_mutation_requires_rollback"]⟩
  else
    ⟨failure.disposition, failure.preferredAction, !failure.preferredAction.halts,
      failure.requiresReauthorization, failure.requiresFreshLease, failure.reasonCodes⟩

/-- The action the policy starts from, a function of the signal alone. -/
def plannedAction (signal : FailureSignal) : RecoveryAction :=
  (baseDecision (classify signal) signal).action

/-- `_validate_resource`: why the offered resource cannot be rerouted to. -/
def validateResource (resource : Option ResourceRecoveryDecision)
    (currentResourceId : Option Identifier) : Option String :=
  match resource with
  | none => some "alternate_resource_unavailable"
  | some r =>
    if currentResourceId = some r.resourceId then some "alternate_resource_not_distinct"
    else if !r.qualified then some "alternate_resource_not_qualified"
    else if !r.healthy then some "alternate_resource_unhealthy"
    else if !r.authorized then some "alternate_resource_unauthorized"
    else if !r.costApproved then some "alternate_resource_cost_not_approved"
    else if !r.freshLease then some "alternate_resource_lease_not_fresh"
    else if !r.sourceBound then some "alternate_resource_source_mismatch"
    else none

/-- `_budget_reason`. -/
def budgetReason : RecoveryAction → String
  | .retryStep => "node_retry_budget_exhausted"
  | .replan => "mission_replan_budget_exhausted"
  | .repairCandidate => "candidate_repair_budget_exhausted"
  | .rerouteResource => "resource_reroute_budget_exhausted"
  | .requalifyResource => "resource_requalification_budget_exhausted"
  | .rollback => "rollback_budget_exhausted"
  | .escalate => "approval_required"
  | .block => "recovery_blocked"

/-- The decisions of a history, outcomes left out. -/
def decisions (history : List RecoveryHistoryEntry) : List RecoveryHistoryEntry :=
  history.filter fun entry => entry.outcomeStatus.isNone

/-- The decisions that answered one fingerprint. -/
def fingerprintDecisions (fingerprint : Digest) (history : List RecoveryHistoryEntry) :
    List RecoveryHistoryEntry :=
  (decisions history).filter fun entry => entry.fingerprint = fingerprint

/-- The decisions a new one of this action is counted with: those of the task,
and for a retried step those of its node. -/
def priorSameAction (context : RecoveryContext) (action : RecoveryAction)
    (history : List RecoveryHistoryEntry) : List RecoveryHistoryEntry :=
  (decisions history).filter fun entry => entry.taskId = context.taskId ∧ entry.action = action ∧
    (action = .retryStep → entry.nodeId = context.nodeId)

/-- The same strategy failed on this fingerprint the last time and brought nothing. -/
def noProgress (fingerprint : Digest) (action : RecoveryAction)
    (history : List RecoveryHistoryEntry) : Bool :=
  match (history.filter fun entry =>
      entry.fingerprint = fingerprint ∧ entry.outcomeStatus.isSome).getLast? with
  | none => false
  | some latest => latest.action = action ∧ latest.outcomeStatus = some .failed ∧
      latest.progress = some false

/-- The history and the budgets have the last word on a base decision. -/
def budgeted (base : PolicyDecision) (context : RecoveryContext)
    (history : List RecoveryHistoryEntry) (budgets : RecoveryBudgets) (fingerprint : Digest) :
    PolicyDecision :=
  if noProgress fingerprint base.action history then blocked "recovery_strategy_no_progress"
  else if budgets.maxFingerprintRetries ≤ (fingerprintDecisions fingerprint history).length then
    blocked "fingerprint_retry_budget_exhausted"
  else if budgets.limitFor base.action = 0 ∨
      budgets.limitFor base.action ≤ (priorSameAction context base.action history).length then
    blocked (budgetReason base.action)
  else base

/-- A reroute needs a resource that passed every gate, and a fresh lease. -/
def gated (base : PolicyDecision) (context : RecoveryContext)
    (history : List RecoveryHistoryEntry) (budgets : RecoveryBudgets) (fingerprint : Digest)
    (resource : Option ResourceRecoveryDecision) : PolicyDecision :=
  if base.action = .rerouteResource then
    match validateResource resource context.resourceId with
    | some reason => { blocked reason with requiresFreshLease := true }
    | none => budgeted { base with requiresFreshLease := true } context history budgets fingerprint
  else if base.action.halts then base
  else budgeted base context history budgets fingerprint

/-- `RecoveryPolicy.decide`. -/
def RecoveryPolicy.decide (failure : ClassifiedFailure) (signal : FailureSignal) (context : RecoveryContext)
    (history : List RecoveryHistoryEntry) (budgets : RecoveryBudgets) (fingerprint : Digest)
    (resource : Option ResourceRecoveryDecision) : PolicyDecision :=
  let base := baseDecision failure signal
  if context.newAuthorityRequired then approvalBlocked "new_authority_requires_approval"
  else if !context.approvalPresent ∧ base.action ∈ approvalRequiredActions then
    approvalBlocked "missing_required_approval"
  else gated base context history budgets fingerprint resource

/-! ## What the policy says -/

section
variable {failure : ClassifiedFailure} {signal : FailureSignal} {context : RecoveryContext}
  {history : List RecoveryHistoryEntry} {budgets : RecoveryBudgets} {fingerprint : Digest}
  {resource : Option ResourceRecoveryDecision} {base : PolicyDecision}

theorem baseDecision_allowed (failure : ClassifiedFailure) (signal : FailureSignal) :
    (baseDecision failure signal).allowed = !(baseDecision failure signal).action.halts := by
  rw [baseDecision]
  split <;> rfl

theorem blocked_allowed (reason : String) : (blocked reason).allowed = false := rfl

/-- A resource that passes every gate is there and is not the current one. -/
theorem validateResource_none {current : Option Identifier}
    (h : validateResource resource current = none) :
    ∃ r, resource = some r ∧ current ≠ some r.resourceId := by
  cases resource with
  | none => cases h
  | some r =>
    refine ⟨r, rfl, ?_⟩
    intro he
    rw [validateResource, if_pos he] at h
    cases h

theorem validateResource_reason {current : Option Identifier} {reason : String}
    (h : validateResource resource current = some reason) : reasonShape reason = true := by
  cases resource with
  | none =>
    obtain rfl := Option.some.inj h
    decide
  | some r =>
    revert h
    simp only [validateResource]
    repeat' split
    all_goals
      intro h
      cases h
    all_goals decide

/-- Budgeting either blocks or passes the base on, and then both counts are
below their limits. -/
theorem budgeted_cases (base : PolicyDecision) (context : RecoveryContext)
    (history : List RecoveryHistoryEntry) (budgets : RecoveryBudgets) (fingerprint : Digest) :
    (∃ reason, reasonShape reason = true ∧
      budgeted base context history budgets fingerprint = blocked reason) ∨
    (budgeted base context history budgets fingerprint = base ∧
      (fingerprintDecisions fingerprint history).length < budgets.maxFingerprintRetries ∧
      (priorSameAction context base.action history).length < budgets.limitFor base.action) := by
  rw [budgeted]
  split
  · exact Or.inl ⟨_, by decide, rfl⟩
  · split
    · exact Or.inl ⟨_, by decide, rfl⟩
    · split
      · exact Or.inl ⟨_, by cases base.action <;> decide, rfl⟩
      · rename_i h1 h2
        exact Or.inr ⟨rfl, by omega, by omega⟩

/-- The four ways a decision comes about. -/
theorem policy_cases (failure : ClassifiedFailure) (signal : FailureSignal)
    (context : RecoveryContext) (history : List RecoveryHistoryEntry) (budgets : RecoveryBudgets)
    (fingerprint : Digest) (resource : Option ResourceRecoveryDecision) :
    let d := RecoveryPolicy.decide failure signal context history budgets fingerprint resource
    let base := baseDecision failure signal
    (∃ reason, reasonShape reason = true ∧ d.reasonCodes = [reason] ∧
      d.allowed = false ∧ d.action.halts = true) ∨
    (d = base ∧ base.action.halts = true) ∨
    (d.reasonCodes = base.reasonCodes ∧ d.allowed = base.allowed ∧ d.action = base.action ∧
      base.action.halts = false ∧
      (base.action = .rerouteResource →
        ∃ r, resource = some r ∧ context.resourceId ≠ some r.resourceId) ∧
      (fingerprintDecisions fingerprint history).length < budgets.maxFingerprintRetries ∧
      (priorSameAction context base.action history).length < budgets.limitFor base.action) := by
  intro d base
  by_cases hauthority : context.newAuthorityRequired
  · left
    have hd : d = approvalBlocked "new_authority_requires_approval" := by
      simp only [d, RecoveryPolicy.decide, if_pos hauthority]
    exact ⟨"new_authority_requires_approval", by decide, by rw [hd]; rfl, by rw [hd]; rfl,
      by rw [hd]; rfl⟩
  by_cases hmissing : !context.approvalPresent ∧ base.action ∈ approvalRequiredActions
  · left
    have hd : d = approvalBlocked "missing_required_approval" := by
      simp only [d, RecoveryPolicy.decide, if_neg hauthority]
      exact if_pos hmissing
    exact ⟨"missing_required_approval", by decide, by rw [hd]; rfl, by rw [hd]; rfl,
      by rw [hd]; rfl⟩
  have hd : d = gated base context history budgets fingerprint resource := by
    simp only [d, RecoveryPolicy.decide, if_neg hauthority]
    exact if_neg hmissing
  rw [gated] at hd
  by_cases hreroute : base.action = .rerouteResource
  · rw [if_pos hreroute] at hd
    cases hv : validateResource resource context.resourceId with
    | some reason =>
      left
      rw [hv] at hd
      have hshape := validateResource_reason hv
      exact ⟨reason, hshape, by rw [hd]; rfl, by rw [hd]; rfl, by rw [hd]; rfl⟩
    | none =>
      rw [hv] at hd
      have hoffered := validateResource_none hv
      rcases budgeted_cases { base with requiresFreshLease := true } context history budgets
          fingerprint with ⟨reason, hreason, hb⟩ | ⟨hb, hfp, hact⟩
      · left
        dsimp only at hd
        rw [hb] at hd
        exact ⟨reason, hreason, by rw [hd]; rfl, by rw [hd]; rfl, by rw [hd]; rfl⟩
      · right; right
        dsimp only at hd
        rw [hb] at hd
        refine ⟨by rw [hd], by rw [hd], by rw [hd], by rw [hreroute]; rfl, ?_, hfp, hact⟩
        intro _
        exact hoffered
  · rw [if_neg hreroute] at hd
    by_cases hhalts : base.action.halts
    · rw [if_pos hhalts] at hd
      exact Or.inr (Or.inl ⟨hd, hhalts⟩)
    · rw [if_neg hhalts] at hd
      rcases budgeted_cases base context history budgets fingerprint with
        ⟨reason, hreason, hb⟩ | ⟨hb, hfp, hact⟩
      · left
        rw [hb] at hd
        exact ⟨reason, hreason, by rw [hd]; rfl, by rw [hd]; rfl, by rw [hd]; rfl⟩
      · right; right
        rw [hb] at hd
        exact ⟨by rw [hd], by rw [hd], by rw [hd], by simpa using hhalts,
          fun h => absurd h hreroute, hfp, hact⟩

/-- An allowed decision takes the planned action and found room in both budgets. -/
theorem policy_allowed
    (h : (RecoveryPolicy.decide failure signal context history budgets fingerprint resource).allowed = true) :
    (RecoveryPolicy.decide failure signal context history budgets fingerprint resource).action =
        (baseDecision failure signal).action ∧
      (baseDecision failure signal).action.halts = false ∧
      (fingerprintDecisions fingerprint history).length < budgets.maxFingerprintRetries ∧
      (priorSameAction context (baseDecision failure signal).action history).length <
        budgets.limitFor (baseDecision failure signal).action := by
  rcases policy_cases failure signal context history budgets fingerprint resource with
    ⟨reason, _, _, hrefused, _⟩ | ⟨hbase, hhalts⟩ | ⟨_, _, haction, hhalts, _, hfp, hact⟩
  · rw [hrefused] at h
    cases h
  · rw [hbase, baseDecision_allowed, hhalts] at h
    cases h
  · exact ⟨haction, hhalts, hfp, hact⟩

end

end LilTweak.Recovery
