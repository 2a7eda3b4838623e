import LilTweak.Recovery.Controller
import Mathlib

/-!
# What an allowed decision rests on

A decision is allowed only for a known code of a sound and unsuspicious signal, under the approvals
the action needs, and a reroute only to a resource that passed every gate.
-/

namespace LilTweak.Recovery

/-! ## Classification -/

/-- A classification that halts, or that may be acted on automatically. -/
def HaltsOrFree (failure : ClassifiedFailure) : Prop :=
  failure.preferredAction.halts = true ∨
    (failure.automaticRecoveryProhibited = false ∧ failure.requiresReauthorization = false)

theorem HaltsOrFree.ite {c : Prop} [Decidable c] {f g : ClassifiedFailure} (hf : HaltsOrFree f)
    (hg : HaltsOrFree g) : HaltsOrFree (if c then f else g) := by
  split
  · exact hf
  · exact hg

/-- The code of a classification is the code that was classified. -/
theorem classifyCode_code (code : FailureCode) (signal : FailureSignal) : (classifyCode code signal).code = code := by
  have hite : ∀ {c : Prop} [Decidable c] {f g : ClassifiedFailure}, f.code = code → g.code = code →
      (if c then f else g).code = code := by
    intro c _ f g hf hg
    split
    · exact hf
    · exact hg
  rw [classifyCode]
  repeat' first | exact rfl | apply hite

theorem classifyCode_haltsOrFree (code : FailureCode) (signal : FailureSignal) :
    HaltsOrFree (classifyCode code signal) := by
  have hblock : ∀ reason, HaltsOrFree (blockFailure code reason) := fun _ => Or.inl rfl
  rw [classifyCode]
  repeat' first | exact hblock _ | exact Or.inl rfl | exact Or.inr ⟨rfl, rfl⟩ | apply HaltsOrFree.ite

/-- What the classifier asks of a signal it lets anyone act on. -/
theorem classifyCode_acts {code : FailureCode} {signal : FailureSignal}
    (h : (classifyCode code signal).preferredAction.halts = false) :
    signal.integrityFailure = false ∧ signal.securitySensitive = false ∧
      code ∉ [.rollbackFailed, .recoveryEvidenceInvalid, .securityCheckFailure] := by
  rw [classifyCode] at h
  by_cases hintegrity : signal.integrityFailure = true ∨ code ∈ [.repositoryIntegrityFailure, .recoveryEvidenceInvalid]
  · rw [if_pos hintegrity] at h
    cases h
  rw [if_neg hintegrity] at h
  by_cases hsecurity : signal.securitySensitive = true ∨ code ∈ [.securityCheckFailure, .falseCompletionClaim,
      .leaseReplayed, .providerAuthFailure]
  · rw [if_pos hsecurity] at h
    cases h
  rw [if_neg hsecurity] at h
  by_cases hended : code ∈ [.cancellation, .rollbackFailed, .repairBudgetExhausted, .repairRepeated,
      .recoveryStrategyInvalid, .recoveryStrategyNoProgress]
  · rw [if_pos hended] at h
    cases h
  obtain ⟨hsound, hcode⟩ := not_or.mp hintegrity
  obtain ⟨hplain, hcode'⟩ := not_or.mp hsecurity
  refine ⟨eq_false_of_ne_true hsound, eq_false_of_ne_true hplain, ?_⟩
  intro hm
  simp only [List.mem_cons, List.not_mem_nil, or_false] at hm
  rcases hm with rfl | rfl | rfl
  · exact hended (by decide)
  · exact hcode (by decide)
  · exact hcode' (by decide)

/-- What a signal is like when the policy starts from an action. -/
theorem planned_acts {signal : FailureSignal} (h : (plannedAction signal).halts = false) :
    (∃ code, signal.code = .known code) ∧ signal.integrityFailure = false ∧ signal.securitySensitive = false ∧
      (signal.partialMutation = true → plannedAction signal = .rollback) := by
  have hacts : (classify signal).preferredAction.halts = false := by
    unfold plannedAction baseDecision at h
    split at h
    · next hmutated =>
      rw [not_or, not_or, not_or] at hmutated
      exact eq_false_of_ne_true hmutated.2.2.2.1
    · exact h
  unfold plannedAction baseDecision
  unfold classify at hacts ⊢
  cases hcode : signal.code with
  | raw text =>
    rw [hcode] at hacts
    cases hacts
  | known code =>
    rw [hcode] at hacts
    obtain ⟨hsound, hplain, hlist⟩ := classifyCode_acts hacts
    refine ⟨⟨code, rfl⟩, hsound, hplain, ?_⟩
    intro hmutated
    simp only
    rw [if_pos]
    refine ⟨hmutated, ?_⟩
    rw [classifyCode_code]
    rcases classifyCode_haltsOrFree code signal with hhalts | ⟨hfree, hauthority⟩
    · rw [hhalts] at hacts
      cases hacts
    · rw [hfree, hauthority, hacts]
      rintro (hf | hf | hf | hf)
      · cases hf
      · cases hf
      · cases hf
      · exact hlist hf

/-! ## The gates of a reroute -/

/-- The resource passed all six gates. -/
structure ResourceRecoveryDecision.PassedGates (resource : ResourceRecoveryDecision) : Prop where
  qualified : resource.qualified = true
  healthy : resource.healthy = true
  authorized : resource.authorized = true
  costApproved : resource.costApproved = true
  freshLease : resource.freshLease = true
  sourceBound : resource.sourceBound = true

theorem validateResource_gates {resource : Option ResourceRecoveryDecision} {current : Option Identifier}
    (h : validateResource resource current = none) :
    ∃ r, resource = some r ∧ current ≠ some r.resourceId ∧ r.PassedGates := by
  have hgate : ∀ {gate : Bool} {reason : String} {rest : Option String},
      (if !gate then some reason else rest) = none → gate = true ∧ rest = none := by
    intro gate reason rest hnone
    cases gate with
    | false => cases hnone
    | true => exact ⟨rfl, hnone⟩
  cases resource with
  | none => cases h
  | some r =>
    by_cases hsame : current = some r.resourceId
    · rw [validateResource, if_pos hsame] at h
      cases h
    · rw [validateResource, if_neg hsame] at h
      obtain ⟨hqualified, h⟩ := hgate h
      obtain ⟨hhealthy, h⟩ := hgate h
      obtain ⟨hauthorized, h⟩ := hgate h
      obtain ⟨hcost, h⟩ := hgate h
      obtain ⟨hlease, h⟩ := hgate h
      obtain ⟨hsource, -⟩ := hgate h
      exact ⟨r, rfl, hsame, hqualified, hhealthy, hauthorized, hcost, hlease, hsource⟩

/-! ## The policy -/

section
variable {failure : ClassifiedFailure} {signal : FailureSignal} {context : RecoveryContext}
  {history : List RecoveryHistoryEntry} {budgets : RecoveryBudgets} {fingerprint : Digest}
  {resource : Option ResourceRecoveryDecision}

theorem budgeted_allowed {base : PolicyDecision}
    (h : (budgeted base context history budgets fingerprint).allowed = true) :
    budgeted base context history budgets fingerprint = base := by
  rcases budgeted_cases base context history budgets fingerprint with ⟨reason, -, hblocked⟩ | ⟨hbase, -⟩
  · rw [hblocked] at h
    cases h
  · exact hbase

/-- What the context and the resource let through. -/
theorem policy_authority
    (h : (RecoveryPolicy.decide failure signal context history budgets fingerprint resource).allowed = true) :
    context.newAuthorityRequired = false ∧
      ((baseDecision failure signal).action ∈ approvalRequiredActions → context.approvalPresent = true) ∧
      ((baseDecision failure signal).action = .rerouteResource →
        validateResource resource context.resourceId = none ∧
          (RecoveryPolicy.decide failure signal context history budgets fingerprint resource).requiresFreshLease =
            true) := by
  unfold RecoveryPolicy.decide at h ⊢
  by_cases hauthority : context.newAuthorityRequired = true
  · simp only [if_pos hauthority] at h
    cases h
  · simp only [if_neg hauthority] at h ⊢
    refine ⟨eq_false_of_ne_true hauthority, ?_⟩
    by_cases hmissing : (!context.approvalPresent) = true ∧ (baseDecision failure signal).action ∈ approvalRequiredActions
    · rw [if_pos hmissing] at h
      cases h
    · rw [if_neg hmissing] at h ⊢
      refine ⟨?_, ?_⟩
      · intro hneeds
        by_contra habsent
        exact hmissing ⟨by rw [eq_false_of_ne_true habsent]; rfl, hneeds⟩
      · intro hreroute
        unfold gated at h ⊢
        rw [if_pos hreroute] at h ⊢
        cases hvalid : validateResource resource context.resourceId with
        | some reason =>
          rw [hvalid] at h
          cases h
        | none =>
          rw [hvalid] at h
          simp only at h ⊢
          refine ⟨trivial, ?_⟩
          rw [budgeted_allowed h]

end

/-! ## The decision -/

section
variable {κ : Type} (digests : CanonicalDigests) (budgets : κ → RecoveryBudgets)

/-- What authorises a decision on a call. -/
structure Authorised (call : Call κ) (decision : RecoveryDecision) : Prop where
  known : ∃ code, call.signal.code = .known code
  sound : call.signal.integrityFailure = false ∧ call.signal.securitySensitive = false
  acts : decision.action ≠ .block ∧ decision.action ≠ .escalate
  authority : call.context.newAuthorityRequired = false
  approved : decision.action ∈ [.repairCandidate, .rollback, .rerouteResource, .requalifyResource] →
    call.context.approvalPresent = true
  rollsBack : call.signal.partialMutation = true → decision.action = .rollback
  reroutes : decision.action = .rerouteResource → ∃ r, call.resource = some r ∧
    decision.targetResourceId = some r.resourceId ∧ call.context.resourceId ≠ some r.resourceId ∧
      r.PassedGates ∧ decision.requiresFreshLease = true

/-- An allowed decision is authorised, whatever the history and the budgets. -/
theorem decision_authorised (call : Call κ) (history : List RecoveryHistoryEntry)
    (h : (call.decision digests budgets history).allowed = true) :
    Authorised call (call.decision digests budgets history) := by
  have hpolicy : (call.policy digests budgets history).allowed = true := h
  obtain ⟨haction, hhalts, -⟩ := policy_allowed hpolicy
  obtain ⟨hauthority, happroved, hreroute⟩ := policy_authority hpolicy
  obtain ⟨hknown, hsound, hplain, hrollback⟩ := planned_acts hhalts
  have hplanned : (call.decision digests budgets history).action = plannedAction call.signal := haction
  have hnothalting : (call.decision digests budgets history).action.halts = false := by
    rw [hplanned]
    exact hhalts
  refine ⟨hknown, ⟨hsound, hplain⟩, ⟨?_, ?_⟩, hauthority, ?_, ?_, ?_⟩
  · intro hblock
    rw [hblock] at hnothalting
    cases hnothalting
  · intro hescalate
    rw [hescalate] at hnothalting
    cases hnothalting
  · intro hneeds
    rw [hplanned] at hneeds
    exact happroved hneeds
  · intro hmutated
    rw [hplanned]
    exact hrollback hmutated
  · intro htarget
    obtain ⟨hvalid, hlease⟩ := hreroute (hplanned.symm.trans htarget)
    obtain ⟨r, hr, hdistinct, hgates⟩ := validateResource_gates hvalid
    refine ⟨r, hr, ?_, hdistinct, hgates, hlease⟩
    have hfield : (call.decision digests budgets history).targetResourceId =
        targetResource (call.policy digests budgets history) call.resource := rfl
    have haction' : (call.policy digests budgets history).action = .rerouteResource := htarget
    rw [hfield, targetResource, if_pos ⟨hpolicy, haction'⟩, hr]
    rfl

end

/-- A first timeout is answered by an authorised retry. -/
theorem decision_authorised_timedOut :
    ((timedOut 1).decision timedOutDigests (fun _ => .standard) []).action = .retryStep ∧
      Authorised (timedOut 1) ((timedOut 1).decision timedOutDigests (fun _ => .standard) []) :=
  ⟨by decide, decision_authorised timedOutDigests (fun _ => .standard) (timedOut 1) [] (by decide)⟩

end LilTweak.Recovery
