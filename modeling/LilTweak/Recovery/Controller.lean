import LilTweak.Lib.Run
import LilTweak.Recovery.Policy
import LilTweak.Recovery.History

/-!
# Decisions taken side by side

`FailureRecoveryController.decide` reads the owner's history, lets the policy
decide, and appends the decision: two atomic calls of a store that any number of
controllers and threads share. Here calls interleave freely. The budgets bound
what is recorded as long as nothing that competes with a call is recorded
between its list and its append; two calls that list first and append afterwards
overrun them.
-/

namespace LilTweak.Recovery

open LilTweak.Lib

/-! ## One decision -/

/-- What `failure_fingerprint` digests: neither the attempt nor any prose. -/
structure FingerprintMaterial where
  ownerId : Identifier
  taskId : Identifier
  dagRunId : Identifier
  nodeId : Identifier
  sourceRevision : Option Revision
  planDigest : Option Digest
  candidateDigest : Option Digest
  contractDigest : Option Digest
  resourceId : Option Identifier
  code : String
  exceptionType : String
  failedChecks : List String
  evidence : List EvidenceRef
  transient : Bool
  partialMutation : Bool
  integrityFailure : Bool
  securitySensitive : Bool
deriving DecidableEq

def fingerprintMaterial (signal : FailureSignal) (context : RecoveryContext) :
    FingerprintMaterial :=
  { ownerId := context.ownerId
    taskId := context.taskId
    dagRunId := context.dagRunId
    nodeId := context.nodeId
    sourceRevision := context.sourceRevision
    planDigest := context.planDigest
    candidateDigest := context.candidateDigest
    contractDigest := context.contractDigest
    resourceId := context.resourceId
    code := signal.code.value
    exceptionType := signal.exceptionType
    failedChecks := signal.failedChecks
    evidence := signal.evidence
    transient := signal.transient
    partialMutation := signal.partialMutation
    integrityFailure := signal.integrityFailure
    securitySensitive := signal.securitySensitive }

/-- What `decision_digest` digests. -/
structure DecisionMaterial where
  context : RecoveryContext
  targetResourceId : Option Identifier
  fingerprint : Digest
  failureClass : FailureClass
  failureCode : FailureCode
  disposition : RecoveryDisposition
  action : RecoveryAction
  allowed : Bool
  requiresReauthorization : Bool
  requiresFreshLease : Bool
  reasonCodes : List String
deriving DecidableEq

/-- The canonical JSON digests of the two materials. -/
structure CanonicalDigests where
  fingerprint : FingerprintMaterial → Digest
  decision : DecisionMaterial → Digest

/-- `tuple(sorted(set(values)))`. -/
def sortedSet (values : List String) : List String := values.dedup.mergeSort fun a b => a ≤ b

/-- The resource an allowed reroute goes to. -/
def targetResource (decided : PolicyDecision) (resource : Option ResourceRecoveryDecision) :
    Option Identifier :=
  if decided.allowed ∧ decided.action = .rerouteResource then resource.map fun r => r.resourceId
  else none

/-- What one caller passes to the `decide` of one controller. -/
structure Call (κ : Type) where
  controller : κ
  signal : FailureSignal
  context : RecoveryContext
  resource : Option ResourceRecoveryDecision

section
variable {κ : Type} (digests : CanonicalDigests) (budgets : κ → RecoveryBudgets)

/-- `failure_fingerprint` of a call. -/
def Call.fingerprint (call : Call κ) : Digest :=
  digests.fingerprint (fingerprintMaterial call.signal call.context)

/-- The policy's answer to a call that read this history. -/
def Call.policy (call : Call κ) (history : List RecoveryHistoryEntry) : PolicyDecision :=
  RecoveryPolicy.decide (classify call.signal) call.signal call.context history
    (budgets call.controller) (call.fingerprint digests) call.resource

theorem baseDecision_reasons (signal : FailureSignal) :
    ∃ reason, (baseDecision (classify signal) signal).reasonCodes = [reason] ∧
      reasonShape reason = true := by
  rw [baseDecision]
  split
  · exact ⟨"partial_mutation_requires_rollback", rfl, by decide⟩
  · exact classify_reasons signal

theorem policy_reasons (call : Call κ) (history : List RecoveryHistoryEntry) :
    ∃ reason, (call.policy digests budgets history).reasonCodes = [reason] ∧
      reasonShape reason = true := by
  have hbase := baseDecision_reasons call.signal
  rcases policy_cases (classify call.signal) call.signal call.context history
      (budgets call.controller) (call.fingerprint digests) call.resource with
    ⟨reason, hshape, hreasons, _⟩ | ⟨heq, _⟩ | ⟨hreasons, _⟩
  · exact ⟨reason, hreasons, hshape⟩
  · rw [Call.policy, heq]
    exact hbase
  · rw [Call.policy, hreasons]
    exact hbase

/-- The policy allows exactly the actions that do not halt. -/
theorem policy_allows (call : Call κ) (history : List RecoveryHistoryEntry) :
    (call.policy digests budgets history).allowed =
      !(call.policy digests budgets history).action.halts := by
  rcases policy_cases (classify call.signal) call.signal call.context history
      (budgets call.controller) (call.fingerprint digests) call.resource with
    ⟨_, _, _, hallowed, haction⟩ | ⟨heq, hhalts⟩ | ⟨_, hallowed, haction, _⟩
  · rw [Call.policy, hallowed, haction]
    rfl
  · rw [Call.policy, heq, baseDecision_allowed]
  · rw [Call.policy, hallowed, haction, baseDecision_allowed]

theorem policy_halting (call : Call κ) (history : List RecoveryHistoryEntry)
    (h : (call.policy digests budgets history).allowed = true) :
    (call.policy digests budgets history).action.halts = false := by
  rw [policy_allows] at h
  simpa using h

/-- A decision names a target exactly when it reroutes, and then another one
than the current resource. -/
theorem policy_target (call : Call κ) (history : List RecoveryHistoryEntry) :
    if (call.policy digests budgets history).action = .rerouteResource then
      targetResource (call.policy digests budgets history) call.resource ≠ none ∧
        call.context.resourceId ≠
          targetResource (call.policy digests budgets history) call.resource
    else targetResource (call.policy digests budgets history) call.resource = none := by
  split
  · rename_i hreroute
    have hallowed : (call.policy digests budgets history).allowed = true := by
      rw [policy_allows, hreroute]
      rfl
    obtain ⟨r, hr, hne⟩ : ∃ r, call.resource = some r ∧
        call.context.resourceId ≠ some r.resourceId := by
      rcases policy_cases (classify call.signal) call.signal call.context history
          (budgets call.controller) (call.fingerprint digests) call.resource with
        ⟨_, _, _, hrefused, _⟩ | ⟨heq, hhalts⟩ | ⟨_, _, haction, _, hoffered, _⟩
      · rw [Call.policy, hrefused] at hallowed
        cases hallowed
      · rw [Call.policy, heq] at hreroute
        rw [hreroute] at hhalts
        cases hhalts
      · rw [Call.policy, haction] at hreroute
        exact hoffered hreroute
    rw [targetResource, if_pos ⟨hallowed, hreroute⟩, hr]
    exact ⟨nofun, hne⟩
  · rename_i hother
    rw [targetResource, if_neg fun h => hother h.2]

theorem policy_shaped (call : Call κ) (history : List RecoveryHistoryEntry) :
    sortedSet (call.policy digests budgets history).reasonCodes ≠ [] ∧
      (sortedSet (call.policy digests budgets history).reasonCodes).all reasonShape = true := by
  obtain ⟨reason, hreasons, hshape⟩ := policy_reasons digests budgets call history
  have hsorted : sortedSet [reason] = [reason] := by
    rw [sortedSet, List.dedup_cons_of_notMem (List.not_mem_nil), List.dedup_nil,
      List.mergeSort_singleton]
  rw [hreasons, hsorted]
  exact ⟨nofun, by rw [List.all_cons, hshape]; rfl⟩

/-- `decide` between its list and its append. -/
def Call.decision (call : Call κ) (history : List RecoveryHistoryEntry) : RecoveryDecision :=
  let failure := classify call.signal
  let decided := call.policy digests budgets history
  { ownerId := call.context.ownerId
    taskId := call.context.taskId
    dagRunId := call.context.dagRunId
    nodeId := call.context.nodeId
    sourceRevision := call.context.sourceRevision
    planDigest := call.context.planDigest
    candidateDigest := call.context.candidateDigest
    contractDigest := call.context.contractDigest
    executionId := call.context.executionId
    leaseId := call.context.leaseId
    resourceId := call.context.resourceId
    targetResourceId := targetResource decided call.resource
    attempt := call.context.attempt
    failureClass := failure.failureClass
    failureCode := failure.code
    fingerprint := call.fingerprint digests
    disposition := decided.disposition
    action := decided.action
    allowed := decided.allowed
    requiresReauthorization := decided.requiresReauthorization
    requiresFreshLease := decided.requiresFreshLease
    reasonCodes := sortedSet decided.reasonCodes
    decisionDigest := digests.decision
      { context := call.context
        targetResourceId := targetResource decided call.resource
        fingerprint := call.fingerprint digests
        failureClass := failure.failureClass
        failureCode := failure.code
        disposition := decided.disposition
        action := decided.action
        allowed := decided.allowed
        requiresReauthorization := decided.requiresReauthorization
        requiresFreshLease := decided.requiresFreshLease
        reasonCodes := sortedSet decided.reasonCodes }
    halting_refused := policy_halting digests budgets call history
    target_bound := policy_target digests budgets call history
    reasons_shaped := policy_shaped digests budgets call history }

end

/-! ## Quotas -/

/-- What a decision is counted by. -/
structure Charge where
  fingerprint : Digest
  taskId : Identifier
  nodeId : Identifier
  action : RecoveryAction
deriving DecidableEq

def RecoveryDecision.charge (decision : RecoveryDecision) : Charge :=
  ⟨decision.fingerprint, decision.taskId, decision.nodeId, decision.action⟩

def RecoveryHistoryEntry.charge (item : RecoveryHistoryEntry) : Charge :=
  ⟨item.fingerprint, item.taskId, item.nodeId, item.action⟩

/-- A budget of one owner: of a fingerprint, of an action of a task, or of the
retries of a node of a task. -/
inductive Quota where
  | fingerprint (fingerprint : Digest)
  | action (taskId : Identifier) (action : RecoveryAction)
  | node (taskId nodeId : Identifier)

/-- What a quota counts; retried steps are counted by node. -/
def Quota.covers : Quota → Charge → Bool
  | .fingerprint fp, c => c.fingerprint = fp
  | .action taskId act, c => c.taskId = taskId ∧ c.action = act ∧ act ≠ .retryStep
  | .node taskId nodeId, c => c.taskId = taskId ∧ c.nodeId = nodeId ∧ c.action = .retryStep

def Quota.limit (budgets : RecoveryBudgets) : Quota → ℕ
  | .fingerprint _ => budgets.maxFingerprintRetries
  | .action _ act => budgets.limitFor act
  | .node _ _ => budgets.maxNodeRetries

/-- An entry of a decision that was allowed: nothing allowed halts. -/
def grants (item : RecoveryHistoryEntry) : Bool :=
  item.outcomeStatus.isNone && !item.action.halts

/-- What the allowed decisions of a history are counted by. -/
def charges (history : List RecoveryHistoryEntry) : List Charge :=
  (history.filter grants).map RecoveryHistoryEntry.charge

/-- What an owner's allowed decisions are counted by. -/
def issuedCharges (owner : Identifier) (issued : List RecoveryDecision) : List Charge :=
  (issued.filter fun d => d.allowed && decide (d.ownerId = owner)).map RecoveryDecision.charge

theorem charges_append (history rest : List RecoveryHistoryEntry) :
    charges (history ++ rest) = charges history ++ charges rest := by
  rw [charges, List.filter_append, List.map_append]
  rfl

theorem countP_charges (p : Charge → Bool) (history : List RecoveryHistoryEntry) :
    (charges history).countP p = history.countP fun item => p item.charge && grants item := by
  rw [charges, List.countP_map, List.countP_filter]
  rfl

/-- What a quota counts is what the policy counted, or less. -/
theorem countP_charges_le {p : Charge → Bool} {q : RecoveryHistoryEntry → Bool}
    {history : List RecoveryHistoryEntry}
    (h : ∀ item : RecoveryHistoryEntry, p item.charge = true → q item = true) :
    (charges history).countP p ≤ ((decisions history).filter q).length := by
  rw [countP_charges, ← List.countP_eq_length_filter, decisions, List.countP_filter]
  apply List.countP_mono_left
  intro item _ hitem
  rw [Bool.and_eq_true] at hitem ⊢
  obtain ⟨hp, hgrants⟩ := hitem
  rw [grants, Bool.and_eq_true] at hgrants
  exact ⟨h item hp, hgrants.1⟩

section
variable {κ : Type} {digests : CanonicalDigests} {budgets : κ → RecoveryBudgets}
  {call : Call κ} {history : List RecoveryHistoryEntry} {quota : Quota}

/-- An allowed decision found room in every quota it is counted by. -/
theorem quota_room (hallowed : (call.decision digests budgets history).allowed = true)
    (hcovers : quota.covers (call.decision digests budgets history).charge = true) :
    (charges history).countP quota.covers < quota.limit (budgets call.controller) := by
  obtain ⟨haction, _, hfingerprints, hactions⟩ := policy_allowed hallowed
  have hplanned : (call.decision digests budgets history).action =
      (baseDecision (classify call.signal) call.signal).action := haction
  rw [← hplanned] at hactions
  cases quota with
  | fingerprint fingerprint =>
    have hfp : (call.decision digests budgets history).fingerprint = fingerprint :=
      of_decide_eq_true hcovers
    have hle : (charges history).countP (Quota.fingerprint fingerprint).covers ≤
        (fingerprintDecisions fingerprint history).length :=
      countP_charges_le fun item hitem => hitem
    have hlt : (fingerprintDecisions fingerprint history).length <
        (budgets call.controller).maxFingerprintRetries := by
      rw [← hfp]
      exact hfingerprints
    exact hle.trans_lt hlt
  | action taskId action =>
    obtain ⟨htask, hact, hne⟩ := of_decide_eq_true hcovers
    have htask : call.context.taskId = taskId := htask
    have hact : (call.decision digests budgets history).action = action := hact
    rw [hact] at hactions
    refine (countP_charges_le fun item hitem => ?_).trans_lt hactions
    obtain ⟨hitask, hiact, _⟩ := of_decide_eq_true hitem
    exact decide_eq_true ⟨hitask.trans htask.symm, hiact, fun hretry => absurd hretry hne⟩
  | node taskId nodeId =>
    obtain ⟨htask, hnode, hact⟩ := of_decide_eq_true hcovers
    have htask : call.context.taskId = taskId := htask
    have hnode : call.context.nodeId = nodeId := hnode
    have hact : (call.decision digests budgets history).action = .retryStep := hact
    rw [hact] at hactions
    refine (countP_charges_le fun item hitem => ?_).trans_lt hactions
    obtain ⟨hitask, hinode, hiact⟩ := of_decide_eq_true hitem
    exact decide_eq_true ⟨hitask.trans htask.symm, hiact, fun _ => hinode.trans hnode.symm⟩

end

/-! ## Interleavings -/

/-- A call that has listed its owner's history and has not appended yet. -/
structure Reading (κ : Type) where
  call : Call κ
  listed : List RecoveryHistoryEntry

/-- The shared store, the calls under way, and every decision recorded so far. -/
structure World (σ ι κ : Type) where
  store : σ
  reading : ι → Option (Reading κ)
  issued : List RecoveryDecision

/-- One atomic call of the store. -/
inductive Label (ι κ : Type) where
  | list (id : ι) (call : Call κ)
  | append (id : ι)
  | outcome (decision : RecoveryDecision) (outcome : RecoveryOutcome)

section
variable {σ ι κ : Type} [DecidableEq ι] (digests : CanonicalDigests)
  (budgets : κ → RecoveryBudgets) (store : HistoryStore σ)

/-- Nothing is recorded and nobody is deciding. -/
def World.start : World σ ι κ := ⟨store.empty, fun _ => none, []⟩

/-- What a store call comes to; a label no caller can be at is no step. -/
def World.next (w : World σ ι κ) : Label ι κ → Option (World σ ι κ)
  | .list id call =>
    if (w.reading id).isSome then none
    else
      some { w with
        reading := Function.update w.reading id
          (some ⟨call, store.list w.store call.context.ownerId⟩) }
  | .append id =>
    match w.reading id with
    | none => none
    | some reading =>
      let decision := reading.call.decision digests budgets reading.listed
      match store.appendDecision w.store decision reading.call.signal.failedChecks with
      | .error _ => some { w with reading := Function.update w.reading id none }
      | .ok (_, appended) =>
        some
          { store := appended
            reading := Function.update w.reading id none
            issued := w.issued ++ [decision] }
  | .outcome decision outcome =>
    match store.appendOutcome w.store decision outcome with
    | .error _ => some w
    | .ok (_, appended) => some { w with store := appended }

/-- The labels one after the other. -/
def World.exec (w : World σ ι κ) : List (Label ι κ) → Option (World σ ι κ)
  | [] => some w
  | label :: rest => (w.next digests budgets store label).bind fun w' => w'.exec rest

/-- An entry that is counted with what a call plans. -/
def Competes (call : Call κ) (item : RecoveryHistoryEntry) : Prop :=
  item.fingerprint = call.fingerprint digests ∨
    (item.taskId = call.context.taskId ∧ item.action = plannedAction call.signal ∧
      (plannedAction call.signal = .retryStep → item.nodeId = call.context.nodeId))

/-- When a call appends, no allowed decision that competes with it was recorded
after it listed. -/
def Undisturbed (w : World σ ι κ) : Label ι κ → Prop
  | .append id => ∀ reading, w.reading id = some reading →
      ∀ item ∈ (store.list w.store reading.call.context.ownerId).drop reading.listed.length,
        grants item = true → ¬Competes digests reading.call item
  | _ => True

/-- How many allowed decisions with a property were recorded. -/
def allowedCount (issued : List RecoveryDecision) (p : RecoveryDecision → Prop)
    [DecidablePred p] : ℕ :=
  issued.countP fun d => d.allowed && decide (p d)

/-- No budget is exceeded. Where the controllers' budgets differ, `limit` is any
number that none of them goes beyond. -/
structure WithinBudgets (budgets : κ → RecoveryBudgets) (issued : List RecoveryDecision) :
    Prop where
  fingerprints : ∀ limit, (∀ i, (budgets i).maxFingerprintRetries ≤ limit) →
    ∀ owner fingerprint, allowedCount issued
      (fun d => d.ownerId = owner ∧ d.fingerprint = fingerprint) ≤ limit
  actions : ∀ action limit, action ≠ .retryStep → (∀ i, (budgets i).limitFor action ≤ limit) →
    ∀ owner task, allowedCount issued
      (fun d => d.ownerId = owner ∧ d.taskId = task ∧ d.action = action) ≤ limit
  nodes : ∀ limit, (∀ i, (budgets i).maxNodeRetries ≤ limit) →
    ∀ owner task node, allowedCount issued
      (fun d => d.ownerId = owner ∧ d.taskId = task ∧ d.nodeId = node ∧
        d.action = .retryStep) ≤ limit

/-- What every undisturbed run keeps: the history holds the allowed decisions in
the order they were recorded, every reading is a prefix of it, and no quota is
overdrawn. -/
structure Sound (w : World σ ι κ) : Prop where
  mirrors : ∀ owner, issuedCharges owner w.issued = charges (store.list w.store owner)
  seen : ∀ id reading, w.reading id = some reading →
    reading.listed <+: store.list w.store reading.call.context.ownerId
  within : ∀ owner (quota : Quota) limit, (∀ i, quota.limit (budgets i) ≤ limit) →
    (charges (store.list w.store owner)).countP quota.covers ≤ limit

end

section
variable {σ ι κ : Type} {digests : CanonicalDigests}
  {budgets : κ → RecoveryBudgets} {store : HistoryStore σ} {w w' : World σ ι κ}

theorem sound_start : Sound budgets store (World.start store : World σ ι κ) := by
  constructor
  · intro owner
    change issuedCharges owner [] = charges (store.list store.empty owner)
    rw [store.list_empty]
    rfl
  · intro id reading h
    cases h
  · intro owner quota limit _
    change (charges (store.list store.empty owner)).countP quota.covers ≤ limit
    rw [store.list_empty]
    exact Nat.zero_le limit

/-- Listing changes no store and reads the whole history. -/
theorem Sound.listing [DecidableEq ι] (h : Sound budgets store w) (id : ι) (call : Call κ) :
    Sound budgets store { w with
      reading := Function.update w.reading id
        (some ⟨call, store.list w.store call.context.ownerId⟩) } := by
  constructor
  · exact h.mirrors
  · intro other reading hreading
    by_cases hid : other = id
    · subst hid
      have hreading : some _ = some reading :=
        (Function.update_self other _ w.reading).symm.trans hreading
      obtain rfl := Option.some.inj hreading
      exact List.prefix_rfl
    · have hreading : w.reading other = some reading :=
        (Function.update_of_ne hid _ w.reading).symm.trans hreading
      exact h.seen other reading hreading
  · exact h.within

/-- A call that gives up leaves the others as they are. -/
theorem Sound.abandoning [DecidableEq ι] (h : Sound budgets store w) (id : ι) :
    Sound budgets store { w with reading := Function.update w.reading id none } := by
  constructor
  · exact h.mirrors
  · intro other reading hreading
    by_cases hid : other = id
    · subst hid
      have hnone : none = some reading :=
        (Function.update_self other _ w.reading).symm.trans hreading
      cases hnone
    · have hreading : w.reading other = some reading :=
        (Function.update_of_ne hid _ w.reading).symm.trans hreading
      exact h.seen other reading hreading
  · exact h.within

/-- Appending an entry leaves every reading a prefix of its owner's history. -/
theorem Sound.seen_append {stored : σ} {item : RecoveryHistoryEntry} {owner : Identifier}
    (h : Sound budgets store w)
    (hlist : ∀ o, store.list stored o =
      if o = owner then store.list w.store o ++ [item] else store.list w.store o)
    {id : ι} {reading : Reading κ} (hreading : w.reading id = some reading) :
    reading.listed <+: store.list stored reading.call.context.ownerId := by
  have hseen := h.seen id reading hreading
  rw [hlist]
  split
  · exact hseen.trans (List.prefix_append _ _)
  · exact hseen

/-- An outcome is no decision, so no quota is charged with it. -/
theorem Sound.reporting (h : Sound budgets store w) {decision : RecoveryDecision}
    {outcome : RecoveryOutcome} {item : RecoveryHistoryEntry} {stored : σ}
    (happend : store.appendOutcome w.store decision outcome = .ok (item, stored)) :
    Sound budgets store { w with store := stored } := by
  obtain ⟨⟨n, hitem⟩, hlist⟩ := store.list_appendOutcome happend
  have hfree : charges [item] = [] := by
    rw [hitem]
    rfl
  have hcharges (owner : Identifier) :
      charges (store.list stored owner) = charges (store.list w.store owner) := by
    rw [hlist]
    split
    · rw [charges_append, hfree, List.append_nil]
    · rfl
  constructor
  · intro owner
    exact (h.mirrors owner).trans (hcharges owner).symm
  · intro id reading hreading
    exact h.seen_append hlist hreading
  · intro owner quota limit hlimit
    change (charges (store.list stored owner)).countP quota.covers ≤ limit
    rw [hcharges]
    exact h.within owner quota limit hlimit

end

section
variable {σ ι κ : Type} {digests : CanonicalDigests}
  {budgets : κ → RecoveryBudgets} {store : HistoryStore σ} {w w' : World σ ι κ}
  {reading : Reading κ} {quota : Quota}

/-- What a quota counts in common with a decision competes with its call. -/
theorem competes_of_covers {item : RecoveryHistoryEntry} {history : List RecoveryHistoryEntry}
    {call : Call κ} (hallowed : (call.decision digests budgets history).allowed = true)
    (hown : quota.covers (call.decision digests budgets history).charge = true)
    (hitem : quota.covers item.charge = true) : Competes digests call item := by
  obtain ⟨haction, _⟩ := policy_allowed hallowed
  have hplanned : (call.decision digests budgets history).action = plannedAction call.signal :=
    haction
  cases quota with
  | fingerprint fp =>
    have hfp : call.fingerprint digests = fp := of_decide_eq_true hown
    have hifp : item.fingerprint = fp := of_decide_eq_true hitem
    exact Or.inl (hifp.trans hfp.symm)
  | action taskId act =>
    obtain ⟨htask, hact, hne⟩ := of_decide_eq_true hown
    obtain ⟨hitask, hiact, _⟩ := of_decide_eq_true hitem
    have htask : call.context.taskId = taskId := htask
    have hact : plannedAction call.signal = act := hplanned.symm.trans hact
    exact Or.inr ⟨hitask.trans htask.symm, hiact.trans hact.symm,
      fun hretry => absurd (hact.symm.trans hretry) hne⟩
  | node taskId nodeId =>
    obtain ⟨htask, hnode, hact⟩ := of_decide_eq_true hown
    obtain ⟨hitask, hinode, hiact⟩ := of_decide_eq_true hitem
    have htask : call.context.taskId = taskId := htask
    have hnode : call.context.nodeId = nodeId := hnode
    have hact : plannedAction call.signal = .retryStep := hplanned.symm.trans hact
    exact Or.inr ⟨hitask.trans htask.symm, hiact.trans hact.symm,
      fun _ => hinode.trans hnode.symm⟩

/-- An undisturbed call that is allowed still finds room when it appends. -/
theorem Sound.room (h : Sound budgets store w) {id : ι} (hreading : w.reading id = some reading)
    (hfree : Undisturbed digests store w (.append id))
    (hallowed : (reading.call.decision digests budgets reading.listed).allowed = true)
    (hcovers : quota.covers
      (reading.call.decision digests budgets reading.listed).charge = true) :
    (charges (store.list w.store reading.call.context.ownerId)).countP quota.covers <
      quota.limit (budgets reading.call.controller) := by
  have hroom := quota_room hallowed hcovers
  obtain ⟨later, hlater⟩ := h.seen id reading hreading
  have hnone : (charges later).countP quota.covers = 0 := by
    rw [countP_charges, List.countP_eq_zero]
    intro item hitem hcounted
    obtain ⟨hitemCovers, hgrants⟩ := Bool.and_eq_true_iff.mp hcounted
    have hdrop : item ∈ (store.list w.store reading.call.context.ownerId).drop
        reading.listed.length := by
      rw [← hlater, List.drop_left]
      exact hitem
    exact hfree reading hreading item hdrop hgrants
      (competes_of_covers hallowed hcovers hitemCovers)
  rw [← hlater, charges_append, List.countP_append, hnone]
  exact hroom

/-- A decision that is appended charges its quotas, and only when it is allowed. -/
theorem charges_decision (digests : CanonicalDigests) (budgets : κ → RecoveryBudgets)
    (call : Call κ) (history : List RecoveryHistoryEntry) (n : ℕ) (checks : List String) :
    charges [decisionEntry (call.decision digests budgets history) n checks] =
      if (call.decision digests budgets history).allowed then
        [(call.decision digests budgets history).charge]
      else [] := by
  have hgrants : grants (decisionEntry (call.decision digests budgets history) n checks) =
      (call.decision digests budgets history).allowed := by
    rw [grants]
    exact (policy_allows digests budgets call history).symm
  rw [charges]
  split
  · rename_i hallowed
    rw [List.filter_cons_of_pos (hgrants.trans hallowed)]
    rfl
  · rename_i hrefused
    rw [List.filter_cons_of_neg (by rw [hgrants]; exact hrefused)]
    rfl

/-- An undisturbed append keeps every quota. -/
theorem Sound.recording [DecidableEq ι] (h : Sound budgets store w) {id : ι}
    (hreading : w.reading id = some reading) (hfree : Undisturbed digests store w (.append id))
    {item : RecoveryHistoryEntry} {stored : σ}
    (happend : store.appendDecision w.store
      (reading.call.decision digests budgets reading.listed)
      reading.call.signal.failedChecks = .ok (item, stored)) :
    Sound budgets store
      { store := stored
        reading := Function.update w.reading id none
        issued := w.issued ++ [reading.call.decision digests budgets reading.listed] } := by
  obtain ⟨⟨n, hitem⟩, hlist⟩ := store.list_appendDecision happend
  have hcharge := charges_decision digests budgets reading.call reading.listed n
    reading.call.signal.failedChecks
  rw [← hitem] at hcharge
  constructor
  · intro owner
    change issuedCharges owner (w.issued ++ [_]) = charges (store.list stored owner)
    rw [issuedCharges, List.filter_append, List.map_append, hlist]
    have hbefore := h.mirrors owner
    rw [issuedCharges] at hbefore
    rw [hbefore]
    by_cases howner : owner = reading.call.context.ownerId
    · rw [if_pos (show owner = (reading.call.decision digests budgets reading.listed).ownerId
        from howner), charges_append, hcharge]
      congr 1
      split
      · rename_i hallowed
        rw [List.filter_cons_of_pos (by
          rw [hallowed, Bool.true_and]
          exact decide_eq_true howner.symm)]
        rfl
      · rename_i hrefused
        rw [List.filter_cons_of_neg (by
          rw [Bool.and_eq_true]
          exact fun hboth => hrefused hboth.1)]
        rfl
    · rw [if_neg (show ¬owner = (reading.call.decision digests budgets reading.listed).ownerId
        from howner), List.filter_cons_of_neg (by
          rw [Bool.and_eq_true]
          exact fun hboth => howner (of_decide_eq_true hboth.2).symm)]
      exact List.append_nil _
  · intro other others hothers
    by_cases hid : other = id
    · subst hid
      have hnone : none = some others :=
        (Function.update_self other _ w.reading).symm.trans hothers
      cases hnone
    · have hothers : w.reading other = some others :=
        (Function.update_of_ne hid _ w.reading).symm.trans hothers
      exact h.seen_append hlist hothers
  · intro owner quota limit hlimit
    change (charges (store.list stored owner)).countP quota.covers ≤ limit
    have hbefore := h.within owner quota limit hlimit
    rw [hlist]
    split
    · rename_i howner
      have howner : owner = reading.call.context.ownerId := howner
      rw [charges_append, hcharge, List.countP_append]
      split
      · rename_i hallowed
        rw [List.countP_singleton]
        split
        · rename_i hcovers
          have hroom := h.room hreading hfree hallowed hcovers
          rw [← howner] at hroom
          have hmax := hlimit reading.call.controller
          omega
        · omega
      · rw [List.countP_nil]
        omega
    · exact hbefore

/-- One undisturbed step keeps the invariant. -/
theorem Sound.next [DecidableEq ι] (h : Sound budgets store w) {label : Label ι κ}
    (hfree : Undisturbed digests store w label)
    (hnext : w.next digests budgets store label = some w') : Sound budgets store w' := by
  cases label with
  | list id call =>
    rw [World.next] at hnext
    split at hnext
    · cases hnext
    · obtain rfl := Option.some.inj hnext
      exact h.listing id call
  | append id =>
    rw [World.next] at hnext
    cases hreading : w.reading id with
    | none =>
      rw [hreading] at hnext
      cases hnext
    | some reading =>
      rw [hreading] at hnext
      dsimp only at hnext
      cases happend : store.appendDecision w.store
          (reading.call.decision digests budgets reading.listed)
          reading.call.signal.failedChecks with
      | error message =>
        rw [happend] at hnext
        obtain rfl := Option.some.inj hnext
        exact h.abandoning id
      | ok appended =>
        rw [happend] at hnext
        obtain rfl := Option.some.inj hnext
        exact h.recording hreading hfree happend
  | outcome decision outcome =>
    rw [World.next] at hnext
    cases happend : store.appendOutcome w.store decision outcome with
    | error message =>
      rw [happend] at hnext
      obtain rfl := Option.some.inj hnext
      exact h
    | ok appended =>
      rw [happend] at hnext
      obtain rfl := Option.some.inj hnext
      exact h.reporting happend

/-- The allowed decisions of an owner are counted in its history. -/
theorem Sound.allowedCount_le (h : Sound budgets store w) {owner : Identifier}
    {p : RecoveryDecision → Prop} [DecidablePred p] (quota : Quota) {limit : ℕ}
    (hlimit : ∀ i, quota.limit (budgets i) ≤ limit)
    (hp : ∀ d, p d → d.ownerId = owner ∧ quota.covers d.charge = true) :
    allowedCount w.issued p ≤ limit := by
  have hcount : allowedCount w.issued p ≤
      (issuedCharges owner w.issued).countP quota.covers := by
    rw [issuedCharges, List.countP_map, List.countP_filter, allowedCount]
    apply List.countP_mono_left
    intro d _ hd
    obtain ⟨hallowed, hpd⟩ := Bool.and_eq_true_iff.mp hd
    obtain ⟨howner, hcovers⟩ := hp d (of_decide_eq_true hpd)
    rw [Function.comp_apply, hcovers, hallowed, decide_eq_true howner]
    rfl
  rw [h.mirrors] at hcount
  exact hcount.trans (h.within owner quota limit hlimit)

theorem Sound.withinBudgets (h : Sound budgets store w) : WithinBudgets budgets w.issued := by
  constructor
  · intro limit hlimit owner fp
    apply h.allowedCount_le (.fingerprint fp) hlimit
    intro d hd
    exact ⟨hd.1, decide_eq_true hd.2⟩
  · intro action limit hne hlimit owner task
    apply h.allowedCount_le (.action task action) hlimit
    intro d hd
    exact ⟨hd.1, decide_eq_true ⟨hd.2.1, hd.2.2, hne⟩⟩
  · intro limit hlimit owner task node
    apply h.allowedCount_le (.node task node) hlimit
    intro d hd
    exact ⟨hd.1, decide_eq_true hd.2⟩

end

/-- In a run in which no call is overtaken by a competing one between its list
and its append, no budget is ever exceeded. -/
theorem undisturbed_within {σ ι κ : Type} [DecidableEq ι] (digests : CanonicalDigests)
    (budgets : κ → RecoveryBudgets) (store : HistoryStore σ) (labels : List (Label ι κ))
    (w : World σ ι κ)
    (h : Run (fun a label b => World.next digests budgets store a label = some b ∧
      Undisturbed digests store a label) (World.start store) labels w) :
    WithinBudgets budgets w.issued := by
  have hsound : Sound budgets store w := by
    apply h.preserves (P := Sound budgets store) _ sound_start
    intro a label b _ ha hstep
    exact ha.next hstep.2 hstep.1
  exact hsound.withinBudgets

/-! ## Two calls that overtake each other -/

theorem World.exec_run {σ ι κ : Type} [DecidableEq ι] {digests : CanonicalDigests}
    {budgets : κ → RecoveryBudgets} {store : HistoryStore σ} {w w' : World σ ι κ}
    {labels : List (Label ι κ)} (h : w.exec digests budgets store labels = some w') :
    Run (fun a label b => World.next digests budgets store a label = some b) w labels w' := by
  induction labels generalizing w with
  | nil =>
    obtain rfl := Option.some.inj h
    exact .nil w
  | cons label rest ih =>
    rw [World.exec] at h
    obtain ⟨next, hnext, hrest⟩ := Option.bind_eq_some_iff.mp h
    exact .cons hnext (ih hrest)

/-- A step that timed out, on its first or second attempt. -/
def timedOut (attempt : ℕ+) : Call Unit :=
  { controller := ()
    signal :=
      { code := .known .timeout
        exceptionType := "TimeoutError"
        failedChecks := []
        evidence := []
        transient := true
        partialMutation := false
        integrityFailure := false
        securitySensitive := false }
    context :=
      { ownerId := ⟨"owner", by decide⟩
        taskId := ⟨"task", by decide⟩
        dagRunId := ⟨"dag", by decide⟩
        nodeId := ⟨"node", by decide⟩
        sourceRevision := none
        attempt
        planDigest := none
        candidateDigest := none
        contractDigest := none
        executionId := none
        leaseId := none
        resourceId := none
        approvalPresent := true
        newAuthorityRequired := false }
    resource := none }

/-- The SHA-256 digests of `timedOut`: the attempts share their fingerprint, and
each has a decision digest of its own. -/
def timedOutDigests : CanonicalDigests where
  fingerprint _ := ⟨"24753e21d1091b43851c363dd45788887d025ab53b33372fd6f60a52c7f638db", by decide⟩
  decision material :=
    if material.context.attempt = 1 then
      ⟨"df99c13c7458ae75dac67fdc79d1e0daf83cc2ad2ee67c9eb2160c9458004543", by decide⟩
    else ⟨"fce4ec8ecefa0c7468d46e1fd2381ebdd5b74378e84f4e6a096c0d38165888fa", by decide⟩

/-- Both calls list the empty history, then both append. -/
def overtaking : List (Label Bool Unit) :=
  [.list false (timedOut 1), .list true (timedOut 2), .append false, .append true]

/-- The same calls one after the other. -/
def inTurn : List (Label Bool Unit) :=
  [.list false (timedOut 1), .append false, .list true (timedOut 2), .append true]

theorem undisturbed_within_inTurn : ∃ w : World MemoryHistory Bool Unit,
    w.issued.map (fun d => d.allowed) = [true, false] ∧
      WithinBudgets (fun _ : Unit => RecoveryBudgets.standard) w.issued := by
  have hrun : Run (fun a label b => World.next timedOutDigests
      (fun _ => RecoveryBudgets.standard) MemoryHistory.store a label = some b ∧
        Undisturbed timedOutDigests MemoryHistory.store a label)
      (World.start MemoryHistory.store) inTurn _ :=
    .cons ⟨rfl, trivial⟩ (.cons ⟨rfl, by
      intro reading hreading item hitem
      obtain rfl := Option.some.inj hreading
      cases hitem⟩ (.cons ⟨rfl, trivial⟩ (.cons ⟨rfl, by
      intro reading hreading item hitem
      obtain rfl := Option.some.inj hreading
      cases hitem⟩ (.nil _))))
  exact ⟨_, by decide +kernel, undisturbed_within timedOutDigests
    (fun _ => RecoveryBudgets.standard) MemoryHistory.store inTurn _ hrun⟩

/-- The standard budget answers a fingerprint once; these two calls answer it twice. -/
theorem overtaking_overruns :
    ¬∀ (labels : List (Label Bool Unit)) (w : World MemoryHistory Bool Unit),
      Run (fun a label b => World.next timedOutDigests (fun _ => RecoveryBudgets.standard)
        MemoryHistory.store a label = some b) (World.start MemoryHistory.store) labels w →
      WithinBudgets (fun _ : Unit => RecoveryBudgets.standard) w.issued := by
  intro hclaim
  have htwo : ((World.start MemoryHistory.store).exec timedOutDigests
      (fun _ => RecoveryBudgets.standard) MemoryHistory.store overtaking).map
        (fun w => allowedCount w.issued fun d => d.ownerId = (timedOut 1).context.ownerId ∧
          d.fingerprint = (timedOut 1).fingerprint timedOutDigests) = some 2 := by
    decide +kernel
  obtain ⟨w, hexec, hcount⟩ := Option.map_eq_some_iff.mp htwo
  have hwithin := (hclaim overtaking w (World.exec_run hexec)).fingerprints 1 (fun _ => le_rfl)
    (timedOut 1).context.ownerId ((timedOut 1).fingerprint timedOutDigests)
  omega

end LilTweak.Recovery
