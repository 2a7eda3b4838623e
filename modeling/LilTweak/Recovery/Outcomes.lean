import LilTweak.Lib.Outcome
import LilTweak.Recovery.Controller
import Mathlib

/-!
# Recorded outcomes

`record_outcome` takes any decision, context and outcome. It records an outcome only for a decision
the history issued under these bindings and this digest, once, with the progress the outcome itself
shows and no resource the decision did not name.
-/

namespace LilTweak.Recovery

open LilTweak.Lib

/-! ## What a decision is bound to -/

/-- The tuple `record_outcome` compares. -/
structure Bindings where
  ownerId : Identifier
  taskId : Identifier
  dagRunId : Identifier
  nodeId : Identifier
  sourceRevision : Option Revision
  planDigest : Option Digest
  candidateDigest : Option Digest
  contractDigest : Option Digest
  executionId : Option Identifier
  leaseId : Option Identifier
  resourceId : Option Identifier
  attempt : ℕ+
deriving DecidableEq

def RecoveryDecision.bindings (d : RecoveryDecision) : Bindings :=
  ⟨d.ownerId, d.taskId, d.dagRunId, d.nodeId, d.sourceRevision, d.planDigest, d.candidateDigest, d.contractDigest,
    d.executionId, d.leaseId, d.resourceId, d.attempt⟩

def RecoveryContext.bindings (c : RecoveryContext) : Bindings :=
  ⟨c.ownerId, c.taskId, c.dagRunId, c.nodeId, c.sourceRevision, c.planDigest, c.candidateDigest, c.contractDigest,
    c.executionId, c.leaseId, c.resourceId, c.attempt⟩

/-- What a decision digest is taken of: every field of a decision but its digest. -/
structure BoundMaterial where
  bindings : Bindings
  targetResourceId : Option Identifier
  fingerprint : Digest
  failureClass : FailureClass
  failureCode : FailureCode
  disposition : RecoveryDisposition
  action : RecoveryAction
  allowed : Bool
  requiresReauthorization : Bool
  requiresFreshLease : Bool
  reasonCodes : List String
deriving DecidableEq

/-- `_material_from_decision`. -/
def RecoveryDecision.material (d : RecoveryDecision) : BoundMaterial :=
  ⟨d.bindings, d.targetResourceId, d.fingerprint, d.failureClass, d.failureCode, d.disposition, d.action, d.allowed,
    d.requiresReauthorization, d.requiresFreshLease, d.reasonCodes⟩

/-- `_decision_material`. -/
def DecisionMaterial.bound (m : DecisionMaterial) : BoundMaterial :=
  ⟨m.context.bindings, m.targetResourceId, m.fingerprint, m.failureClass, m.failureCode, m.disposition, m.action,
    m.allowed, m.requiresReauthorization, m.requiresFreshLease, m.reasonCodes⟩

/-- The material and the digest make up the decision. -/
theorem RecoveryDecision.ext_material {d d' : RecoveryDecision} (h : d.material = d'.material)
    (hdigest : d.decisionDigest = d'.decisionDigest) : d = d' := by
  cases d
  cases d'
  simp only [RecoveryDecision.material, RecoveryDecision.bindings, BoundMaterial.mk.injEq, Bindings.mk.injEq] at h
  simp only at hdigest
  simp only [RecoveryDecision.mk.injEq]
  tauto

/-! ## Stores of outcomes -/

/-- `contains_decision` and what `append_outcome` checks, of either store. -/
structure OutcomeStore (σ : Type) extends HistoryStore σ where
  containsDecision : σ → RecoveryDecision → Bool
  contains_listed : ∀ {s decision}, containsDecision s decision = true →
    ∃ item ∈ list s decision.ownerId, recordsDecision decision item = true ∧
      item.targetResourceId = decision.targetResourceId
  outcome_first : ∀ {s decision outcome r}, appendOutcome s decision outcome = .ok r →
    ∀ item ∈ list s decision.ownerId, recordsOutcome decision item = false

/-- The in-memory history. -/
def MemoryHistory.outcomes : OutcomeStore MemoryHistory where
  toHistoryStore := MemoryHistory.store
  containsDecision := MemoryHistory.containsDecision
  contains_listed := by
    intro s decision h
    obtain ⟨item, hitem, hrecords⟩ := List.any_eq_true.mp h
    rw [Bool.and_eq_true, beq_iff_eq] at hrecords
    exact ⟨item, hitem, hrecords⟩
  outcome_first := by
    intro s decision outcome r h item hitem
    obtain ⟨_, h⟩ := unless_ok h
    obtain ⟨hfirst, _⟩ := unless_ok h
    by_contra hrecords
    exact hfirst (List.any_eq_true.mpr ⟨item, hitem, Bool.not_eq_false _ ▸ hrecords⟩)

/-- The SQLite history. -/
def HistoryTable.outcomes : OutcomeStore HistoryTable where
  toHistoryStore := HistoryTable.store
  containsDecision := HistoryTable.containsDecision
  contains_listed := by
    intro t decision h
    obtain ⟨item, hfind, htarget⟩ := (Option.any_eq_true _ _).mp h
    refine ⟨item, ?_, List.find?_some hfind, beq_iff_eq.mp htarget⟩
    show item ∈ t.list decision.ownerId
    rw [HistoryTable.list_eq]
    exact List.mem_of_find?_eq_some hfind
  outcome_first := by
    intro t decision outcome r h item hitem
    obtain ⟨_, h⟩ := unless_ok h
    obtain ⟨hfirst, _⟩ := unless_ok h
    by_contra hrecords
    have hrow : item ∈ t.list decision.ownerId := hitem
    rw [HistoryTable.list_eq] at hrow
    exact hfirst (List.any_eq_true.mpr ⟨item, hrow, Bool.not_eq_false _ ▸ hrecords⟩)

/-! ## `record_outcome` -/

section
variable {σ κ : Type} (fingerprint : FingerprintMaterial → Digest) (digest : BoundMaterial → Digest)
  (budgets : κ → RecoveryBudgets) (store : OutcomeStore σ)

/-- The digests a controller takes: of a decision, those of its material. -/
def controllerDigests : CanonicalDigests := ⟨fingerprint, fun m => digest m.bound⟩

/-- An issued entry of this very decision. -/
def issuesDecision (decision : RecoveryDecision) (item : RecoveryHistoryEntry) : Bool :=
  recordsDecision decision item && item.targetResourceId = decision.targetResourceId

/-- `_require_issued`. -/
def requireIssued (s : σ) (decision : RecoveryDecision) : Except String RecoveryHistoryEntry :=
  if store.containsDecision s decision = false then .error "recovery_decision_not_issued"
  else if digest decision.material ≠ decision.decisionDigest then .error "recovery_decision_digest_mismatch"
  else
    match (store.list s decision.ownerId).find? (issuesDecision decision) with
    | some item => .ok item
    | none => .error "recovery_decision_not_issued"

/-- What `record_outcome` asks of the resource an outcome names. -/
def checkResource (decision : RecoveryDecision) (outcome : RecoveryOutcome) : Except String Unit :=
  if decision.targetResourceId ≠ none then
    if outcome.resultingResourceId ≠ none ∧ outcome.resultingResourceId ≠ decision.targetResourceId then
      .error "recovery_outcome_resource_mismatch"
    else if outcome.status = .succeeded ∧ outcome.resultingResourceId ≠ decision.targetResourceId then
      .error "successful_reroute_target_evidence_required"
    else .ok ()
  else if outcome.resultingResourceId ≠ none ∧ outcome.resultingResourceId ≠ decision.resourceId then
    .error "recovery_outcome_resource_not_authorized"
  else .ok ()

/-- The failed checks shrank, and some are left. -/
def ChecksReduced (initial remaining : List String) : Prop :=
  remaining ≠ [] ∧ (∀ check ∈ remaining, check ∈ initial) ∧ ∃ check ∈ initial, check ∉ remaining

/-- A digest is reported and is another one than the decision's. -/
def Changed (before : Option Digest) (resulting : Option Digest) : Prop := resulting ≠ none ∧ resulting ≠ before

/-- A reroute reached its target. -/
def Rerouted (decision : RecoveryDecision) (resulting : Option Identifier) : Prop :=
  decision.action = .rerouteResource ∧ decision.targetResourceId ≠ none ∧ resulting = decision.targetResourceId

instance (initial remaining : List String) : Decidable (ChecksReduced initial remaining) :=
  inferInstanceAs (Decidable (_ ∧ _ ∧ _))

instance (before resulting : Option Digest) : Decidable (Changed before resulting) :=
  inferInstanceAs (Decidable (_ ∧ _))

instance (decision : RecoveryDecision) (resulting : Option Identifier) : Decidable (Rerouted decision resulting) :=
  inferInstanceAs (Decidable (_ ∧ _ ∧ _))

/-- `objective_progress`. -/
def ObjectiveProgress (decision : RecoveryDecision) (initial : List String) (outcome : RecoveryOutcome) : Prop :=
  ChecksReduced initial outcome.remainingFailedChecks ∨ Changed decision.planDigest outcome.resultingPlanDigest ∨
    Changed decision.candidateDigest outcome.resultingCandidateDigest ∨ Rerouted decision outcome.resultingResourceId

instance (decision : RecoveryDecision) (initial : List String) (outcome : RecoveryOutcome) :
    Decidable (ObjectiveProgress decision initial outcome) := inferInstanceAs (Decidable (_ ∨ _ ∨ _ ∨ _))

/-- `_normalize_progress`. -/
def normalizeProgress (decision : RecoveryDecision) (issued : RecoveryHistoryEntry) (outcome : RecoveryOutcome) :
    Except String RecoveryOutcome :=
  if outcome.status = .succeeded then .ok outcome
  else if outcome.progress = true ∧ ¬ObjectiveProgress decision issued.remainingFailedChecks outcome then
    .error "unsupported_recovery_progress"
  else if ObjectiveProgress decision issued.remainingFailedChecks outcome ∧ outcome.progress = false then
    .ok { outcome with progress := true }
  else .ok outcome

/-- `record_outcome`. -/
def FailureRecoveryController.recordOutcome (s : σ) (decision : RecoveryDecision) (context : RecoveryContext) (outcome : RecoveryOutcome) :
    Except String (RecoveryHistoryEntry × σ) :=
  if decision.bindings ≠ context.bindings then .error "recovery_decision_binding_mismatch"
  else do
    let issued ← requireIssued digest store s decision
    checkResource decision outcome
    let normalized ← normalizeProgress decision issued outcome
    store.appendOutcome s decision normalized

/-- `decide` of a controller that is alone with its history. -/
def FailureRecoveryController.decide (s : σ) (call : Call κ) : Except String (RecoveryDecision × σ) :=
  let decision := call.decision (controllerDigests fingerprint digest) budgets
    (store.list s call.context.ownerId)
  (store.appendDecision s decision call.signal.failedChecks).map fun appended => (decision, appended.2)

end

/-! ## What one call does -/

section
variable {σ κ : Type} {fingerprint : FingerprintMaterial → Digest} {digest : BoundMaterial → Digest}
  {budgets : κ → RecoveryBudgets} {store : OutcomeStore σ} {s s' : σ} {decision : RecoveryDecision}
  {context : RecoveryContext} {outcome : RecoveryOutcome} {item : RecoveryHistoryEntry}

theorem requireIssued_ok (h : requireIssued digest store s decision = .ok item) :
    digest decision.material = decision.decisionDigest ∧ item ∈ store.list s decision.ownerId ∧
      recordsDecision decision item = true ∧ item.targetResourceId = decision.targetResourceId := by
  obtain ⟨_, h⟩ := unless_ok h
  obtain ⟨hdigest, h⟩ := unless_ok h
  cases hfind : (store.list s decision.ownerId).find? (issuesDecision decision) with
  | none =>
    rw [hfind] at h
    cases h
  | some found =>
    rw [hfind] at h
    obtain rfl := Except.ok.inj h
    have hissues := List.find?_some hfind
    rw [issuesDecision, Bool.and_eq_true, decide_eq_true_eq] at hissues
    exact ⟨not_not.mp hdigest, List.mem_of_find?_eq_some hfind, hissues⟩

/-- A success of a reroute names its target, and no other resource is named than the decision's. -/
structure ResourceNamed (decision : RecoveryDecision) (outcome : RecoveryOutcome) : Prop where
  reached : decision.targetResourceId ≠ none → outcome.status = .succeeded →
    outcome.resultingResourceId = decision.targetResourceId
  authorized : ∀ resource, outcome.resultingResourceId = some resource →
    if decision.targetResourceId = none then decision.resourceId = some resource
    else decision.targetResourceId = some resource

theorem checkResource_ok (h : checkResource decision outcome = .ok ()) : ResourceNamed decision outcome := by
  unfold checkResource at h
  split at h
  · next htarget =>
    obtain ⟨hother, h⟩ := unless_ok h
    obtain ⟨hmissed, _⟩ := unless_ok h
    constructor
    · intro _ hstatus
      by_contra hne
      exact hmissed ⟨hstatus, hne⟩
    · intro resource hresource
      rw [if_neg htarget]
      by_contra hne
      rw [hresource] at hother
      exact hother ⟨nofun, fun h => hne h.symm⟩
  · next htarget =>
    obtain ⟨hother, _⟩ := unless_ok h
    constructor
    · exact fun htarget' => absurd htarget' htarget
    · intro resource hresource
      rw [if_pos (not_not.mp htarget)]
      by_contra hne
      rw [hresource] at hother
      exact hother ⟨nofun, fun h => hne h.symm⟩

/-- Normalizing touches the progress alone, and leaves what the outcome shows. -/
theorem normalizeProgress_ok {issued : RecoveryHistoryEntry} {normalized : RecoveryOutcome}
    (h : normalizeProgress decision issued outcome = .ok normalized) :
    normalized = { outcome with progress := normalized.progress } ∧ (outcome.status ≠ .succeeded →
      (normalized.progress = true ↔ ObjectiveProgress decision issued.remainingFailedChecks outcome)) := by
  unfold normalizeProgress at h
  split at h
  · next hstatus =>
    obtain rfl := Except.ok.inj h
    exact ⟨rfl, fun hne => absurd hstatus hne⟩
  · obtain ⟨hsupported, h⟩ := unless_ok h
    split at h
    · next hobjective =>
      obtain rfl := Except.ok.inj h
      exact ⟨rfl, fun _ => iff_of_true rfl hobjective.1⟩
    · next hreported =>
      obtain rfl := Except.ok.inj h
      refine ⟨rfl, fun _ => ⟨?_, ?_⟩⟩
      · intro hprogress
        by_contra hnone
        exact hsupported ⟨hprogress, hnone⟩
      · intro hobjective
        by_contra hprogress
        exact hreported ⟨hobjective, eq_false_of_ne_true hprogress⟩

/-- An outcome that is recorded: what was checked of it, and what is appended. -/
theorem recordOutcome_ok
    (h : FailureRecoveryController.recordOutcome digest store s decision context outcome = .ok (item, s')) :
    decision.bindings = context.bindings ∧ ∃ issued normalized,
      requireIssued digest store s decision = .ok issued ∧ ResourceNamed decision outcome ∧
      normalizeProgress decision issued outcome = .ok normalized ∧
      store.appendOutcome s decision normalized = .ok (item, s') := by
  obtain ⟨hbindings, h⟩ := unless_ok h
  refine ⟨not_not.mp hbindings, ?_⟩
  cases hissued : requireIssued digest store s decision with
  | error e =>
    rw [hissued] at h
    cases h
  | ok issued =>
    rw [hissued, ok_bind] at h
    cases hresource : checkResource decision outcome with
    | error e =>
      rw [hresource] at h
      cases h
    | ok u =>
      rw [hresource, ok_bind] at h
      cases hnormal : normalizeProgress decision issued outcome with
      | error e =>
        rw [hnormal] at h
        cases h
      | ok normalized =>
        rw [hnormal, ok_bind] at h
        exact ⟨issued, normalized, rfl, checkResource_ok hresource, hnormal, h⟩

end

/-! ## Sessions -/

/-- A decision the history issued, with the checks that had failed. -/
structure Issue where
  decision : RecoveryDecision
  failedChecks : List String

/-- An outcome the history recorded, with what it was reported for. -/
structure Report where
  decision : RecoveryDecision
  context : RecoveryContext
  item : RecoveryHistoryEntry

/-- The history, and what its calls returned. -/
structure Session (σ : Type) where
  store : σ
  issued : List Issue
  reports : List Report

/-- One call of a controller. -/
inductive Request (κ : Type) where
  | decide (call : Call κ)
  | recordOutcome (decision : RecoveryDecision) (context : RecoveryContext) (outcome : RecoveryOutcome)

section
variable {σ κ : Type} (fingerprint : FingerprintMaterial → Digest) (digest : BoundMaterial → Digest)
  (budgets : κ → RecoveryBudgets) (store : OutcomeStore σ)

def Session.start : Session σ := ⟨store.empty, [], []⟩

/-- A call that raises leaves the history as it is. -/
def Session.serve (w : Session σ) : Request κ → Session σ
  | .decide call =>
    match FailureRecoveryController.decide fingerprint digest budgets store w.store call with
    | .error _ => w
    | .ok (decision, s) => ⟨s, w.issued ++ [⟨decision, call.signal.failedChecks⟩], w.reports⟩
  | .recordOutcome decision context outcome =>
    match FailureRecoveryController.recordOutcome digest store w.store decision context outcome with
    | .error _ => w
    | .ok (item, s) => ⟨s, w.issued, w.reports ++ [⟨decision, context, item⟩]⟩

/-- The session after some calls. -/
def Session.after (requests : List (Request κ)) : Session σ :=
  requests.foldl (Session.serve fingerprint digest budgets store) (Session.start store)

end

/-- The report is one of the decision that was issued: its bindings are those of the context and of the
issued decision, and the two decisions are one unless their digest collides. -/
structure Report.Founded (digest : BoundMaterial → Digest) (report : Report) (issue : Issue) : Prop where
  bound : report.decision.bindings = report.context.bindings
  entry : ∃ sequence outcome, report.item = outcomeEntry report.decision sequence outcome
  owner : issue.decision.ownerId = report.decision.ownerId
  fingerprint : issue.decision.fingerprint = report.decision.fingerprint
  task : issue.decision.taskId = report.decision.taskId
  node : issue.decision.nodeId = report.decision.nodeId
  attempt : issue.decision.attempt = report.decision.attempt
  target : issue.decision.targetResourceId = report.decision.targetResourceId
  digest_eq : issue.decision.decisionDigest = report.decision.decisionDigest
  hashed : digest report.decision.material = report.decision.decisionDigest
  issuedHashed : digest issue.decision.material = issue.decision.decisionDigest
  genuine : issue.decision = report.decision ∨ issue.decision.material ≠ report.decision.material

/-- What the next decision reads of an outcome is what the outcome shows. -/
structure Report.Truthful (report : Report) (issue : Issue) : Prop where
  progress : report.item.outcomeStatus ≠ some .succeeded →
    (report.item.progress = some true ↔
      ChecksReduced issue.failedChecks report.item.remainingFailedChecks ∨
      Changed report.decision.planDigest report.item.resultingPlanDigest ∨
      Changed report.decision.candidateDigest report.item.resultingCandidateDigest ∨
      (Rerouted report.decision report.item.resultingResourceId ∧ issue.decision.allowed = true))
  reached : report.decision.targetResourceId ≠ none → report.item.outcomeStatus = some .succeeded →
    report.item.resultingResourceId = report.decision.targetResourceId
  authorized : ∀ resource, report.item.resultingResourceId = some resource →
    if report.decision.targetResourceId = none then report.decision.resourceId = some resource
    else report.decision.targetResourceId = some resource

/-- The outcomes of a history are founded, told once and truthful. -/
structure Session.Sound {σ : Type} (digest : BoundMaterial → Digest) (store : OutcomeStore σ) (w : Session σ) : Prop where
  reported : ∀ owner, (store.list w.store owner).filter (fun item => item.outcomeStatus ≠ none) =
    (w.reports.filter fun report => report.decision.ownerId = owner).map Report.item
  founded : ∀ report ∈ w.reports, ∃ issue ∈ w.issued, report.Founded digest issue ∧ report.Truthful issue
  once : w.reports.Pairwise fun a b =>
    a.decision.ownerId = b.decision.ownerId → a.decision.decisionDigest ≠ b.decision.decisionDigest

section
variable {σ κ : Type} {fingerprint : FingerprintMaterial → Digest} {digest : BoundMaterial → Digest}
  {budgets : κ → RecoveryBudgets} {store : OutcomeStore σ} {w : Session σ}

/-- A sound session, and where the decisions in its history come from. -/
structure Session.Kept (fingerprint : FingerprintMaterial → Digest) (digest : BoundMaterial → Digest)
    (budgets : κ → RecoveryBudgets) (store : OutcomeStore σ) (w : Session σ) : Prop where
  sound : w.Sound digest store
  listed : ∀ owner, ∀ item ∈ store.list w.store owner, item.outcomeStatus = none →
    ∃ issue ∈ w.issued, issue.decision.ownerId = owner ∧
      ∃ sequence, item = decisionEntry issue.decision sequence issue.failedChecks
  made : ∀ issue ∈ w.issued, ∃ (call : Call κ) (history : List RecoveryHistoryEntry),
    issue.decision = call.decision (controllerDigests fingerprint digest) budgets history

theorem Session.kept_start : (Session.start store).Kept fingerprint digest budgets store := by
  refine ⟨⟨?_, ?_, .nil⟩, ?_, ?_⟩
  · intro owner
    rw [Session.start, store.list_empty]
    rfl
  · intro report hreport
    cases hreport
  · intro owner item hitem
    rw [Session.start, store.list_empty] at hitem
    cases hitem
  · intro issue hissue
    cases hissue

/-- The digest of a decision is the one its material has. -/
theorem decision_hashed (call : Call κ) (history : List RecoveryHistoryEntry) :
    digest (call.decision (controllerDigests fingerprint digest) budgets history).material =
      (call.decision (controllerDigests fingerprint digest) budgets history).decisionDigest := rfl

/-- A decision with a target is an allowed one. -/
theorem decision_allowed (call : Call κ) (history : List RecoveryHistoryEntry)
    (h : (call.decision (controllerDigests fingerprint digest) budgets history).targetResourceId ≠ none) :
    (call.decision (controllerDigests fingerprint digest) budgets history).allowed = true := by
  by_contra hrefused
  apply h
  show targetResource _ _ = none
  unfold targetResource
  rw [if_neg fun hallowed => hrefused hallowed.1]

theorem Session.Kept.deciding (h : w.Kept fingerprint digest budgets store) {call : Call κ} {s : σ}
    {decision : RecoveryDecision}
    (hdecide : FailureRecoveryController.decide fingerprint digest budgets store w.store call = .ok (decision, s)) :
    (⟨s, w.issued ++ [⟨decision, call.signal.failedChecks⟩], w.reports⟩ : Session σ).Kept fingerprint digest
      budgets store := by
  unfold FailureRecoveryController.decide at hdecide
  simp only at hdecide
  cases happend : store.appendDecision w.store
      (call.decision (controllerDigests fingerprint digest) budgets (store.list w.store call.context.ownerId))
      call.signal.failedChecks with
  | error e =>
    rw [happend] at hdecide
    cases hdecide
  | ok appended =>
    rw [happend] at hdecide
    obtain ⟨item, s'⟩ := appended
    obtain ⟨rfl, rfl⟩ := Prod.mk.inj (Except.ok.inj hdecide)
    obtain ⟨⟨sequence, rfl⟩, hlist⟩ := store.list_appendDecision happend
    refine ⟨⟨?_, ?_, h.sound.once⟩, ?_, ?_⟩
    · intro owner
      rw [← h.sound.reported owner]
      simp only [hlist]
      split
      · rw [List.filter_append, List.filter_cons_of_neg (by simp [decisionEntry]), List.filter_nil, List.append_nil]
      · rfl
    · intro report hreport
      obtain ⟨issue, hissue, hfounded⟩ := h.sound.founded report hreport
      exact ⟨issue, List.mem_append_left _ hissue, hfounded⟩
    · intro owner item hitem hnone
      simp only [hlist] at hitem
      split at hitem
      · next howner =>
        rcases List.mem_append.mp hitem with hold | hnew
        · obtain ⟨issue, hissue, hentry⟩ := h.listed owner item hold hnone
          exact ⟨issue, List.mem_append_left _ hissue, hentry⟩
        · rw [List.mem_singleton.mp hnew]
          exact ⟨_, List.mem_append_right _ (List.mem_singleton_self _), howner.symm, sequence, rfl⟩
      · obtain ⟨issue, hissue, hentry⟩ := h.listed owner item hitem hnone
        exact ⟨issue, List.mem_append_left _ hissue, hentry⟩
    · intro issue hissue
      rcases List.mem_append.mp hissue with hold | hnew
      · exact h.made issue hold
      · rw [List.mem_singleton.mp hnew]
        exact ⟨call, _, rfl⟩

theorem Session.Kept.recording (h : w.Kept fingerprint digest budgets store) {decision : RecoveryDecision}
    {context : RecoveryContext} {outcome : RecoveryOutcome} {item : RecoveryHistoryEntry} {s : σ}
    (hrecord : FailureRecoveryController.recordOutcome digest store w.store decision context outcome = .ok (item, s)) :
    (⟨s, w.issued, w.reports ++ [⟨decision, context, item⟩]⟩ : Session σ).Kept fingerprint digest budgets store := by
  obtain ⟨hbindings, entry, normalized, hissued, hresource, hnormal, happend⟩ := recordOutcome_ok hrecord
  obtain ⟨hhashed, hentry, hrecords, htarget⟩ := requireIssued_ok hissued
  have hmatch := of_decide_eq_true hrecords
  obtain ⟨issue, hissue, howner, number, rfl⟩ := h.listed _ entry hentry hmatch.2.2.2.2.2
  obtain ⟨⟨sequence, rfl⟩, hlist⟩ := store.list_appendOutcome happend
  obtain ⟨hsame, hprogress⟩ := normalizeProgress_ok hnormal
  obtain ⟨call, history, hmade⟩ := h.made issue hissue
  have hfounded : (⟨decision, context, outcomeEntry decision sequence normalized⟩ : Report).Founded digest issue := by
    have hissueHashed : digest issue.decision.material = issue.decision.decisionDigest := by rw [hmade]; rfl
    refine ⟨hbindings, ⟨sequence, normalized, rfl⟩, howner, hmatch.2.1, hmatch.2.2.1, hmatch.2.2.2.1,
      hmatch.2.2.2.2.1, htarget, hmatch.1, hhashed, hissueHashed, ?_⟩
    by_cases hmaterial : issue.decision.material = decision.material
    · exact Or.inl (RecoveryDecision.ext_material hmaterial hmatch.1)
    · exact Or.inr hmaterial
  have htruthful : (⟨decision, context, outcomeEntry decision sequence normalized⟩ : Report).Truthful issue := by
    rw [hsame]
    refine ⟨?_, ?_, hresource.authorized⟩
    · intro hstatus
      have hiff := hprogress fun hsucceeded => hstatus (congrArg some hsucceeded)
      have hallowed : Rerouted decision outcome.resultingResourceId → issue.decision.allowed = true := by
        intro hrerouted
        rw [hmade]
        apply decision_allowed
        rw [← hmade]
        exact fun hnone => hrerouted.2.1 (htarget.symm.trans hnone)
      show some normalized.progress = some true ↔ ChecksReduced issue.failedChecks outcome.remainingFailedChecks ∨
        Changed decision.planDigest outcome.resultingPlanDigest ∨
        Changed decision.candidateDigest outcome.resultingCandidateDigest ∨
        (Rerouted decision outcome.resultingResourceId ∧ issue.decision.allowed = true)
      rw [Option.some_inj, hiff, and_iff_left_of_imp hallowed]
      rfl
    · intro hrerouted hstatus
      exact hresource.reached hrerouted (Option.some.inj hstatus)
  refine ⟨⟨?_, ?_, ?_⟩, ?_, h.made⟩
  · intro owner
    simp only [hlist, List.filter_append, List.map_append]
    rw [← h.sound.reported owner]
    by_cases howner' : owner = decision.ownerId
    · rw [if_pos howner', List.filter_append, List.filter_cons_of_pos (by simp [outcomeEntry]), List.filter_nil,
        List.filter_cons_of_pos (by simp [howner']), List.filter_nil]
      rfl
    · rw [if_neg howner', List.filter_cons_of_neg (by simpa using Ne.symm howner'), List.filter_nil, List.map_nil,
        List.append_nil]
  · intro report hreport
    rcases List.mem_append.mp hreport with hold | hnew
    · exact h.sound.founded report hold
    · rw [List.mem_singleton.mp hnew]
      exact ⟨issue, hissue, hfounded, htruthful⟩
  · rw [List.pairwise_append]
    refine ⟨h.sound.once, List.pairwise_singleton _ _, ?_⟩
    intro report hreport new hnew howner' hdigest
    obtain rfl := List.mem_singleton.mp hnew
    obtain ⟨_, _, hold, _⟩ := h.sound.founded report hreport
    obtain ⟨number', outcome', hitem⟩ := hold.entry
    have hlisted : report.item ∈ (store.list w.store decision.ownerId).filter fun item => item.outcomeStatus ≠ none := by
      rw [h.sound.reported]
      exact List.mem_map_of_mem (List.mem_filter.mpr ⟨hreport, by simpa using howner'⟩)
    have hfirst := store.outcome_first happend report.item (List.mem_filter.mp hlisted).1
    rw [hitem] at hfirst
    exact of_decide_eq_false hfirst ⟨hdigest, nofun⟩
  · intro owner item hitem hnone
    simp only [hlist] at hitem
    split at hitem
    · rcases List.mem_append.mp hitem with hold | hnew
      · exact h.listed owner item hold hnone
      · rw [List.mem_singleton.mp hnew] at hnone
        cases hnone
    · exact h.listed owner item hitem hnone

theorem Session.Kept.serve (h : w.Kept fingerprint digest budgets store) (request : Request κ) :
    (w.serve fingerprint digest budgets store request).Kept fingerprint digest budgets store := by
  cases request with
  | decide call =>
    simp only [Session.serve]
    cases hdecide : FailureRecoveryController.decide fingerprint digest budgets store w.store call with
    | error e => exact h
    | ok decided => exact h.deciding hdecide
  | recordOutcome decision context outcome =>
    simp only [Session.serve]
    cases hrecord : FailureRecoveryController.recordOutcome digest store w.store decision context outcome with
    | error e => exact h
    | ok recorded => exact h.recording hrecord

theorem Session.Kept.foldl (requests : List (Request κ)) (h : w.Kept fingerprint digest budgets store) :
    (requests.foldl (Session.serve fingerprint digest budgets store) w).Kept fingerprint digest budgets store := by
  induction requests generalizing w with
  | nil => exact h
  | cons request rest ih => exact ih (h.serve request)

end

/-- Whatever decisions, contexts and outcomes a controller is given, the outcomes in its history are founded on
decisions it issued, one for each, and truthful. -/
theorem recorded_outcomes_sound {σ κ : Type} (fingerprint : FingerprintMaterial → Digest)
    (digest : BoundMaterial → Digest) (budgets : κ → RecoveryBudgets) (store : OutcomeStore σ)
    (requests : List (Request κ)) :
    (Session.after fingerprint digest budgets store requests).Sound digest store :=
  (Session.kept_start.foldl requests).sound

end LilTweak.Recovery
