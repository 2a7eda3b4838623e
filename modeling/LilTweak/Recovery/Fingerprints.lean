import LilTweak.Lib.Outcome
import LilTweak.Recovery.Controller
import Mathlib

/-!
# One fingerprint for one cause

A signal keeps its failed checks and its evidence as sorted tuples of sets. Checks are sorted by
their text, evidence only by kind and identifier, so references that share both stand in the order
in which the set is iterated, and that order differs between processes.
-/

namespace LilTweak.Recovery

open LilTweak.Lib

/-! ## Building a signal -/

/-- What a caller passes for a `FailureSignal`. -/
structure SignalFields (δ : Type) where
  code : String
  exceptionType : String
  message : String
  failedChecks : List String
  evidence : List EvidenceRef
  transient : Bool
  partialMutation : Bool
  integrityFailure : Bool
  securitySensitive : Bool
  details : δ

/-- The orders in which one process iterates over the sets it builds. -/
structure SetOrder where
  checks : List String → List String
  evidence : List EvidenceRef → List EvidenceRef
  checks_perm : ∀ values, (checks values).Perm values.dedup
  evidence_perm : ∀ values, (evidence values).Perm values.dedup

/-- The members of `FailureCode`. -/
def failureCodes : List FailureCode :=
  [.invalidRequest, .missingContract, .conflictingContract, .staleContract, .missingApproval, .staleApproval,
    .wrongDigestBinding, .planIncomplete, .planInvalid, .planContractViolation, .planScopeExcessive,
    .planCriticFailure, .staleSource, .sourceChanged, .repositoryUnavailable, .mapperIncomplete,
    .dependencyUncertain, .repositoryIntegrityFailure, .commandFailed, .timeout, .processCrash,
    .resourceExhaustion, .sandboxFailure, .runnerUnavailable, .runnerUnqualified, .leaseRejected, .leaseExpired,
    .leaseReplayed, .cancellation, .cleanupFailure, .testFailure, .lintFailure, .formatFailure, .typecheckFailure,
    .buildFailure, .securityCheckFailure, .deterministicVerificationFailure, .independentVerificationFailure,
    .falseCompletionClaim, .providerUnhealthy, .providerTimeout, .providerCapacityExhausted, .providerCostGate,
    .providerAuthFailure, .controlPlaneFailure, .rollbackFailed, .repairRepeated, .repairBudgetExhausted,
    .recoveryEvidenceInvalid, .recoveryStrategyInvalid, .recoveryStrategyNoProgress, .unknownFailure]

theorem mem_failureCodes (code : FailureCode) : code ∈ failureCodes := by cases code <;> decide

/-- `FailureCode(raw)`, or the text where no member has it. -/
def signalCode (raw : String) : SignalCode :=
  match failureCodes.find? fun code => code.value = raw with
  | some code => .known code
  | none => .raw raw

/-- A code keeps its text. -/
theorem signalCode_value (raw : String) : (signalCode raw).value = raw := by
  unfold signalCode
  split
  · next code hfind =>
    have hvalue := List.find?_some hfind
    exact of_decide_eq_true hvalue
  · rfl

/-- The key `(kind, evidence_id)` of a reference is at most that of another. -/
def evidenceBefore (a b : EvidenceRef) : Bool :=
  a.kind.text < b.kind.text || (a.kind.text = b.kind.text && a.evidenceId.text ≤ b.evidenceId.text)

/-- `_normalize_strings`. -/
def normalizeStrings (order : List String → List String) (values : List String) (code : String) :
    Except String (List String) :=
  if values.any (fun value => value = "" || 256 < value.length) then .error code
  else .ok ((order values).mergeSort fun a b => a ≤ b)

section
variable {δ : Type}

/-- The signal a process keeps of checked fields. -/
def SignalFields.signal (order : SetOrder) (fields : SignalFields δ) (failedChecks : List String) : FailureSignal :=
  { code := signalCode fields.code
    exceptionType := fields.exceptionType
    failedChecks
    evidence := (order.evidence fields.evidence).mergeSort evidenceBefore
    transient := fields.transient
    partialMutation := fields.partialMutation
    integrityFailure := fields.integrityFailure
    securitySensitive := fields.securitySensitive }

/-- `FailureSignal.__post_init__`. -/
def FailureSignal.make (order : SetOrder) (fields : SignalFields δ) : Except String FailureSignal :=
  if fields.code = "" ∨ 128 < fields.code.length then .error "failure_code_invalid"
  else if 256 < fields.exceptionType.length then .error "exception_type_invalid"
  else if 4000 < fields.message.length then .error "failure_message_invalid"
  else (normalizeStrings order.checks fields.failedChecks "failed_check_invalid").map (fields.signal order)

/-- `failure_fingerprint`. -/
def failureFingerprint (digests : CanonicalDigests) (signal : FailureSignal) (context : RecoveryContext) : Digest :=
  digests.fingerprint (fingerprintMaterial signal context)

/-- The same cause told again: other prose, and the same checks and references in any order and number. -/
structure Restates (fields fields' : SignalFields δ) : Prop where
  code : fields'.code = fields.code
  exceptionType : fields'.exceptionType = fields.exceptionType
  checks : ∀ check, check ∈ fields'.failedChecks ↔ check ∈ fields.failedChecks
  evidence : ∀ item, item ∈ fields'.evidence ↔ item ∈ fields.evidence
  transient : fields'.transient = fields.transient
  partialMutation : fields'.partialMutation = fields.partialMutation
  integrityFailure : fields'.integrityFailure = fields.integrityFailure
  securitySensitive : fields'.securitySensitive = fields.securitySensitive

/-- In every two processes and for every attempt, a cause told twice has one fingerprint. -/
def FingerprintStable (digests : CanonicalDigests) (fields : SignalFields δ) (context : RecoveryContext) : Prop :=
  ∀ (order order' : SetOrder) (fields' : SignalFields δ) (attempt : ℕ+) (signal signal' : FailureSignal),
    Restates fields fields' → FailureSignal.make order fields = .ok signal →
    FailureSignal.make order' fields' = .ok signal' →
    failureFingerprint digests signal' { context with attempt } = failureFingerprint digests signal context

/-- No two references share their kind and identifier. -/
def Distinguished (evidence : List EvidenceRef) : Prop :=
  ∀ a ∈ evidence, ∀ b ∈ evidence, a.kind = b.kind → a.evidenceId = b.evidenceId → a = b

/-! ## Sorting -/

theorem make_ok {order : SetOrder} {fields : SignalFields δ} {signal : FailureSignal}
    (h : FailureSignal.make order fields = .ok signal) :
    signal = fields.signal order ((order.checks fields.failedChecks).mergeSort fun a b => a ≤ b) := by
  unfold FailureSignal.make at h
  obtain ⟨_, h⟩ := unless_ok h
  obtain ⟨_, h⟩ := unless_ok h
  obtain ⟨_, h⟩ := unless_ok h
  unfold normalizeStrings at h
  split at h
  · cases h
  · exact (Except.ok.inj h).symm

/-- Only what the process iterates over decides how a signal comes out. -/
theorem make_of_ok {order : SetOrder} (order' : SetOrder) {fields : SignalFields δ} {signal : FailureSignal}
    (h : FailureSignal.make order fields = .ok signal) : ∃ signal', FailureSignal.make order' fields = .ok signal' := by
  unfold FailureSignal.make at h ⊢
  obtain ⟨hcode, h⟩ := unless_ok h
  obtain ⟨htype, h⟩ := unless_ok h
  obtain ⟨hmessage, h⟩ := unless_ok h
  rw [if_neg hcode, if_neg htype, if_neg hmessage]
  unfold normalizeStrings at h ⊢
  split at h
  · cases h
  · next hchecks =>
    rw [if_neg hchecks]
    exact ⟨_, rfl⟩

theorem evidenceBefore_trans (a b c : EvidenceRef) (hab : evidenceBefore a b = true)
    (hbc : evidenceBefore b c = true) : evidenceBefore a c = true := by
  unfold evidenceBefore at *
  simp only [Bool.or_eq_true, Bool.and_eq_true, decide_eq_true_eq] at *
  rcases hab with hab | ⟨hab, hab'⟩ <;> rcases hbc with hbc | ⟨hbc, hbc'⟩
  · exact Or.inl (hab.trans hbc)
  · exact Or.inl (hbc ▸ hab)
  · exact Or.inl (hab ▸ hbc)
  · exact Or.inr ⟨hab.trans hbc, hab'.trans hbc'⟩

theorem evidenceBefore_total (a b : EvidenceRef) : (evidenceBefore a b || evidenceBefore b a) = true := by
  unfold evidenceBefore
  simp only [Bool.or_eq_true, Bool.and_eq_true, decide_eq_true_eq]
  rcases lt_trichotomy a.kind.text b.kind.text with hlt | heq | hgt
  · exact Or.inl (Or.inl hlt)
  · rcases le_total a.evidenceId.text b.evidenceId.text with hle | hle
    · exact Or.inl (Or.inr ⟨heq, hle⟩)
    · exact Or.inr (Or.inr ⟨heq.symm, hle⟩)
  · exact Or.inr (Or.inl hgt)

theorem Identifier.ext_text {a b : Identifier} (h : a.text = b.text) : a = b := by
  cases a
  cases b
  cases h
  rfl

/-- References that stand before each other share their kind and identifier. -/
theorem evidenceBefore_both {a b : EvidenceRef} (hab : evidenceBefore a b = true) (hba : evidenceBefore b a = true) :
    a.kind = b.kind ∧ a.evidenceId = b.evidenceId := by
  unfold evidenceBefore at hab hba
  simp only [Bool.or_eq_true, Bool.and_eq_true, decide_eq_true_eq] at hab hba
  rcases hab with hab | ⟨hkind, hab⟩
  · rcases hba with hba | ⟨hkind, _⟩
    · exact absurd hba hab.asymm
    · exact absurd hkind.symm hab.ne
  · rcases hba with hba | ⟨_, hba⟩
    · exact absurd hkind.symm hba.ne
    · exact ⟨Identifier.ext_text hkind, Identifier.ext_text (le_antisymm hab hba)⟩

theorem dedup_perm_of_mem {α : Type} [DecidableEq α] {l l' : List α} (h : ∀ x, x ∈ l' ↔ x ∈ l) :
    l'.dedup.Perm l.dedup := by
  apply (List.perm_ext_iff_of_nodup l'.nodup_dedup l.nodup_dedup).mpr
  intro x
  rw [List.mem_dedup, List.mem_dedup, h]

/-- Checks come out alike in every order. -/
theorem checks_sorted {order : SetOrder} (order' : SetOrder) {checks checks' : List String}
    (h : ∀ check, check ∈ checks' ↔ check ∈ checks) :
    (order'.checks checks').mergeSort (fun a b => a ≤ b) = (order.checks checks).mergeSort fun a b => a ≤ b := by
  have hperm : (order'.checks checks').Perm (order.checks checks) :=
    (order'.checks_perm checks').trans ((dedup_perm_of_mem h).trans (order.checks_perm checks).symm)
  have hsorted : ∀ l : List String, (l.mergeSort fun a b => a ≤ b).Pairwise fun a b => a ≤ b := by
    intro l
    have hpairs := @List.pairwise_mergeSort String (fun a b => decide (a ≤ b))
      (fun a b c hab hbc => decide_eq_true ((of_decide_eq_true hab).trans (of_decide_eq_true hbc)))
      (fun a b => by simpa using le_total a b) l
    exact hpairs.imp of_decide_eq_true
  apply @List.Perm.eq_of_pairwise String (fun a b => a ≤ b)
  · exact fun a b _ _ hab hba => le_antisymm hab hba
  · exact hsorted _
  · exact hsorted _
  · exact ((List.mergeSort_perm _ _).trans hperm).trans (List.mergeSort_perm _ _).symm

/-- Distinguished evidence comes out alike in every order. -/
theorem evidence_sorted (order : SetOrder) {order' : SetOrder} {evidence evidence' : List EvidenceRef}
    (h : ∀ item, item ∈ evidence' ↔ item ∈ evidence) (hdistinct : Distinguished evidence) :
    (order'.evidence evidence').mergeSort evidenceBefore = (order.evidence evidence).mergeSort evidenceBefore := by
  have hperm : (order'.evidence evidence').Perm (order.evidence evidence) :=
    (order'.evidence_perm evidence').trans ((dedup_perm_of_mem h).trans (order.evidence_perm evidence).symm)
  have hmem : ∀ item, item ∈ (order.evidence evidence).mergeSort evidenceBefore → item ∈ evidence := by
    intro item hitem
    rw [List.mem_mergeSort, (order.evidence_perm evidence).mem_iff, List.mem_dedup] at hitem
    exact hitem
  have hall := ((List.mergeSort_perm _ evidenceBefore).trans hperm).trans
    (List.mergeSort_perm (order.evidence evidence) evidenceBefore).symm
  apply @List.Perm.eq_of_pairwise EvidenceRef (fun a b => evidenceBefore a b = true)
  · intro a b ha hb hab hba
    obtain ⟨hkind, hid⟩ := evidenceBefore_both hab hba
    exact hdistinct a (hmem a (hall.mem_iff.mp ha)) b (hmem b hb) hkind hid
  · exact List.pairwise_mergeSort evidenceBefore_trans evidenceBefore_total _
  · exact List.pairwise_mergeSort evidenceBefore_trans evidenceBefore_total _
  · exact hall

/-- A process that iterates over the evidence in a given order. -/
def SetOrder.listing (evidence : List EvidenceRef) : SetOrder where
  checks := List.dedup
  evidence values := if evidence.Perm values.dedup then evidence else values.dedup
  checks_perm _ := .refl _
  evidence_perm values := by
    split
    · assumption
    · exact .refl _

/-- A list without repetitions holds two items in one order only. -/
theorem not_both_orders {α : Type} {a b : α} {l : List α} (hnodup : l.Nodup) (hab : [a, b].Sublist l)
    (hba : [b, a].Sublist l) : False := by
  induction l with
  | nil => cases hab
  | cons c l ih =>
    rw [List.nodup_cons] at hnodup
    cases hab with
    | cons _ hab =>
      cases hba with
      | cons _ hba => exact ih hnodup.2 hab hba
      | cons_cons _ _ => exact hnodup.1 (hab.subset (by simp))
    | cons_cons _ hb =>
      cases hba with
      | cons _ hba => exact hnodup.1 (hba.subset (by simp))
      | cons_cons _ _ => exact hnodup.1 (hb.subset (by simp))

/-- Two references that share their kind and identifier come out in the order of the iteration. -/
theorem evidence_unsorted {a b : EvidenceRef} {evidence : List EvidenceRef} (ha : a ∈ evidence) (hb : b ∈ evidence)
    (hkind : a.kind = b.kind) (hid : a.evidenceId = b.evidenceId) (hne : a ≠ b) :
    ∃ l l' : List EvidenceRef, l.Perm evidence.dedup ∧ l'.Perm evidence.dedup ∧
      l.mergeSort evidenceBefore ≠ l'.mergeSort evidenceBefore := by
  have hbefore : evidenceBefore a b = true ∧ evidenceBefore b a = true := by
    unfold evidenceBefore
    rw [hkind, hid]
    simp
  have hab : (a :: b :: ((evidence.dedup.erase a).erase b)).Perm evidence.dedup := by
    have hb' : b ∈ evidence.dedup.erase a :=
      (List.mem_erase_of_ne hne.symm).mpr (List.mem_dedup.mpr hb)
    exact ((List.perm_cons_erase hb').cons a).symm.trans (List.perm_cons_erase (List.mem_dedup.mpr ha)).symm
  have hba : (b :: a :: ((evidence.dedup.erase a).erase b)).Perm evidence.dedup := (List.Perm.swap a b _).trans hab
  refine ⟨_, _, hab, hba, ?_⟩
  intro heq
  have hfirst : [a, b].Sublist ((a :: b :: ((evidence.dedup.erase a).erase b)).mergeSort evidenceBefore) :=
    List.pair_sublist_mergeSort evidenceBefore_trans evidenceBefore_total hbefore.1
      (((List.nil_sublist _).cons_cons b).cons_cons a)
  have hsecond : [b, a].Sublist ((a :: b :: ((evidence.dedup.erase a).erase b)).mergeSort evidenceBefore) := by
    rw [heq]
    exact List.pair_sublist_mergeSort evidenceBefore_trans evidenceBefore_total hbefore.2
      (((List.nil_sublist _).cons_cons a).cons_cons b)
  have hnodup : ((a :: b :: ((evidence.dedup.erase a).erase b)).mergeSort evidenceBefore).Nodup :=
    ((List.mergeSort_perm _ _).trans hab).nodup_iff.mpr (List.nodup_dedup _)
  exact not_both_orders hnodup hfirst hsecond

/-- Another process keeps the same signal but for the order of the evidence. -/
theorem make_reordered {order order' : SetOrder} {fields fields' : SignalFields δ} {signal signal' : FailureSignal}
    (hrestates : Restates fields fields') (h : FailureSignal.make order fields = .ok signal)
    (h' : FailureSignal.make order' fields' = .ok signal') :
    signal' = { signal with evidence := (order'.evidence fields'.evidence).mergeSort evidenceBefore } := by
  rw [make_ok h, make_ok h', checks_sorted order' hrestates.checks]
  unfold SignalFields.signal
  rw [hrestates.code, hrestates.exceptionType, hrestates.transient, hrestates.partialMutation,
    hrestates.integrityFailure, hrestates.securitySensitive]

theorem Restates.refl (fields : SignalFields δ) : Restates fields fields :=
  ⟨rfl, rfl, fun _ => Iff.rfl, fun _ => Iff.rfl, rfl, rfl, rfl, rfl⟩

/-- A cause has one fingerprint exactly when no two of its references share their kind and identifier. -/
theorem fingerprint_stable_iff {digests : CanonicalDigests} {fields : SignalFields δ} {context : RecoveryContext}
    {order : SetOrder} {signal : FailureSignal} (hmake : FailureSignal.make order fields = .ok signal)
    (hdigests : ∀ l l' : List EvidenceRef, l.Perm fields.evidence.dedup → l'.Perm fields.evidence.dedup →
      failureFingerprint digests { signal with evidence := l } context =
        failureFingerprint digests { signal with evidence := l' } context → l = l') :
    FingerprintStable digests fields context ↔ Distinguished fields.evidence := by
  constructor
  · intro hstable a ha b hb hkind hid
    by_contra hne
    obtain ⟨l, l', hl, hl', hsort⟩ := evidence_unsorted ha hb hkind hid hne
    obtain ⟨first, hfirst⟩ := make_of_ok (.listing l) hmake
    obtain ⟨second, hsecond⟩ := make_of_ok (.listing l') hmake
    have hsame := hstable _ _ fields context.attempt first second (.refl fields) hfirst hsecond
    rw [make_reordered (.refl fields) hmake hfirst, make_reordered (.refl fields) hmake hsecond] at hsame
    have hlisted : (SetOrder.listing l).evidence fields.evidence = l ∧
        (SetOrder.listing l').evidence fields.evidence = l' := ⟨if_pos hl, if_pos hl'⟩
    rw [hlisted.1, hlisted.2] at hsame
    exact hsort (hdigests _ _ ((List.mergeSort_perm _ _).trans hl) ((List.mergeSort_perm _ _).trans hl') hsame.symm)
  · intro hdistinct order order' fields' attempt signal signal' hrestates hsignal hsignal'
    have hsame : signal' = signal := by
      rw [make_reordered hrestates hsignal hsignal', evidence_sorted order hrestates.evidence hdistinct,
        make_ok hsignal]
      rfl
    rw [hsame]
    rfl

end

/-! ## Two logs of one run -/

/-- One of two contents recorded under the same kind and identifier. -/
def firstLog : EvidenceRef :=
  ⟨⟨"run", by decide⟩, ⟨"log", by decide⟩,
    ⟨"a7937b64b8caa58f03721bb6bacf5c78cb235febe0e70b1b84cd99541461a08e", by decide⟩⟩

/-- The other content. -/
def secondLog : EvidenceRef :=
  ⟨⟨"run", by decide⟩, ⟨"log", by decide⟩,
    ⟨"16367aacb67a4a017c8da8ab95682ccb390863780f7114dda0a0e0c55644c7c4", by decide⟩⟩

/-- A step that timed out, with both logs as evidence. -/
def twiceLogged : SignalFields Unit :=
  { code := "timeout"
    exceptionType := "TimeoutError"
    message := ""
    failedChecks := []
    evidence := [firstLog, secondLog]
    transient := true
    partialMutation := false
    integrityFailure := false
    securitySensitive := false
    details := () }

/-- The SHA-256 digest of the payload with the logs in one of their orders. -/
def logDigest (evidence : List EvidenceRef) : Digest :=
  if evidence = [firstLog, secondLog] then
    ⟨"ca26e73de1bae054f5ca76400d70f7bf7b7eda415a8671f8d96948ce97a7a083", by decide⟩
  else ⟨"a278f190c3b809b877e398b3c2da1ef30747504e162a954b7a0574267a5e5934", by decide⟩

def twiceLoggedDigests : CanonicalDigests where
  fingerprint material := logDigest material.evidence
  decision := timedOutDigests.decision

theorem logDigest_ne : logDigest [firstLog, secondLog] ≠ logDigest [secondLog, firstLog] := by decide +kernel

theorem twiceLogged_order {l : List EvidenceRef} (h : l.Perm twiceLogged.evidence.dedup) :
    l = [firstLog, secondLog] ∨ l = [secondLog, firstLog] := by
  have hdedup : twiceLogged.evidence.dedup = [firstLog, secondLog] := by decide +kernel
  rw [hdedup] at h
  obtain ⟨x, y, rfl⟩ := List.length_eq_two.mp h.length_eq
  have hx : x = firstLog ∨ x = secondLog := by simpa using h.subset List.mem_cons_self
  rcases hx with rfl | rfl
  · exact Or.inl (congrArg _ (List.perm_singleton.mp h.cons_inv))
  · exact Or.inr (congrArg _ (List.perm_singleton.mp (h.trans (.swap secondLog firstLog [])).cons_inv))

theorem fingerprint_stable_iff_twiceLogged :
    FingerprintStable twiceLoggedDigests twiceLogged (timedOut 1).context ↔
      Distinguished [firstLog, secondLog] := by
  obtain ⟨signal, hmake⟩ : ∃ signal, FailureSignal.make (.listing [firstLog, secondLog]) twiceLogged = .ok signal :=
    ⟨_, rfl⟩
  apply fingerprint_stable_iff hmake
  intro l l' hl hl' hsame
  rcases twiceLogged_order hl with rfl | rfl
  · rcases twiceLogged_order hl' with rfl | rfl
    · rfl
    · exact absurd hsame logDigest_ne
  · rcases twiceLogged_order hl' with rfl | rfl
    · exact absurd hsame.symm logDigest_ne
    · rfl

/-- Sorting leaves the logs in the order of the iteration. -/
theorem twiceLogged_sorted {l : List EvidenceRef} (h : l = [firstLog, secondLog] ∨ l = [secondLog, firstLog]) :
    ((SetOrder.listing l).evidence twiceLogged.evidence).mergeSort evidenceBefore = l := by
  have hperm : l.Perm twiceLogged.evidence.dedup := by
    rcases h with rfl | rfl
    · decide +kernel
    · decide +kernel
  rw [show (SetOrder.listing l).evidence twiceLogged.evidence = l from if_pos hperm]
  apply List.mergeSort_of_pairwise
  rcases h with rfl | rfl
  · decide +kernel
  · decide +kernel

/-- Two processes that iterate over the logs in different orders disagree on the fingerprint. -/
theorem fingerprint_unstable :
    ¬∀ (digests : CanonicalDigests) (fields : SignalFields Unit) (context : RecoveryContext),
      FingerprintStable digests fields context := by
  intro h
  obtain ⟨first, hfirst⟩ : ∃ signal,
      FailureSignal.make (.listing [firstLog, secondLog]) twiceLogged = .ok signal := ⟨_, rfl⟩
  obtain ⟨second, hsecond⟩ : ∃ signal,
      FailureSignal.make (.listing [secondLog, firstLog]) twiceLogged = .ok signal := ⟨_, rfl⟩
  have hsame := h twiceLoggedDigests twiceLogged (timedOut 1).context _ _ twiceLogged 1 first second (.refl _)
    hfirst hsecond
  rw [make_reordered (.refl _) hfirst hsecond, make_reordered (.refl _) hfirst hfirst,
    twiceLogged_sorted (Or.inl rfl), twiceLogged_sorted (Or.inr rfl)] at hsame
  exact logDigest_ne hsame.symm

end LilTweak.Recovery
