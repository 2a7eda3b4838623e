import LilTweak.Lib.Outcome
import LilTweak.Lib.PyJsonText
import LilTweak.Recovery.History
import Mathlib

/-!
# Two history stores

The in-memory store keeps its entries, the SQLite store encodes them into rows and decodes what it
lists. Failed checks are any Python strings here, surrogates included. The two give the same answers
as long as no decision is looked for behind another one that differs in its target only, and what is
stored fits its columns and is read back.
-/

namespace LilTweak.Recovery

open LilTweak.Lib

/-! ## Entries -/

/-- What is reported of a recovery. -/
structure ReportedOutcome where
  status : RecoveryOutcomeStatus
  progress : Bool
  remainingFailedChecks : List PyStr
  resultingPlanDigest : Option Digest
  resultingCandidateDigest : Option Digest
  resultingResourceId : Option Identifier
deriving DecidableEq

/-- `RecoveryHistoryEntry`. -/
structure HistoryItem where
  ownerId : Identifier
  sequence : ℕ
  taskId : Identifier
  nodeId : Identifier
  attempt : ℕ+
  fingerprint : Digest
  action : RecoveryAction
  decisionDigest : Digest
  targetResourceId : Option Identifier
  outcomeStatus : Option RecoveryOutcomeStatus
  progress : Option Bool
  remainingFailedChecks : List PyStr
  resultingPlanDigest : Option Digest
  resultingCandidateDigest : Option Digest
  resultingResourceId : Option Identifier
deriving DecidableEq

/-- What a call of a store can raise. -/
inductive StoreError where
  | value (code : String)
  | overflow
  | tooBig
deriving DecidableEq

/-- `tuple(sorted(set(values)))` of the code points. -/
def sortedChecks (values : List PyStr) : List PyStr := values.dedup.mergeSort fun a b => a ≤ b

/-- `_normalize_strings` of the checks of an entry. -/
def normalizeChecks (values : List PyStr) : Except StoreError (List PyStr) :=
  if values.any (fun value => value = [] || 256 < value.length) then .error (.value "remaining_failed_check_invalid")
  else .ok (sortedChecks values)

/-- `_entry`. -/
def historyItem (decision : RecoveryDecision) (sequence : ℕ) (outcome : Option ReportedOutcome)
    (initialFailedChecks : List PyStr) : Except StoreError HistoryItem :=
  (normalizeChecks ((outcome.map fun o => o.remainingFailedChecks).getD initialFailedChecks)).map fun checks =>
    { ownerId := decision.ownerId
      sequence
      taskId := decision.taskId
      nodeId := decision.nodeId
      attempt := decision.attempt
      fingerprint := decision.fingerprint
      action := decision.action
      decisionDigest := decision.decisionDigest
      targetResourceId := decision.targetResourceId
      outcomeStatus := outcome.map fun o => o.status
      progress := outcome.map fun o => o.progress
      remainingFailedChecks := checks
      resultingPlanDigest := outcome.bind fun o => o.resultingPlanDigest
      resultingCandidateDigest := outcome.bind fun o => o.resultingCandidateDigest
      resultingResourceId := outcome.bind fun o => o.resultingResourceId }

/-- The entry issues this decision, its target aside. -/
def HistoryItem.issues (item : HistoryItem) (decision : RecoveryDecision) : Bool :=
  item.decisionDigest = decision.decisionDigest ∧ item.fingerprint = decision.fingerprint ∧
    item.taskId = decision.taskId ∧ item.nodeId = decision.nodeId ∧ item.attempt = decision.attempt ∧
    item.outcomeStatus = none

/-- The entry records an outcome of this decision. -/
def HistoryItem.settles (item : HistoryItem) (decision : RecoveryDecision) : Bool :=
  item.decisionDigest = decision.decisionDigest ∧ item.outcomeStatus ≠ none

/-! ## In memory -/

/-- `InMemoryRecoveryHistoryStore`. -/
abbrev MemoryStore := Dict Identifier (List HistoryItem)

namespace MemoryStore

def list (m : MemoryStore) (owner : Identifier) : List HistoryItem := (m.get? owner).getD []

def containsDecision (m : MemoryStore) (decision : RecoveryDecision) : Bool :=
  (list m decision.ownerId).any fun item =>
    item.issues decision && item.targetResourceId = decision.targetResourceId

def hasOutcome (m : MemoryStore) (decision : RecoveryDecision) : Bool :=
  (list m decision.ownerId).any fun item => item.settles decision

/-- `_next`, `_entry` and `setdefault(owner, []).append(entry)`. -/
def append (m : MemoryStore) (decision : RecoveryDecision) (outcome : Option ReportedOutcome)
    (initialFailedChecks : List PyStr) : Except StoreError (HistoryItem × MemoryStore) :=
  (historyItem decision ((list m decision.ownerId).length + 1) outcome initialFailedChecks).map fun item =>
    (item, m.set decision.ownerId (list m decision.ownerId ++ [item]))

def appendDecision (m : MemoryStore) (decision : RecoveryDecision) (failedChecks : List PyStr) :
    Except StoreError (HistoryItem × MemoryStore) :=
  if containsDecision m decision then .error (.value "recovery_decision_already_issued")
  else append m decision none failedChecks

def appendOutcome (m : MemoryStore) (decision : RecoveryDecision) (outcome : ReportedOutcome) :
    Except StoreError (HistoryItem × MemoryStore) :=
  if containsDecision m decision = false then .error (.value "recovery_decision_not_issued")
  else if hasOutcome m decision then .error (.value "recovery_outcome_already_recorded")
  else append m decision (some outcome) []

end MemoryStore

/-! ## Rows -/

/-- The text of an action. -/
def RecoveryAction.value : RecoveryAction → String
  | .retryStep => "retry_step"
  | .replan => "replan"
  | .repairCandidate => "repair_candidate"
  | .rollback => "rollback"
  | .rerouteResource => "reroute_resource"
  | .requalifyResource => "requalify_resource"
  | .escalate => "escalate"
  | .block => "block"

/-- `RecoveryAction(value)`. -/
def RecoveryAction.ofValue (value : String) : Option RecoveryAction :=
  [.retryStep, .replan, .repairCandidate, .rollback, .rerouteResource, .requalifyResource, .escalate, .block].find?
    fun action : RecoveryAction => action.value = value

/-- The text of a status. -/
def RecoveryOutcomeStatus.value : RecoveryOutcomeStatus → String
  | .pending => "pending"
  | .succeeded => "succeeded"
  | .failed => "failed"
  | .blocked => "blocked"

/-- `RecoveryOutcomeStatus(value)`. -/
def RecoveryOutcomeStatus.ofValue (value : String) : Option RecoveryOutcomeStatus :=
  [.pending, .succeeded, .failed, .blocked].find? fun status : RecoveryOutcomeStatus => status.value = value

theorem RecoveryAction.ofValue_value (action : RecoveryAction) : ofValue action.value = some action := by
  cases action <;> decide

theorem RecoveryOutcomeStatus.ofValue_value (status : RecoveryOutcomeStatus) : ofValue status.value = some status := by
  cases status <;> decide

/-- A row of `recovery_history`. -/
structure HistoryRow where
  ownerId : Identifier
  sequence : ℕ
  taskId : Identifier
  nodeId : Identifier
  attempt : ℕ+
  fingerprint : Digest
  action : String
  decisionDigest : Digest
  targetResourceId : Option Identifier
  outcomeStatus : Option String
  progress : Option ℕ
  remainingFailedChecks : List Char
  resultingPlanDigest : Option Digest
  resultingCandidateDigest : Option Digest
  resultingResourceId : Option Identifier
deriving DecidableEq

/-- `json.dumps` of the checks. -/
def checksText (checks : List PyStr) : List Char := PyJson.text (.arr (checks.map PyJson.str))

/-- `_encode`. -/
def HistoryItem.encode (item : HistoryItem) : HistoryRow :=
  { ownerId := item.ownerId
    sequence := item.sequence
    taskId := item.taskId
    nodeId := item.nodeId
    attempt := item.attempt
    fingerprint := item.fingerprint
    action := item.action.value
    decisionDigest := item.decisionDigest
    targetResourceId := item.targetResourceId
    outcomeStatus := item.outcomeStatus.map RecoveryOutcomeStatus.value
    progress := item.progress.map Bool.toNat
    remainingFailedChecks := checksText item.remainingFailedChecks
    resultingPlanDigest := item.resultingPlanDigest
    resultingCandidateDigest := item.resultingCandidateDigest
    resultingResourceId := item.resultingResourceId }

/-- The strings of a list of strings. -/
def stringsOf : List PyJson → Option (List PyStr)
  | [] => some []
  | .str s :: rest => (stringsOf rest).map fun more => s :: more
  | _ => none

/-- `json.loads` of the checks. -/
def readChecks (text : List Char) : Except StoreError (List PyStr) :=
  match PyJson.loads text with
  | some (.arr items) =>
    match stringsOf items with
    | some checks => .ok checks
    | none => .error (.value "remaining_failed_check_invalid")
  | _ => .error (.value "remaining_failed_check_invalid")

/-- An enumeration read from its column. -/
def readStatus : Option String → Except StoreError (Option RecoveryOutcomeStatus)
  | none => .ok none
  | some value =>
    match RecoveryOutcomeStatus.ofValue value with
    | some status => .ok (some status)
    | none => .error (.value value)

def readAction (value : String) : Except StoreError RecoveryAction :=
  match RecoveryAction.ofValue value with
  | some action => .ok action
  | none => .error (.value value)

/-- `_decode`; the entry it builds normalizes the checks again. -/
def HistoryRow.decode (row : HistoryRow) : Except StoreError HistoryItem := do
  let action ← readAction row.action
  let outcomeStatus ← readStatus row.outcomeStatus
  let checks ← readChecks row.remainingFailedChecks
  let remainingFailedChecks ← normalizeChecks checks
  .ok
    { ownerId := row.ownerId
      sequence := row.sequence
      taskId := row.taskId
      nodeId := row.nodeId
      attempt := row.attempt
      fingerprint := row.fingerprint
      action
      decisionDigest := row.decisionDigest
      targetResourceId := row.targetResourceId
      outcomeStatus
      progress := row.progress.map fun n => n != 0
      remainingFailedChecks
      resultingPlanDigest := row.resultingPlanDigest
      resultingCandidateDigest := row.resultingCandidateDigest
      resultingResourceId := row.resultingResourceId }

/-! ## In SQLite -/

/-- An INTEGER parameter is bound to 64 bits. -/
def sqliteIntegerEnd : ℕ := 2 ^ 63

/-- `SQLITE_MAX_LENGTH`. -/
def sqliteMaxLength : ℕ := 1000000000

/-- `SQLiteRecoveryHistoryStore`: its rows in the order of their insertion, which is that of their sequence
numbers within an owner. -/
structure SqliteStore where
  rows : List HistoryRow

namespace SqliteStore

/-- `WHERE owner_id = ?`. -/
def owned (t : SqliteStore) (owner : Identifier) : List HistoryRow := t.rows.filter fun row => row.ownerId = owner

/-- `WHERE decision_digest = ? AND … AND outcome_status IS NULL`. -/
def issuing (decision : RecoveryDecision) (row : HistoryRow) : Bool :=
  row.decisionDigest = decision.decisionDigest ∧ row.fingerprint = decision.fingerprint ∧
    row.taskId = decision.taskId ∧ row.nodeId = decision.nodeId ∧ row.attempt = decision.attempt ∧
    row.outcomeStatus = none

/-- The target of the one row that is fetched is compared afterwards. -/
def containsDecision (t : SqliteStore) (decision : RecoveryDecision) : Except StoreError Bool :=
  if sqliteIntegerEnd ≤ (decision.attempt : ℕ) then .error .overflow
  else .ok (((t.owned decision.ownerId).find? (issuing decision)).any fun row =>
    row.targetResourceId = decision.targetResourceId)

def hasOutcome (t : SqliteStore) (decision : RecoveryDecision) : Bool :=
  (t.owned decision.ownerId).any fun row =>
    row.decisionDigest = decision.decisionDigest ∧ row.outcomeStatus ≠ none

/-- `COALESCE(MAX(sequence), 0) + 1`. -/
def next (t : SqliteStore) (owner : Identifier) : ℕ := ((t.owned owner).map HistoryRow.sequence).foldr max 0 + 1

/-- `INSERT INTO recovery_history`. -/
def insert (t : SqliteStore) (item : HistoryItem) : Except StoreError (HistoryItem × SqliteStore) :=
  if sqliteMaxLength < (checksText item.remainingFailedChecks).length then .error .tooBig
  else .ok (item, ⟨t.rows ++ [item.encode]⟩)

def append (t : SqliteStore) (decision : RecoveryDecision) (outcome : Option ReportedOutcome)
    (initialFailedChecks : List PyStr) : Except StoreError (HistoryItem × SqliteStore) := do
  let item ← historyItem decision (t.next decision.ownerId) outcome initialFailedChecks
  t.insert item

def appendDecision (t : SqliteStore) (decision : RecoveryDecision) (failedChecks : List PyStr) :
    Except StoreError (HistoryItem × SqliteStore) := do
  let contained ← t.containsDecision decision
  if contained then .error (.value "recovery_decision_already_issued")
  else t.append decision none failedChecks

def appendOutcome (t : SqliteStore) (decision : RecoveryDecision) (outcome : ReportedOutcome) :
    Except StoreError (HistoryItem × SqliteStore) := do
  let contained ← t.containsDecision decision
  if contained = false then .error (.value "recovery_decision_not_issued")
  else if t.hasOutcome decision then .error (.value "recovery_outcome_already_recorded")
  else t.append decision (some outcome) []

/-- `ORDER BY sequence`, each row decoded. -/
def list (t : SqliteStore) (owner : Identifier) : Except StoreError (List HistoryItem) :=
  ((t.owned owner).mergeSort fun a b => a.sequence ≤ b.sequence).mapM HistoryRow.decode

end SqliteStore

/-! ## Calls -/

/-- A call of a store. -/
inductive StoreCall where
  | appendDecision (decision : RecoveryDecision) (failedChecks : List PyStr)
  | appendOutcome (decision : RecoveryDecision) (outcome : ReportedOutcome)
  | containsDecision (decision : RecoveryDecision)
  | list (owner : Identifier)
  | forFingerprint (owner : Identifier) (fingerprint : String)

/-- What a call returns. -/
inductive Answer where
  | item (item : HistoryItem)
  | flag (b : Bool)
  | items (items : List HistoryItem)
deriving DecidableEq

/-- The answer of an append, and the state it leaves: that of before where it raises. -/
def appended {σ : Type} (s : σ) : Except StoreError (HistoryItem × σ) → Except StoreError Answer × σ
  | .error e => (.error e, s)
  | .ok (item, s') => (.ok (.item item), s')

/-- `for_fingerprint` of a list. -/
def ofFingerprint (fingerprint : String) (items : List HistoryItem) : List HistoryItem :=
  items.filter fun item => item.fingerprint.text = fingerprint

def MemoryStore.serve (m : MemoryStore) : StoreCall → Except StoreError Answer × MemoryStore
  | .appendDecision decision failedChecks => appended m (m.appendDecision decision failedChecks)
  | .appendOutcome decision outcome => appended m (m.appendOutcome decision outcome)
  | .containsDecision decision => (.ok (.flag (m.containsDecision decision)), m)
  | .list owner => (.ok (.items (m.list owner)), m)
  | .forFingerprint owner fingerprint => (.ok (.items (ofFingerprint fingerprint (m.list owner))), m)

def SqliteStore.serve (t : SqliteStore) : StoreCall → Except StoreError Answer × SqliteStore
  | .appendDecision decision failedChecks => appended t (t.appendDecision decision failedChecks)
  | .appendOutcome decision outcome => appended t (t.appendOutcome decision outcome)
  | .containsDecision decision => ((t.containsDecision decision).map .flag, t)
  | .list owner => ((t.list owner).map .items, t)
  | .forFingerprint owner fingerprint =>
    ((t.list owner).map fun items => .items (ofFingerprint fingerprint items), t)

/-- The answers to some calls in turn. -/
def answers {σ : Type} (serve : σ → StoreCall → Except StoreError Answer × σ) (s : σ) :
    List StoreCall → List (Except StoreError Answer)
  | [] => []
  | call :: rest => (serve s call).1 :: answers serve (serve s call).2 rest

/-! ## Where they agree -/

/-- The first entry that issues the decision has its target, or none that issues it has. -/
def FirstOfTarget (items : List HistoryItem) (decision : RecoveryDecision) : Prop :=
  ∀ first, items.find? (fun item => item.issues decision) = some first →
    first.targetResourceId ≠ decision.targetResourceId →
    ∀ item ∈ items, item.issues decision = true → item.targetResourceId ≠ decision.targetResourceId

instance (items : List HistoryItem) (decision : RecoveryDecision) : Decidable (FirstOfTarget items decision) :=
  decidable_of_iff (∀ first ∈ (items.find? fun item : HistoryItem => item.issues decision).toList,
      first.targetResourceId ≠ decision.targetResourceId →
      ∀ item ∈ items, item.issues decision = true → item.targetResourceId ≠ decision.targetResourceId)
    (forall_congr' fun _ => imp_congr_left Option.mem_toList)

/-- Checks that fit their column and are read back from it. -/
def Storable (checks : List PyStr) : Prop :=
  (∀ check ∈ checks, PyJson.Unpaired check) ∧ (checksText (sortedChecks checks)).length ≤ sqliteMaxLength

/-- What a call must meet in a memory store for the stores to agree on it. -/
def StoreCall.Agreeable (m : MemoryStore) : StoreCall → Prop
  | .appendDecision decision failedChecks =>
    (decision.attempt : ℕ) < sqliteIntegerEnd ∧ FirstOfTarget (m.list decision.ownerId) decision ∧
      (m.containsDecision decision = false → Storable failedChecks)
  | .appendOutcome decision outcome =>
    (decision.attempt : ℕ) < sqliteIntegerEnd ∧ FirstOfTarget (m.list decision.ownerId) decision ∧
      (m.containsDecision decision = true → m.hasOutcome decision = false → Storable outcome.remainingFailedChecks)
  | .containsDecision decision =>
    (decision.attempt : ℕ) < sqliteIntegerEnd ∧ FirstOfTarget (m.list decision.ownerId) decision
  | .list _ => True
  | .forFingerprint _ _ => True

/-- Every call of a run is met by the history it finds. -/
def AllAgreeable (m : MemoryStore) : List StoreCall → Prop
  | [] => True
  | call :: rest => call.Agreeable m ∧ AllAgreeable (m.serve call).2 rest

/-! ### What is stored is listed -/

theorem sortedChecks_sorted (values : List PyStr) :
    (sortedChecks values).Pairwise fun a b => decide (a ≤ b) = true :=
  List.pairwise_mergeSort (fun _ _ _ hab hbc => decide_eq_true ((of_decide_eq_true hab).trans (of_decide_eq_true hbc)))
    (fun a b => by simpa using le_total a b) _

theorem sortedChecks_nil : sortedChecks [] = [] := by rw [sortedChecks, List.dedup_nil, List.mergeSort_nil]

theorem sortedChecks_singleton (check : PyStr) : sortedChecks [check] = [check] := by
  rw [sortedChecks, List.dedup_cons_of_notMem List.not_mem_nil, List.dedup_nil, List.mergeSort_singleton]

theorem mem_sortedChecks {values : List PyStr} {check : PyStr} : check ∈ sortedChecks values ↔ check ∈ values := by
  rw [sortedChecks, List.mem_mergeSort, List.mem_dedup]

theorem sortedChecks_idem (values : List PyStr) : sortedChecks (sortedChecks values) = sortedChecks values := by
  have hnodup : (sortedChecks values).Nodup := (List.mergeSort_perm _ _).nodup_iff.mpr (List.nodup_dedup _)
  conv_lhs => rw [sortedChecks, hnodup.dedup]
  exact List.mergeSort_of_pairwise (sortedChecks_sorted values)

theorem normalizeChecks_ok {values checks : List PyStr} (h : normalizeChecks values = .ok checks) :
    checks = sortedChecks values ∧ normalizeChecks checks = .ok checks := by
  unfold normalizeChecks at h
  split at h
  · cases h
  next hvalid =>
  obtain rfl := Except.ok.inj h
  refine ⟨rfl, ?_⟩
  unfold normalizeChecks
  rw [if_neg, sortedChecks_idem]
  intro hany
  obtain ⟨check, hcheck, hbad⟩ := List.any_eq_true.mp hany
  exact hvalid (List.any_eq_true.mpr ⟨check, mem_sortedChecks.mp hcheck, hbad⟩)

theorem stringsOf_map (checks : List PyStr) : stringsOf (checks.map PyJson.str) = some checks := by
  induction checks with
  | nil => rfl
  | cons check checks ih =>
    rw [List.map_cons, stringsOf, ih]
    rfl

theorem readableItems_map {checks : List PyStr} (h : ∀ check ∈ checks, PyJson.Unpaired check) :
    PyJson.ReadableItems (checks.map PyJson.str) := by
  induction checks with
  | nil => trivial
  | cons check checks ih =>
    exact ⟨h check List.mem_cons_self, ih fun c hc => h c (List.mem_cons_of_mem _ hc)⟩

theorem readChecks_text {checks : List PyStr} (h : ∀ check ∈ checks, PyJson.Unpaired check) :
    readChecks (checksText checks) = .ok checks := by
  unfold readChecks checksText
  rw [(PyJson.loads_text (v := .arr (checks.map PyJson.str)) (readableItems_map h)).1]
  simp only [stringsOf_map]

theorem decode_encode {item : HistoryItem} (hchecks : ∀ check ∈ item.remainingFailedChecks, PyJson.Unpaired check)
    (hnormal : normalizeChecks item.remainingFailedChecks = .ok item.remainingFailedChecks) :
    item.encode.decode = .ok item := by
  have haction : readAction item.action.value = .ok item.action := by
    unfold readAction
    rw [RecoveryAction.ofValue_value]
  have hstatus : readStatus (item.outcomeStatus.map RecoveryOutcomeStatus.value) = .ok item.outcomeStatus := by
    cases item.outcomeStatus with
    | none => rfl
    | some status =>
      rw [Option.map_some, readStatus, RecoveryOutcomeStatus.ofValue_value]
  have hprogress : (item.progress.map Bool.toNat).map (fun n => n != 0) = item.progress := by
    cases item.progress with
    | none => rfl
    | some progress => cases progress <;> rfl
  unfold HistoryRow.decode HistoryItem.encode
  simp only [haction, hstatus, readChecks_text hchecks, hnormal, hprogress, ok_bind]

/-! ### One history in two stores -/

/-- The rows of the table are the entries in memory, numbered from one, and each is decoded to its entry. -/
structure Mirrors (m : MemoryStore) (t : SqliteStore) : Prop where
  rows : ∀ owner, t.owned owner = (m.list owner).map HistoryItem.encode
  numbered : ∀ owner, (m.list owner).map HistoryItem.sequence = List.range' 1 (m.list owner).length
  decoded : ∀ owner, ∀ item ∈ m.list owner, item.encode.decode = .ok item

section
variable {m : MemoryStore} {t : SqliteStore} {decision : RecoveryDecision}

theorem issuing_encode (item : HistoryItem) : SqliteStore.issuing decision item.encode = item.issues decision := by
  unfold SqliteStore.issuing HistoryItem.issues HistoryItem.encode
  simp only [Option.map_eq_none_iff]

theorem Mirrors.containsDecision (h : Mirrors m t) (hattempt : (decision.attempt : ℕ) < sqliteIntegerEnd)
    (hfirst : FirstOfTarget (m.list decision.ownerId) decision) :
    t.containsDecision decision = .ok (m.containsDecision decision) := by
  have hissuing : (SqliteStore.issuing decision ∘ HistoryItem.encode) = fun item => item.issues decision :=
    funext issuing_encode
  unfold SqliteStore.containsDecision MemoryStore.containsDecision
  rw [if_neg (Nat.not_le.mpr hattempt), h.rows, List.find?_map, hissuing]
  apply congrArg Except.ok
  cases hfind : (m.list decision.ownerId).find? fun item => item.issues decision with
  | none =>
    have hnone := List.find?_eq_none.mp hfind
    rw [Option.map_none, Option.any_none]
    symm
    rw [List.any_eq_false]
    intro item hitem hissues
    rw [Bool.and_eq_true] at hissues
    exact hnone item hitem hissues.1
  | some first =>
    rw [Option.map_some, Option.any_some]
    by_cases htarget : first.targetResourceId = decision.targetResourceId
    · rw [decide_eq_true (show first.encode.targetResourceId = decision.targetResourceId from htarget)]
      symm
      rw [List.any_eq_true]
      refine ⟨first, List.mem_of_find?_eq_some hfind, ?_⟩
      rw [List.find?_some hfind, decide_eq_true htarget]
      rfl
    · rw [decide_eq_false (show ¬first.encode.targetResourceId = decision.targetResourceId from htarget)]
      symm
      rw [List.any_eq_false]
      intro item hitem hissues
      rw [Bool.and_eq_true, decide_eq_true_eq] at hissues
      exact hfirst first hfind htarget item hitem hissues.1 hissues.2

theorem Mirrors.hasOutcome (h : Mirrors m t) : t.hasOutcome decision = m.hasOutcome decision := by
  have hsettles : ∀ item : HistoryItem,
      decide (item.encode.decisionDigest = decision.decisionDigest ∧ item.encode.outcomeStatus ≠ none) =
        item.settles decision := by
    intro item
    unfold HistoryItem.settles HistoryItem.encode
    simp only [ne_eq, Option.map_eq_none_iff]
  unfold SqliteStore.hasOutcome MemoryStore.hasOutcome
  rw [h.rows, List.any_map]
  exact congrArg _ (funext hsettles)

theorem foldr_max_range' (n b : ℕ) : (List.range' 1 n).foldr max b = max n b := by
  induction n generalizing b with
  | zero => exact (Nat.zero_max b).symm
  | succ n ih =>
    rw [List.range'_concat, List.foldr_append, ih, List.foldr_cons, List.foldr_nil]
    omega

theorem Mirrors.sequences (h : Mirrors m t) (owner : Identifier) :
    (t.owned owner).map HistoryRow.sequence = List.range' 1 (m.list owner).length := by
  rw [h.rows, List.map_map]
  exact h.numbered owner

theorem Mirrors.next (h : Mirrors m t) (owner : Identifier) : t.next owner = (m.list owner).length + 1 := by
  unfold SqliteStore.next
  rw [h.sequences, foldr_max_range', Nat.max_zero]

theorem mapM_decode {items : List HistoryItem} (h : ∀ item ∈ items, item.encode.decode = .ok item) :
    (items.map HistoryItem.encode).mapM HistoryRow.decode = .ok items := by
  induction items with
  | nil => rfl
  | cons item items ih =>
    rw [List.map_cons, List.mapM_cons, h item List.mem_cons_self, ok_bind,
      ih fun i hi => h i (List.mem_cons_of_mem _ hi)]
    rfl

theorem Mirrors.list (h : Mirrors m t) (owner : Identifier) : t.list owner = .ok (m.list owner) := by
  have hsorted : (t.owned owner).Pairwise fun a b => decide (a.sequence ≤ b.sequence) = true := by
    have hrange : ((t.owned owner).map HistoryRow.sequence).Pairwise (· < ·) := by
      rw [h.sequences]
      exact List.pairwise_lt_range'
    exact (List.pairwise_map.mp hrange).imp fun hlt => decide_eq_true hlt.le
  unfold SqliteStore.list
  rw [List.mergeSort_of_pairwise hsorted, h.rows]
  exact mapM_decode (h.decoded owner)

/-- What an entry is made of. -/
theorem historyItem_ok {n : ℕ} {outcome : Option ReportedOutcome} {checks : List PyStr} {item : HistoryItem}
    (h : historyItem decision n outcome checks = .ok item) :
    item.ownerId = decision.ownerId ∧ item.sequence = n ∧
      item.remainingFailedChecks = sortedChecks ((outcome.map fun o => o.remainingFailedChecks).getD checks) ∧
      normalizeChecks item.remainingFailedChecks = .ok item.remainingFailedChecks := by
  unfold historyItem at h
  cases hnormal : normalizeChecks ((outcome.map fun o => o.remainingFailedChecks).getD checks) with
  | error e =>
    rw [hnormal] at h
    cases h
  | ok normal =>
    rw [hnormal] at h
    obtain rfl := Except.ok.inj h
    obtain ⟨hsorted, hagain⟩ := normalizeChecks_ok hnormal
    exact ⟨rfl, rfl, hsorted, hagain⟩

theorem Mirrors.append (h : Mirrors m t) {outcome : Option ReportedOutcome} {checks : List PyStr}
    (hstorable : Storable ((outcome.map fun o => o.remainingFailedChecks).getD checks)) :
    (appended t (t.append decision outcome checks)).1 = (appended m (m.append decision outcome checks)).1 ∧
      Mirrors (appended m (m.append decision outcome checks)).2 (appended t (t.append decision outcome checks)).2 := by
  unfold SqliteStore.append MemoryStore.append
  rw [h.next]
  cases hitem : historyItem decision ((m.list decision.ownerId).length + 1) outcome checks with
  | error e => exact ⟨rfl, h⟩
  | ok item =>
    obtain ⟨howner, hsequence, hchecks, hnormal⟩ := historyItem_ok hitem
    have hdecode : item.encode.decode = .ok item := by
      apply decode_encode _ hnormal
      intro check hcheck
      rw [hchecks, mem_sortedChecks] at hcheck
      exact hstorable.1 check hcheck
    have hinsert : t.insert item = .ok (item, ⟨t.rows ++ [item.encode]⟩) := by
      unfold SqliteStore.insert
      rw [hchecks, if_neg (Nat.not_lt.mpr hstorable.2)]
    rw [ok_bind, hinsert]
    have hlist : ∀ owner, MemoryStore.list (m.set decision.ownerId (m.list decision.ownerId ++ [item])) owner =
        if owner = decision.ownerId then m.list owner ++ [item] else m.list owner := by
      intro owner
      unfold MemoryStore.list
      rw [Dict.get?_set]
      split
      · next heq =>
        rw [heq]
        rfl
      · rfl
    refine ⟨rfl, ?_, ?_, ?_⟩
    · intro owner
      show (t.rows ++ [item.encode]).filter _ = (MemoryStore.list (m.set _ _) owner).map _
      rw [hlist, List.filter_append]
      have hrows := h.rows owner
      unfold SqliteStore.owned at hrows
      rw [hrows]
      split
      · next heq =>
        have hsame : item.encode.ownerId = owner := howner.trans heq.symm
        rw [List.map_append, List.filter_cons_of_pos (by rw [decide_eq_true hsame]), List.filter_nil]
        rfl
      · next hne =>
        have hother : ¬item.encode.ownerId = owner := fun heq => hne (heq.symm.trans howner)
        rw [List.filter_cons_of_neg (by rw [decide_eq_false hother]; decide), List.filter_nil, List.append_nil]
    · intro owner
      show (MemoryStore.list (m.set _ _) owner).map _ = List.range' 1 (MemoryStore.list (m.set _ _) owner).length
      rw [hlist]
      split
      · next heq =>
        rw [List.map_append, List.map_singleton, hsequence, h.numbered, List.length_append, List.length_singleton,
          List.range'_concat, heq, Nat.one_mul, Nat.add_comm 1]
      · exact h.numbered owner
    · intro owner other hother
      have hother' : other ∈ MemoryStore.list (m.set decision.ownerId (m.list decision.ownerId ++ [item])) owner := hother
      rw [hlist] at hother'
      split at hother'
      · rcases List.mem_append.mp hother' with hold | hnew
        · exact h.decoded owner other hold
        · rw [List.mem_singleton.mp hnew]
          exact hdecode
      · exact h.decoded owner other hother'

/-- One call: the answers are equal and the stores go on holding one history. -/
theorem Mirrors.serve (h : Mirrors m t) {call : StoreCall} (hcall : call.Agreeable m) :
    (t.serve call).1 = (m.serve call).1 ∧ Mirrors (m.serve call).2 (t.serve call).2 := by
  cases call with
  | appendDecision decision failedChecks =>
    obtain ⟨hattempt, hfirst, hstorable⟩ := hcall
    unfold SqliteStore.serve MemoryStore.serve
    simp only [SqliteStore.appendDecision, MemoryStore.appendDecision, h.containsDecision hattempt hfirst, ok_bind]
    by_cases hcontained : m.containsDecision decision = true
    · rw [if_pos hcontained, if_pos hcontained]
      exact ⟨rfl, h⟩
    · rw [if_neg hcontained, if_neg hcontained]
      exact h.append (hstorable (eq_false_of_ne_true hcontained))
  | appendOutcome decision outcome =>
    obtain ⟨hattempt, hfirst, hstorable⟩ := hcall
    unfold SqliteStore.serve MemoryStore.serve
    simp only [SqliteStore.appendOutcome, MemoryStore.appendOutcome, h.containsDecision hattempt hfirst, ok_bind,
      h.hasOutcome]
    by_cases hmissing : m.containsDecision decision = false
    · rw [if_pos hmissing, if_pos hmissing]
      exact ⟨rfl, h⟩
    · rw [if_neg hmissing, if_neg hmissing]
      by_cases hsettled : m.hasOutcome decision = true
      · rw [if_pos hsettled, if_pos hsettled]
        exact ⟨rfl, h⟩
      · rw [if_neg hsettled, if_neg hsettled]
        exact h.append (hstorable (Bool.not_eq_false _ ▸ hmissing) (eq_false_of_ne_true hsettled))
  | containsDecision decision =>
    unfold SqliteStore.serve MemoryStore.serve
    simp only [h.containsDecision hcall.1 hcall.2]
    exact ⟨rfl, h⟩
  | list owner =>
    unfold SqliteStore.serve MemoryStore.serve
    simp only [h.list]
    exact ⟨rfl, h⟩
  | forFingerprint owner fingerprint =>
    unfold SqliteStore.serve MemoryStore.serve
    simp only [h.list]
    exact ⟨rfl, h⟩

theorem Mirrors.answers (h : Mirrors m t) {calls : List StoreCall} (hcalls : AllAgreeable m calls) :
    Recovery.answers SqliteStore.serve t calls = Recovery.answers MemoryStore.serve m calls := by
  induction calls generalizing m t with
  | nil => rfl
  | cons call rest ih =>
    obtain ⟨hanswer, hnext⟩ := h.serve hcalls.1
    rw [Recovery.answers, Recovery.answers, hanswer, ih hnext hcalls.2]

theorem mirrors_empty : Mirrors ∅ ⟨[]⟩ := by
  refine ⟨fun _ => rfl, fun _ => rfl, ?_⟩
  intro owner item hitem
  cases hitem

end

theorem shaped_owner : idShape "owner" = true := by decide

theorem shaped_task : idShape "task" = true := by decide

theorem shaped_dag : idShape "dag" = true := by decide

theorem shaped_node : idShape "node" = true := by decide

theorem shaped_timeout : digestShape "24753e21d1091b43851c363dd45788887d025ab53b33372fd6f60a52c7f638db" = true := by
  decide

theorem shaped_first : digestShape "df99c13c7458ae75dac67fdc79d1e0daf83cc2ad2ee67c9eb2160c9458004543" = true := by
  decide

/-- A decision that reroutes a task from `primary`. -/
def reroute (target : Identifier) (htarget : some (⟨"primary", by decide⟩ : Identifier) ≠ some target) :
    RecoveryDecision :=
  { ownerId := ⟨"owner", shaped_owner⟩
    taskId := ⟨"task", shaped_task⟩
    dagRunId := ⟨"dag", shaped_dag⟩
    nodeId := ⟨"node", shaped_node⟩
    sourceRevision := none
    planDigest := none
    candidateDigest := none
    contractDigest := none
    executionId := none
    leaseId := none
    resourceId := some ⟨"primary", by decide⟩
    targetResourceId := some target
    attempt := ⟨1, Nat.one_pos⟩
    failureClass := .execution
    failureCode := .timeout
    fingerprint := ⟨"24753e21d1091b43851c363dd45788887d025ab53b33372fd6f60a52c7f638db", shaped_timeout⟩
    disposition := .resourceRerouteAllowed
    action := .rerouteResource
    allowed := true
    requiresReauthorization := false
    requiresFreshLease := true
    reasonCodes := ["timeout"]
    decisionDigest := ⟨"df99c13c7458ae75dac67fdc79d1e0daf83cc2ad2ee67c9eb2160c9458004543", shaped_first⟩
    halting_refused := by decide
    target_bound := ⟨Option.some_ne_none target, htarget⟩
    reasons_shaped := by decide }

def toSpare : RecoveryDecision := reroute ⟨"spare", by decide⟩ (by decide)

def toBackup : RecoveryDecision := reroute ⟨"backup", by decide⟩ (by decide)

/-- The entry of a decision that no check failed before. -/
def bareItem (decision : RecoveryDecision) (sequence : ℕ) : HistoryItem :=
  { ownerId := decision.ownerId
    sequence
    taskId := decision.taskId
    nodeId := decision.nodeId
    attempt := decision.attempt
    fingerprint := decision.fingerprint
    action := decision.action
    decisionDigest := decision.decisionDigest
    targetResourceId := decision.targetResourceId
    outcomeStatus := none
    progress := none
    remainingFailedChecks := []
    resultingPlanDigest := none
    resultingCandidateDigest := none
    resultingResourceId := none }

theorem historyItem_bare (decision : RecoveryDecision) (sequence : ℕ) :
    historyItem decision sequence none [] = .ok (bareItem decision sequence) := by
  have hnormal : normalizeChecks [] = .ok [] := by
    unfold normalizeChecks
    rw [sortedChecks_nil]
    rfl
  show (normalizeChecks []).map _ = _
  rw [hnormal]
  rfl

/-- A decision that is not contained is appended. -/
theorem memory_appends {m : MemoryStore} (decision : RecoveryDecision) (h : m.containsDecision decision = false) :
    (m.serve (.appendDecision decision [])).2 = m.set decision.ownerId
      (m.list decision.ownerId ++ [bareItem decision ((m.list decision.ownerId).length + 1)]) := by
  unfold MemoryStore.serve
  simp only [MemoryStore.appendDecision, MemoryStore.append, h, historyItem_bare]
  rfl

theorem sqlite_appends {t : SqliteStore} (decision : RecoveryDecision) (h : t.containsDecision decision = .ok false) :
    (t.serve (.appendDecision decision [])).2 =
      ⟨t.rows ++ [(bareItem decision (t.next decision.ownerId)).encode]⟩ := by
  unfold SqliteStore.serve
  simp only [SqliteStore.appendDecision, SqliteStore.append, h, historyItem_bare, ok_bind]
  rfl

end LilTweak.Recovery
