import LilTweak.Lib.Dict
import LilTweak.Recovery.Contracts

/-!
# The recovery history

An append-only history per owner, as the controller sees it: a list it reads and
two appends that refuse what was appended before. The in-memory store and the
SQLite table are two stores of this kind; each call is one step of its store.
-/

namespace LilTweak.Recovery

open LilTweak.Lib

/-! ## Entries -/

/-- `_entry` for a decision. -/
def decisionEntry (decision : RecoveryDecision) (sequence : ℕ) (failedChecks : List String) :
    RecoveryHistoryEntry :=
  { ownerId := decision.ownerId
    sequence
    taskId := decision.taskId
    fingerprint := decision.fingerprint
    action := decision.action
    decisionDigest := decision.decisionDigest
    outcomeStatus := none
    progress := none
    remainingFailedChecks := failedChecks
    resultingPlanDigest := none
    resultingCandidateDigest := none
    resultingResourceId := none
    nodeId := decision.nodeId
    attempt := decision.attempt
    targetResourceId := decision.targetResourceId }

/-- `_entry` for the outcome of a decision. -/
def outcomeEntry (decision : RecoveryDecision) (sequence : ℕ) (outcome : RecoveryOutcome) :
    RecoveryHistoryEntry :=
  { decisionEntry decision sequence outcome.remainingFailedChecks with
    outcomeStatus := some outcome.status
    progress := some outcome.progress
    resultingPlanDigest := outcome.resultingPlanDigest
    resultingCandidateDigest := outcome.resultingCandidateDigest
    resultingResourceId := outcome.resultingResourceId }

/-- An entry that records this very decision, its target aside. -/
def recordsDecision (decision : RecoveryDecision) (item : RecoveryHistoryEntry) : Bool :=
  item.decisionDigest = decision.decisionDigest ∧ item.fingerprint = decision.fingerprint ∧
    item.taskId = decision.taskId ∧ item.nodeId = decision.nodeId ∧
    item.attempt = decision.attempt ∧ item.outcomeStatus = none

/-- An entry that records an outcome of this decision. -/
def recordsOutcome (decision : RecoveryDecision) (item : RecoveryHistoryEntry) : Bool :=
  item.decisionDigest = decision.decisionDigest ∧ item.outcomeStatus ≠ none

/-! ## A history store -/

/-- `RecoveryHistoryStore`: what a controller relies on. An append that raises
leaves no state behind; one that returns adds one entry at its owner's end. -/
structure HistoryStore (σ : Type) where
  empty : σ
  list : σ → Identifier → List RecoveryHistoryEntry
  appendDecision : σ → RecoveryDecision → List String → Except String (RecoveryHistoryEntry × σ)
  appendOutcome : σ → RecoveryDecision → RecoveryOutcome → Except String (RecoveryHistoryEntry × σ)
  list_empty : ∀ owner, list empty owner = []
  list_appendDecision : ∀ {s s' decision failedChecks item},
    appendDecision s decision failedChecks = .ok (item, s') →
    (∃ n, item = decisionEntry decision n failedChecks) ∧
      ∀ owner, list s' owner =
        if owner = decision.ownerId then list s owner ++ [item] else list s owner
  list_appendOutcome : ∀ {s s' decision outcome item},
    appendOutcome s decision outcome = .ok (item, s') →
    (∃ n, item = outcomeEntry decision n outcome) ∧
      ∀ owner, list s' owner =
        if owner = decision.ownerId then list s owner ++ [item] else list s owner

/-! ## In memory -/

/-- `InMemoryRecoveryHistoryStore`: a list of entries under each owner. -/
abbrev MemoryHistory := Dict Identifier (List RecoveryHistoryEntry)

namespace MemoryHistory

def list (m : MemoryHistory) (owner : Identifier) : List RecoveryHistoryEntry :=
  (m.get? owner).getD []

def containsDecision (m : MemoryHistory) (decision : RecoveryDecision) : Bool :=
  (list m decision.ownerId).any fun item =>
    recordsDecision decision item && item.targetResourceId == decision.targetResourceId

def hasOutcome (m : MemoryHistory) (decision : RecoveryDecision) : Bool :=
  (list m decision.ownerId).any (recordsOutcome decision)

/-- `_next`. -/
def next (m : MemoryHistory) (owner : Identifier) : ℕ := (list m owner).length + 1

/-- `setdefault(owner, []).append(entry)`. -/
def push (m : MemoryHistory) (owner : Identifier) (item : RecoveryHistoryEntry) : MemoryHistory :=
  m.set owner (list m owner ++ [item])

def appendDecision (m : MemoryHistory) (decision : RecoveryDecision) (failedChecks : List String) :
    Except String (RecoveryHistoryEntry × MemoryHistory) :=
  if containsDecision m decision then .error "recovery_decision_already_issued"
  else
    let item := decisionEntry decision (next m decision.ownerId) failedChecks
    .ok (item, push m decision.ownerId item)

def appendOutcome (m : MemoryHistory) (decision : RecoveryDecision) (outcome : RecoveryOutcome) :
    Except String (RecoveryHistoryEntry × MemoryHistory) :=
  if !containsDecision m decision then .error "recovery_decision_not_issued"
  else if hasOutcome m decision then .error "recovery_outcome_already_recorded"
  else
    let item := outcomeEntry decision (next m decision.ownerId) outcome
    .ok (item, push m decision.ownerId item)

theorem list_push (m : MemoryHistory) (owner owner' : Identifier) (item : RecoveryHistoryEntry) :
    list (push m owner item) owner' =
      if owner' = owner then list m owner' ++ [item] else list m owner' := by
  by_cases h : owner' = owner
  · rw [if_pos h, list, push, Dict.get?_set, if_pos h, h]
    rfl
  · rw [if_neg h, list, push, Dict.get?_set, if_neg h]
    rfl

/-- The in-memory history is a store. -/
def store : HistoryStore MemoryHistory where
  empty := ∅
  list := list
  appendDecision := appendDecision
  appendOutcome := appendOutcome
  list_empty owner := rfl
  list_appendDecision := by
    intro m m' decision failedChecks item h
    rw [appendDecision] at h
    split at h
    · cases h
    · cases h
      exact ⟨⟨_, rfl⟩, fun owner => list_push m decision.ownerId owner _⟩
  list_appendOutcome := by
    intro m m' decision outcome item h
    rw [appendOutcome] at h
    split at h
    · cases h
    · split at h
      · cases h
      · cases h
        exact ⟨⟨_, rfl⟩, fun owner => list_push m decision.ownerId owner _⟩

end MemoryHistory

/-! ## In a table -/

/-- The rows of one owner. -/
def ofOwner (owner : Identifier) (rows : List RecoveryHistoryEntry) : List RecoveryHistoryEntry :=
  rows.filter fun row => row.ownerId = owner

/-- `COALESCE(MAX(sequence), 0)` of some rows. -/
def lastSequence (rows : List RecoveryHistoryEntry) : ℕ :=
  (rows.map RecoveryHistoryEntry.sequence).foldr max 0

theorem sequence_le_last {rows : List RecoveryHistoryEntry} {row : RecoveryHistoryEntry}
    (h : row ∈ rows) : row.sequence ≤ lastSequence rows := by
  induction rows with
  | nil => cases h
  | cons first rest ih =>
    rw [lastSequence, List.map_cons, List.foldr_cons]
    rcases List.mem_cons.mp h with rfl | hrest
    · exact le_max_left _ _
    · exact (ih hrest).trans (le_max_right _ _)

/-- The table `recovery_history`: its rows in the order they were inserted, which
is the order of their sequence numbers within each owner. -/
structure HistoryTable where
  rows : List RecoveryHistoryEntry
  ordered : ∀ owner, (ofOwner owner rows).Pairwise fun a b => a.sequence < b.sequence

namespace HistoryTable

/-- `SELECT … WHERE owner_id = ? ORDER BY sequence`. -/
def list (t : HistoryTable) (owner : Identifier) : List RecoveryHistoryEntry :=
  (ofOwner owner t.rows).mergeSort fun a b => a.sequence ≤ b.sequence

/-- Sorting by the sequence number changes nothing. -/
theorem list_eq (t : HistoryTable) (owner : Identifier) : t.list owner = ofOwner owner t.rows := by
  apply List.mergeSort_of_pairwise
  exact (t.ordered owner).imp fun h => decide_eq_true h.le

/-- The target of the first row that records the decision is the decision's. -/
def containsDecision (t : HistoryTable) (decision : RecoveryDecision) : Bool :=
  ((ofOwner decision.ownerId t.rows).find? (recordsDecision decision)).any fun row =>
    row.targetResourceId == decision.targetResourceId

def hasOutcome (t : HistoryTable) (decision : RecoveryDecision) : Bool :=
  (ofOwner decision.ownerId t.rows).any (recordsOutcome decision)

def next (t : HistoryTable) (owner : Identifier) : ℕ := lastSequence (ofOwner owner t.rows) + 1

theorem ordered_insert (t : HistoryTable) {item : RecoveryHistoryEntry}
    (h : item.sequence = t.next item.ownerId) (owner : Identifier) :
    (ofOwner owner (t.rows ++ [item])).Pairwise fun a b => a.sequence < b.sequence := by
  rw [ofOwner, List.filter_append, List.pairwise_append]
  refine ⟨t.ordered owner, List.Pairwise.filter _ (List.pairwise_singleton _ _), ?_⟩
  intro a ha b hb
  rw [List.mem_filter, List.mem_singleton] at hb
  obtain ⟨rfl, hb⟩ := hb
  have howner : b.ownerId = owner := of_decide_eq_true hb
  have hlast := sequence_le_last ha
  rw [h, howner]
  exact Nat.lt_succ_of_le hlast

/-- `INSERT INTO recovery_history`. -/
def insert (t : HistoryTable) (item : RecoveryHistoryEntry)
    (h : item.sequence = t.next item.ownerId) : HistoryTable :=
  ⟨t.rows ++ [item], ordered_insert t h⟩

def appendDecision (t : HistoryTable) (decision : RecoveryDecision) (failedChecks : List String) :
    Except String (RecoveryHistoryEntry × HistoryTable) :=
  if t.containsDecision decision then .error "recovery_decision_already_issued"
  else
    .ok (decisionEntry decision (t.next decision.ownerId) failedChecks,
      t.insert (decisionEntry decision (t.next decision.ownerId) failedChecks) rfl)

def appendOutcome (t : HistoryTable) (decision : RecoveryDecision) (outcome : RecoveryOutcome) :
    Except String (RecoveryHistoryEntry × HistoryTable) :=
  if !t.containsDecision decision then .error "recovery_decision_not_issued"
  else if t.hasOutcome decision then .error "recovery_outcome_already_recorded"
  else
    .ok (outcomeEntry decision (t.next decision.ownerId) outcome,
      t.insert (outcomeEntry decision (t.next decision.ownerId) outcome) rfl)

theorem list_insert (t : HistoryTable) (item : RecoveryHistoryEntry)
    (h : item.sequence = t.next item.ownerId) (owner : Identifier) :
    (t.insert item h).list owner =
      if owner = item.ownerId then t.list owner ++ [item] else t.list owner := by
  rw [list_eq, list_eq, insert, ofOwner, List.filter_append]
  by_cases howner : owner = item.ownerId
  · rw [if_pos howner, List.filter_cons_of_pos (by simpa using howner.symm), List.filter_nil]
    rfl
  · rw [if_neg howner, List.filter_cons_of_neg (by simpa using Ne.symm howner), List.filter_nil,
      List.append_nil]
    rfl

theorem ordered_nil (owner : Identifier) :
    (ofOwner owner []).Pairwise fun a b => a.sequence < b.sequence := List.Pairwise.nil

/-- The SQLite history is a store. -/
def store : HistoryStore HistoryTable where
  empty := ⟨[], ordered_nil⟩
  list := list
  appendDecision := appendDecision
  appendOutcome := appendOutcome
  list_empty owner := list_eq _ owner
  list_appendDecision := by
    intro t t' decision failedChecks item h
    rw [appendDecision] at h
    split at h
    · cases h
    · cases h
      exact ⟨⟨_, rfl⟩, fun owner => list_insert t _ rfl owner⟩
  list_appendOutcome := by
    intro t t' decision outcome item h
    rw [appendOutcome] at h
    split at h
    · cases h
    · split at h
      · cases h
      · cases h
        exact ⟨⟨_, rfl⟩, fun owner => list_insert t _ rfl owner⟩

end HistoryTable

end LilTweak.Recovery
