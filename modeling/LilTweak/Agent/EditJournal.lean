import LilTweak.Core.Dumps
import LilTweak.Evidence.Patch
import LilTweak.Recovery.Contracts
import LilTweak.Worlds.Runner
import Mathlib

/-!
# The journal of the edits

Every patch leaves an entry in an append-only journal, which has to pass `build_edit_journal_evidence`
when the run is over. So an entry is only appended when the entry that closes the journal still fits
behind it, and a patch is only run when an entry as large as its own can get still fits.
-/

namespace LilTweak.Agent

open LilTweak.Core LilTweak.Worlds
open LilTweak.Evidence (Sha256 Bytes)
open LilTweak.Recovery (Digest digestShape)

/-! ## The evidence of a journal -/

/-- An entry of the journal. -/
structure JournalEntry where
  ordinal : Nat
  beforeSourceDigest : String
  afterSourceDigest : String
  actualChangedPaths : List String
  deltaDigest : String
  result : String
  exitCode : Option Int
  timedOut : Bool
  truncated : Bool
  rejectionCode : Option String
deriving DecidableEq

/-- `[a-z][a-z0-9_]{0,63}` -/
def rejectionShape (s : String) : Bool :=
  match s.toList with
  | [] => false
  | c :: rest => c.isLower && decide (rest.length ≤ 63) && rest.all fun d => d.isLower || d.isDigit || d == '_'

/-- `sorted(paths)`, of a set. -/
def sortedPaths (paths : Finset String) : List String := paths.sort (· ≤ ·)

namespace JournalEntry

variable (e : JournalEntry)

/-- The paths are as `sorted(set(paths))` would list them. -/
def pathsSorted : Bool := e.actualChangedPaths == sortedPaths e.actualChangedPaths.toFinset

/-- What the evidence asks of the other fields, but for the ordinal. -/
def fieldsValid : Bool :=
  ["promoted", "rejected"].contains e.result &&
  (digestShape e.beforeSourceDigest && digestShape e.afterSourceDigest && digestShape e.deltaDigest) &&
  e.rejectionCode.all rejectionShape

/-- The fields of the entry, under sorted keys. -/
def fields : List (String × Json) :=
  [("actual_changed_paths", .arr (e.actualChangedPaths.map .str)),
   ("after_source_digest", .str e.afterSourceDigest),
   ("before_source_digest", .str e.beforeSourceDigest),
   ("delta_digest", .str e.deltaDigest),
   ("exit_code", e.exitCode.elim .null .int),
   ("ordinal", .int e.ordinal),
   ("rejection_code", e.rejectionCode.elim .null .str),
   ("result", .str e.result),
   ("timed_out", .bool e.timedOut),
   ("truncated", .bool e.truncated)]

/-- `json.dumps` of the entry. An entry holds no float. -/
def dumps : String := Json.dumps (fun _ => "") (.obj e.fields)

end JournalEntry

/-- The encoded journal. -/
def encodeJournal (entries : List JournalEntry) : String :=
  Json.dumps (fun _ => "") (.arr (entries.map fun e => .obj e.fields))

/-- The loop of `build_edit_journal_evidence`. -/
def checkEntries (pathCount ordinal : Nat) : List JournalEntry → Except String Unit
  | [] => .ok ()
  | e :: rest =>
    if e.ordinal ≠ ordinal then .error "invalid_edit_journal"
    else if e.pathsSorted = false then .error "invalid_edit_journal"
    else if 20000 < pathCount + e.actualChangedPaths.length then .error "edit_journal_path_limit"
    else if e.fieldsValid = false then .error "invalid_edit_journal"
    else checkEntries (pathCount + e.actualChangedPaths.length) (ordinal + 1) rest

/-- What the evidence of a journal says. -/
structure EditJournalEvidence where
  editJournal : List JournalEntry
  editJournalCount : Nat
  editJournalDigest : String

/-- `build_edit_journal_evidence`. -/
def buildEditJournalEvidence (sha256 : Sha256) (entries : List JournalEntry) : Except String EditJournalEvidence :=
  if 128 < entries.length then .error "edit_journal_entry_limit"
  else
    match checkEntries 0 0 entries with
    | .error message => .error message
    | .ok () =>
      let encoded := encodeJournal entries
      if 65536 < encoded.utf8ByteSize then .error "edit_journal_too_large"
      else .ok
        { editJournal := entries
          editJournalCount := entries.length
          editJournalDigest := sha256 ("lil-tweak-edit-journal-v1\x00".toUTF8.toList ++ encoded.toUTF8.toList) }

/-! ## Sizes -/

theorem size_intercalate (sep : String) : ∀ l : List String,
    (sep.intercalate l).utf8ByteSize = (l.map String.utf8ByteSize).sum + (l.length - 1) * sep.utf8ByteSize
  | [] => by simp
  | [s] => by simp
  | s :: t :: l => by
    have ih := size_intercalate sep (t :: l)
    rw [String.intercalate_cons_of_ne_nil (List.cons_ne_nil t l)]
    simp only [String.utf8ByteSize_append, ih, List.map_cons, List.sum_cons, List.length_cons,
      Nat.add_sub_cancel, Nat.add_mul]
    omega

theorem dumpsItems_eq_map (items : List Json) :
    Json.dumpsItems (fun _ => "") items = items.map (Json.dumps fun _ => "") := by
  induction items with
  | nil => rfl
  | cons item items ih => rw [Json.dumpsItems, ih, List.map_cons]

theorem size_encodeJournal (entries : List JournalEntry) : (encodeJournal entries).utf8ByteSize =
    2 + (entries.map fun e => e.dumps.utf8ByteSize).sum + (entries.length - 1) := by
  have hopen : ("[" : String).utf8ByteSize = 1 := by decide
  have hclose : ("]" : String).utf8ByteSize = 1 := by decide
  have hcomma : ("," : String).utf8ByteSize = 1 := by decide
  rw [encodeJournal, Json.dumps, dumpsItems_eq_map, String.utf8ByteSize_append, String.utf8ByteSize_append,
    size_intercalate, List.map_map, List.map_map, List.length_map, List.length_map, hopen, hclose, hcomma]
  change 1 + ((entries.map fun e => e.dumps.utf8ByteSize).sum + (entries.length - 1) * 1) + 1 = _
  omega

/-- The pairs of an object take their keys, their values and a colon each. -/
theorem size_pairs : ∀ keys texts : List String, keys.length = texts.length →
    (((keys.zip texts).map fun p => Json.quote p.1 ++ ":" ++ p.2).map String.utf8ByteSize).sum =
      (keys.map fun k => (Json.quote k).utf8ByteSize).sum + keys.length + (texts.map String.utf8ByteSize).sum
  | [], [], _ => rfl
  | key :: keys, text :: texts, h => by
    have ih := size_pairs keys texts (Nat.succ.inj h)
    have hcolon : (":" : String).utf8ByteSize = 1 := by decide
    simp only [List.zip_cons_cons, List.map_cons, List.sum_cons, String.utf8ByteSize_append, ih, hcolon,
      List.length_cons]
    omega

namespace JournalEntry

/-- The text of the paths of an entry. -/
def pathsText (paths : List String) : String :=
  Json.dumps (fun _ => "") (.arr (paths.map .str))

/-- The texts of the values of an entry, in the order of the keys. -/
def valueTexts (e : JournalEntry) : List String :=
  [pathsText e.actualChangedPaths, Json.quote e.afterSourceDigest, Json.quote e.beforeSourceDigest,
   Json.quote e.deltaDigest, Json.dumps (fun _ => "") (e.exitCode.elim .null .int), toString (e.ordinal : Int),
   Json.dumps (fun _ => "") (e.rejectionCode.elim .null .str), Json.quote e.result,
   Json.dumps (fun _ => "") (.bool e.timedOut), Json.dumps (fun _ => "") (.bool e.truncated)]

/-- The keys of an entry, sorted. -/
def keys : List String :=
  ["actual_changed_paths", "after_source_digest", "before_source_digest", "delta_digest", "exit_code", "ordinal",
   "rejection_code", "result", "timed_out", "truncated"]

theorem dumpsFields_fields (e : JournalEntry) : Json.dumpsFields (fun _ => "") e.fields = keys.zip e.valueTexts := rfl

/-- The keys are sorted already. -/
theorem sorted_keys (e : JournalEntry) : (keys.zip e.valueTexts).Pairwise Json.keyBefore := by
  have htrans : IsTrans (String × String) Json.keyBefore := ⟨fun _ _ _ hab hbc => @le_trans String _ _ _ _ hab hbc⟩
  apply List.IsChain.pairwise
  simp only [keys, valueTexts, List.zip_cons_cons, List.zip_nil_right, List.isChain_cons_cons, List.isChain_singleton,
    and_true, Json.keyBefore]
  decide

/-- An entry takes its values and 166 bytes around them. -/
theorem size_dumps (e : JournalEntry) :
    e.dumps.utf8ByteSize = 166 + (e.valueTexts.map String.utf8ByteSize).sum := by
  have hkeys : (keys.map fun k => (Json.quote k).utf8ByteSize).sum = 145 := by decide
  have hcolon : (":" : String).utf8ByteSize = 1 := by decide
  have hcomma : ("," : String).utf8ByteSize = 1 := by decide
  have hopen : ("\x7b" : String).utf8ByteSize = 1 := by decide
  have hclose : ("\x7d" : String).utf8ByteSize = 1 := by decide
  rw [dumps, Json.dumps, dumpsFields_fields, (sorted_keys e).insertionSort_eq, String.utf8ByteSize_append,
    String.utf8ByteSize_append, size_intercalate, hopen, hclose, hcomma]
  have hpairs := size_pairs keys e.valueTexts rfl
  have hzip : (keys.zip e.valueTexts).length = 10 := rfl
  have hlength : keys.length = 10 := rfl
  rw [List.length_map, hzip, hpairs, hkeys, hlength]
  omega

theorem size_pathsText (paths : List String) : (pathsText paths).utf8ByteSize =
    2 + (paths.map fun p => (Json.quote p).utf8ByteSize).sum + (paths.length - 1) := by
  have hopen : ("[" : String).utf8ByteSize = 1 := by decide
  have hclose : ("]" : String).utf8ByteSize = 1 := by decide
  have hcomma : ("," : String).utf8ByteSize = 1 := by decide
  rw [pathsText, Json.dumps, dumpsItems_eq_map, String.utf8ByteSize_append, String.utf8ByteSize_append,
    size_intercalate, List.map_map, List.map_map, List.length_map, List.length_map, hopen, hclose, hcomma]
  change 1 + ((paths.map fun p => (Json.quote p).utf8ByteSize).sum + (paths.length - 1) * 1) + 1 = _
  omega

/-- Fewer paths take fewer bytes. -/
theorem pathsText_mono {s t : Finset String} (h : s ⊆ t) :
    (pathsText (sortedPaths s)).utf8ByteSize ≤ (pathsText (sortedPaths t)).utf8ByteSize := by
  have hsum : ∀ u : Finset String, ((u.sort (· ≤ ·)).map fun p => (Json.quote p).utf8ByteSize).sum =
      ∑ p ∈ u, (Json.quote p).utf8ByteSize := fun u => by
    rw [← List.sum_toFinset _ (u.sort_nodup _), Finset.sort_toFinset]
  have hbytes : ∑ p ∈ s, (Json.quote p).utf8ByteSize ≤ ∑ p ∈ t, (Json.quote p).utf8ByteSize :=
    Finset.sum_le_sum_of_subset h
  have hcard := Finset.card_le_card h
  rw [sortedPaths, sortedPaths, size_pathsText, size_pathsText, hsum, hsum, Finset.length_sort, Finset.length_sort]
  omega

theorem size_escape_hexDigit {c : Char} (h : Recovery.hexDigit c = true) : (Json.escape c).utf8ByteSize = 1 := by
  have hrange : 48 ≤ c.toNat ∧ c.toNat ≤ 102 ∧ c.toNat ≠ 92 := by
    simp only [Recovery.hexDigit, Char.isDigit, Bool.or_eq_true, Bool.and_eq_true, decide_eq_true_eq, Char.le_def,
      UInt32.le_iff_toNat_le, ge_iff_le] at h
    simp only [Char.toNat]
    change (48 ≤ _ ∧ _ ≤ 57) ∨ (97 ≤ _ ∧ _ ≤ 102) at h
    omega
  have hne : ∀ d : Char, d.toNat < 48 ∨ d.toNat = 92 → c ≠ d := fun d hd hcd => by
    rw [hcd] at hrange
    omega
  have hsize : c.utf8Size = 1 := by
    simp only [Char.utf8Size, UInt32.le_iff_toNat_le]
    have : c.val.toNat ≤ 127 := by change c.toNat ≤ 127; omega
    exact if_pos this
  rw [Json.escape, if_neg (hne _ (by decide)), if_neg (hne _ (by decide)), if_neg (hne _ (by decide)),
    if_neg (hne _ (by decide)), if_neg (hne _ (by decide)), if_neg (hne _ (by decide)), if_neg (hne _ (by decide)),
    if_neg (by omega), Json.size_singleton, hsize]

/-- A quoted digest takes 66 bytes. -/
theorem size_quote_digest {s : String} (h : digestShape s = true) : (Json.quote s).utf8ByteSize = 66 := by
  simp only [digestShape, Bool.and_eq_true, beq_iff_eq, List.all_eq_true] at h
  have hone : ∀ l : List Char, (∀ c ∈ l, Recovery.hexDigit c = true) →
      ((l.map Json.escape).map String.utf8ByteSize).sum = l.length := by
    intro l hl
    induction l with
    | nil => rfl
    | cons c l ih =>
      have hc := size_escape_hexDigit (hl c List.mem_cons_self)
      have hrest := ih fun d hd => hl d (List.mem_cons_of_mem c hd)
      simp only [List.map_cons, List.sum_cons, List.length_cons, hc, hrest]
      omega
  have hquote : ("\"" : String).utf8ByteSize = 1 := by decide
  rw [Json.quote, String.utf8ByteSize_append, String.utf8ByteSize_append, Json.size_join, hone _ h.2, h.1, hquote]

end JournalEntry

/-! ## The journals the evidence accepts -/

/-- A journal `build_edit_journal_evidence` accepts. -/
structure Acceptable (entries : List JournalEntry) : Prop where
  length_le : entries.length ≤ 128
  numbered : entries.map JournalEntry.ordinal = List.range entries.length
  valid : ∀ e ∈ entries, e.pathsSorted = true ∧ e.fieldsValid = true
  paths_le : (entries.map fun e => e.actualChangedPaths.length).sum ≤ 20000
  bytes_le : (encodeJournal entries).utf8ByteSize ≤ 65536

theorem checkEntries_ok_iff {pathCount : Nat} (h : pathCount ≤ 20000) (ordinal : Nat) (entries : List JournalEntry) :
    checkEntries pathCount ordinal entries = .ok () ↔
      entries.map JournalEntry.ordinal = List.range' ordinal entries.length ∧
      (∀ e ∈ entries, e.pathsSorted = true ∧ e.fieldsValid = true) ∧
      pathCount + (entries.map fun e => e.actualChangedPaths.length).sum ≤ 20000 := by
  induction entries generalizing pathCount ordinal with
  | nil => simp [checkEntries, h]
  | cons e entries ih =>
    simp only [checkEntries, List.map_cons, List.length_cons, List.range'_succ, List.cons.injEq, List.forall_mem_cons,
      List.sum_cons]
    split
    · next ho => simp [ho]
    split
    · next hp => simp [hp]
    split
    · next hc =>
      simp only [reduceCtorEq, false_iff]
      omega
    split
    · next hf => simp [hf]
    · next ho hp hc hf =>
      rw [ih (by omega)]
      simp only [Bool.not_eq_false] at hp hf
      simp only [not_not] at ho
      simp only [ho, hp, hf, true_and, and_self, Nat.add_assoc]

theorem buildEditJournalEvidence_ok_iff (sha256 : Sha256) (entries : List JournalEntry) :
    (buildEditJournalEvidence sha256 entries).isOk = true ↔ Acceptable entries := by
  have hcheck := checkEntries_ok_iff (Nat.zero_le 20000) 0 entries
  rw [← List.range_eq_range', Nat.zero_add] at hcheck
  unfold buildEditJournalEvidence
  split
  · next hlength => exact ⟨fun h => absurd h (by decide), fun h => absurd h.length_le (by omega)⟩
  · next hlength =>
    cases hresult : checkEntries 0 0 entries with
    | error message =>
      refine ⟨fun h => absurd h (by simp [Except.isOk, Except.toBool]), fun h => ?_⟩
      rw [hcheck.mpr ⟨h.numbered, h.valid, h.paths_le⟩] at hresult
      cases hresult
    | ok u =>
      obtain ⟨hnumbered, hvalid, hpaths⟩ := hcheck.mp hresult
      dsimp only
      split
      · next hbytes => exact ⟨fun h => absurd h (by simp [Except.isOk, Except.toBool]), fun h => absurd h.bytes_le (by omega)⟩
      · next hbytes =>
        exact ⟨fun _ => ⟨by omega, hnumbered, hvalid, hpaths, by omega⟩, fun _ => rfl⟩

namespace Acceptable

/-- An entry can be put in the place of another that takes no less room. -/
theorem replace {l t : List JournalEntry} {e f : JournalEntry} (h : Acceptable (l ++ f :: t))
    (hordinal : e.ordinal = f.ordinal) (hvalid : e.pathsSorted = true ∧ e.fieldsValid = true)
    (hpaths : e.actualChangedPaths.length ≤ f.actualChangedPaths.length)
    (hbytes : e.dumps.utf8ByteSize ≤ f.dumps.utf8ByteSize) : Acceptable (l ++ e :: t) := by
  obtain ⟨hlength, hnumbered, hall, hcount, hsize⟩ := h
  rw [size_encodeJournal] at hsize
  simp only [List.length_append, List.length_cons, List.map_append, List.map_cons, List.sum_append, List.sum_cons,
    List.forall_mem_append, List.forall_mem_cons] at hlength hnumbered hall hcount hsize
  refine ⟨?_, ?_, ?_, ?_, ?_⟩
  · simpa using hlength
  · simpa [hordinal] using hnumbered
  · simpa only [List.forall_mem_append, List.forall_mem_cons] using ⟨hall.1, hvalid, hall.2.2⟩
  · simp only [List.map_append, List.map_cons, List.sum_append, List.sum_cons]
    omega
  · rw [size_encodeJournal]
    simp only [List.length_append, List.length_cons, List.map_append, List.map_cons, List.sum_append, List.sum_cons]
    omega

/-- The front of an accepted journal is accepted. -/
theorem front {l t : List JournalEntry} (h : Acceptable (l ++ t)) : Acceptable l := by
  obtain ⟨hlength, hnumbered, hall, hcount, hsize⟩ := h
  rw [size_encodeJournal] at hsize
  simp only [List.length_append, List.map_append, List.sum_append] at hlength hnumbered hcount hsize
  refine ⟨by omega, ?_, fun e he => hall e (List.mem_append_left t he), by omega, ?_⟩
  · rw [List.range_add] at hnumbered
    exact (List.append_inj hnumbered (by simp)).1
  · rw [size_encodeJournal]
    omega

end Acceptable

end LilTweak.Agent
