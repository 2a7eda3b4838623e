import LilTweak.Lib.PyJsonSort
import Mathlib

/-!
# Streams of framed pieces

A piece behind a mark of fixed width that tells its length can be cut off the front of a stream again,
whatever its content looks like. A map written as its entries in the order of their keys, each piece
framed, is therefore told by its stream.
-/

namespace LilTweak.Lib

/-! ## One piece -/

section
variable {β : Type*} {mark : ℕ → List β} {width bound : ℕ}

/-- The marks of a width tell the lengths below a bound. -/
structure TellsLengths (mark : ℕ → List β) (width bound : ℕ) : Prop where
  width : ∀ n, (mark n).length = width
  injective : ∀ m < bound, ∀ n < bound, mark m = mark n → m = n

/-- A piece behind its length. -/
def framed (mark : ℕ → List β) (piece : List β) : List β := mark piece.length ++ piece

theorem framed_cancel (h : TellsLengths mark width bound) {a b s t : List β} (ha : a.length < bound)
    (hb : b.length < bound) (heq : framed mark a ++ s = framed mark b ++ t) : a = b ∧ s = t := by
  unfold framed at heq
  rw [List.append_assoc, List.append_assoc] at heq
  obtain ⟨hmark, hrest⟩ := List.append_inj heq (by rw [h.width, h.width])
  exact List.append_inj hrest (h.injective _ ha _ hb hmark)

/-- A framed piece has at least the width of its mark. -/
theorem framed_ne_nil (h : TellsLengths mark width bound) (hwidth : 0 < width) (piece : List β) :
    framed mark piece ≠ [] := by
  intro hnil
  have hlength := congrArg List.length hnil
  rw [framed, List.length_append, h.width, List.length_nil] at hlength
  omega

/-- Pairs of framed pieces are told by their stream. -/
theorem framedPairs_injective (h : TellsLengths mark width bound) (hwidth : 0 < width) {l m : List (List β × List β)}
    (hl : ∀ p ∈ l, p.1.length < bound ∧ p.2.length < bound) (hm : ∀ p ∈ m, p.1.length < bound ∧ p.2.length < bound)
    (heq : (l.flatMap fun p => framed mark p.1 ++ framed mark p.2) = m.flatMap fun p => framed mark p.1 ++ framed mark p.2) :
    l = m := by
  induction l generalizing m with
  | nil =>
    cases m with
    | nil => rfl
    | cons q m =>
      rw [List.flatMap_nil, List.flatMap_cons] at heq
      have hnil := List.append_eq_nil_iff.mp (List.append_eq_nil_iff.mp heq.symm).1
      exact absurd hnil.1 (framed_ne_nil h hwidth q.1)
  | cons p l ih =>
    cases m with
    | nil =>
      rw [List.flatMap_nil, List.flatMap_cons] at heq
      have hnil := List.append_eq_nil_iff.mp (List.append_eq_nil_iff.mp heq).1
      exact absurd hnil.1 (framed_ne_nil h hwidth p.1)
    | cons q m =>
      obtain ⟨hp, hl⟩ := List.forall_mem_cons.mp hl
      obtain ⟨hq, hm⟩ := List.forall_mem_cons.mp hm
      rw [List.flatMap_cons, List.flatMap_cons, List.append_assoc, List.append_assoc] at heq
      obtain ⟨hname, hbehind⟩ := framed_cancel h hp.1 hq.1 heq
      obtain ⟨hcontent, hrest⟩ := framed_cancel h hp.2 hq.2 hbehind
      rw [ih hl hm hrest, Prod.ext hname hcontent]

end

/-! ## Entries in the order of their keys -/

section
variable {κ α : Type*} [LinearOrder κ]

/-- The entries of a map in the order of their keys. -/
def Dict.sorted (d : Dict κ α) : List (κ × α) := d.entries.insertionSort fun a b => a.1 ≤ b.1

/-- Sorted by distinct keys a list of entries has one order. -/
theorem Entries.sorted_eq_of_perm {l l' : List (κ × α)} (hnodup : (l.map Prod.fst).Nodup) (h : l.Perm l') :
    l.insertionSort (fun a b => a.1 ≤ b.1) = l'.insertionSort fun a b => a.1 ≤ b.1 := by
  have hl : (l.insertionSort fun a b => a.1 ≤ b.1).Perm l := List.perm_insertionSort _ l
  have hl' : (l'.insertionSort fun a b => a.1 ≤ b.1).Perm l' := List.perm_insertionSort _ l'
  have hsame := hl.trans (h.trans hl'.symm)
  apply hsame.eq_of_pairwise _ (List.pairwise_insertionSort _ l) (List.pairwise_insertionSort _ l')
  intro a b ha hb hab hba
  have hkey : a.1 = b.1 := le_antisymm hab hba
  exact List.inj_on_of_nodup_map hnodup (hl.subset ha) (hl.subset (hsame.symm.subset hb)) hkey

/-- Two maps have the same sorted entries exactly when every key is found alike in them. -/
theorem Dict.sorted_eq_iff {d e : Dict κ α} : d.sorted = e.sorted ↔ ∀ k, d.get? k = e.get? k := by
  constructor
  · intro h k
    have hperm : d.entries.Perm e.entries :=
      (List.perm_insertionSort _ d.entries).symm.trans ((List.Perm.of_eq h).trans (List.perm_insertionSort _ e.entries))
    exact Entries.lookup_perm d.nodup hperm k
  · intro h
    refine Entries.sorted_eq_of_perm d.nodup ?_
    apply (List.perm_ext_iff_of_nodup d.nodup.of_map e.nodup.of_map).mpr
    intro p
    obtain ⟨k, v⟩ := p
    rw [d.mem_entries_iff, e.mem_entries_iff, h]

/-- The values are changed in their places. -/
theorem Dict.sorted_mapValues {β : Type*} (d : Dict κ α) (f : α → β) :
    (d.mapValues f).sorted = d.sorted.map fun e => (e.1, f e.2) := by
  unfold Dict.sorted Dict.mapValues
  exact (List.map_insertionSort (fun a b : κ × α => a.1 ≤ b.1) (fun a b : κ × β => a.1 ≤ b.1) (fun e => (e.1, f e.2))
    d.entries fun _ _ _ _ => Iff.rfl).symm

end

end LilTweak.Lib
