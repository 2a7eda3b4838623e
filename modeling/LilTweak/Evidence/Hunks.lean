import LilTweak.Evidence.Lines
import LilTweak.Evidence.Matching
import LilTweak.Evidence.Printing

/-!
# The hunks of a unified diff

Every group of opcodes is printed as a hunk that is valid, and the hunks lead
from the old lines to the new ones. What stands behind the last hunk is the same
on both sides and is never looked at.
-/

namespace LilTweak.Evidence

open LilTweak.Lib

/-! ## Slices -/

section
variable {α : Type*}

theorem slice_self (l : List α) (i : Nat) : slice l i i = [] := by
  rw [slice, Nat.sub_self, List.take_zero]

theorem slice_append (l : List α) {i j k : Nat} (hij : i ≤ j) (hjk : j ≤ k) :
    slice l i j ++ slice l j k = slice l i k := by
  have hdrop : l.drop j = (l.drop i).drop (j - i) := by
    rw [List.drop_drop]
    congr 1
    omega
  rw [slice, slice, slice, hdrop, show k - i = (j - i) + (k - j) by omega, List.take_add]

theorem slice_length {l : List α} {i j : Nat} (hj : j ≤ l.length) : (slice l i j).length = j - i := by
  rw [slice, List.length_take, List.length_drop]
  omega

theorem slice_zero (l : List α) (k : Nat) : slice l 0 k = l.take k := by
  rw [slice, List.drop_zero, Nat.sub_zero]

/-- A slice that begins and ends earlier is part of a prefix. -/
theorem mem_take_of_mem_slice {l : List α} {x : α} {i j k : Nat} (hj : j ≤ k)
    (h : x ∈ slice l i j) : x ∈ l.take k := by
  by_cases hij : i ≤ j
  · rw [← slice_zero, ← slice_append l (Nat.zero_le i) (by omega : i ≤ k), ← slice_append l hij hj]
    exact List.mem_append_right _ (List.mem_append_left _ h)
  · rw [slice, show j - i = 0 by omega, List.take_zero] at h
    cases h

end

/-! ## Marked lines -/

variable (a b : List Text)

/-- The lines of an opcode with what the diff says about them. -/
def opcodeMarks (o : Opcode) : List (Marker × Text) :=
  match o.tag with
  | .equal => (slice a o.i1 o.i2).map (.keep, ·)
  | .replace => (slice a o.i1 o.i2).map (.drop, ·) ++ (slice b o.j1 o.j2).map (.add, ·)
  | .delete => (slice a o.i1 o.i2).map (.drop, ·)
  | .insert => (slice b o.j1 o.j2).map (.add, ·)

/-- The hunk a group of opcodes stands for. -/
def hunkOf (g : List Opcode) : Hunk :=
  let (i1, i2, j1, j2) := groupSpan g
  { oldStart := if i2 - i1 = 0 then i1 else i1 + 1
    oldLen := i2 - i1
    newStart := if j2 - j1 = 0 then j1 else j1 + 1
    newLen := j2 - j1
    body := (g.flatMap (opcodeMarks a b)).map fun e => (e.1, content e.2) }

theorem opcodeLines_eq (o : Opcode) :
    opcodeLines a b o = (opcodeMarks a b o).map fun e => e.1.char :: e.2 := by
  unfold opcodeLines opcodeMarks
  cases o.tag <;> simp [Marker.char, Function.comp_def]

/-- Where the last group ends, in both sequences. -/
def hunksEnd : Nat → Nat → List (List Opcode) → Nat × Nat
  | i, j, [] => (i, j)
  | _, _, g :: gs => hunksEnd (groupSpan g).2.1 (groupSpan g).2.2.2 gs

variable {a b}

theorem Chain.le {g : List Opcode} : ∀ {i j i' j' : Nat}, Chain a b i j g i' j' → i ≤ i' ∧ j ≤ j' := by
  induction g with
  | nil =>
    rintro i j i' j' ⟨rfl, rfl⟩
    exact ⟨Nat.le_refl _, Nat.le_refl _⟩
  | cons o os ih =>
    rintro i j i' j' ⟨⟨rfl, rfl⟩, ho, h⟩
    have h1 := ho.1
    have h2 := ho.2.1
    have h3 := ih h
    omega

theorem Chain.bound {g : List Opcode} : ∀ {i j i' j' : Nat}, Chain a b i j g i' j' → g ≠ [] →
    i' ≤ a.length ∧ j' ≤ b.length := by
  induction g with
  | nil => intro i j i' j' _ hne; exact absurd rfl hne
  | cons o os ih =>
    rintro i j i' j' ⟨⟨rfl, rfl⟩, ho, h⟩ -
    by_cases hos : os = []
    · subst hos
      obtain ⟨rfl, rfl⟩ := h
      exact ⟨ho.2.2.1, ho.2.2.2.1⟩
    · exact ih h hos

theorem Chain.last {g : List Opcode} : ∀ {i j i' j' : Nat}, Chain a b i j g i' j' → g ≠ [] →
    ∃ o, g.getLast? = some o ∧ o.i2 = i' ∧ o.j2 = j' := by
  induction g with
  | nil => intro i j i' j' _ hne; exact absurd rfl hne
  | cons o os ih =>
    rintro i j i' j' ⟨⟨rfl, rfl⟩, ho, h⟩ -
    by_cases hos : os = []
    · subst hos
      obtain ⟨rfl, rfl⟩ := h
      exact ⟨o, rfl, rfl, rfl⟩
    · obtain ⟨o', hlast, h'⟩ := ih h hos
      exact ⟨o', by rw [List.getLast?_cons, hlast]; rfl, h'⟩

/-- A group spans the ranges it leads through. -/
theorem Chain.span {g : List Opcode} {i j i' j' : Nat} (h : Chain a b i j g i' j') (hne : g ≠ []) :
    groupSpan g = (i, i', j, j') := by
  obtain ⟨o, hlast, rfl, rfl⟩ := h.last hne
  cases g with
  | nil => exact absurd rfl hne
  | cons o' os =>
    obtain ⟨⟨rfl, rfl⟩, -⟩ := h
    rw [groupSpan, hlast]
    rfl

theorem Covers.ends {i j : Nat} {gs : List (List Opcode)} (h : Covers a b i j gs) :
    i ≤ (hunksEnd i j gs).1 ∧ j ≤ (hunksEnd i j gs).2 ∧
      Gap a b (hunksEnd i j gs).1 (hunksEnd i j gs).2 a.length b.length := by
  induction h with
  | done hgap => exact ⟨Nat.le_refl _, Nat.le_refl _, hgap⟩
  | group hgap hne hg _ ih =>
    have hle := hg.le
    have h1 := hgap.1
    have h2 := hgap.2.1
    rw [hunksEnd, hg.span hne]
    simp only
    exact ⟨by omega, by omega, ih.2.2⟩

theorem Covers.group_chain {i j : Nat} {gs : List (List Opcode)} (h : Covers a b i j gs) :
    ∀ g ∈ gs, ∃ i1 j1 i2 j2, g ≠ [] ∧ Chain a b i1 j1 g i2 j2 := by
  induction h with
  | done => intro g hg; cases hg
  | group hgap hne hg _ ih =>
    intro g hmem
    rcases List.mem_cons.mp hmem with rfl | hmem
    · exact ⟨_, _, _, _, hne, hg⟩
    · exact ih g hmem

/-! ## Counting -/

theorem opcodeMarks_counts {o : Opcode} (ho : o.Sound a b) :
    ((opcodeMarks a b o).map fun e => e.1.old).sum = o.i2 - o.i1 ∧
      ((opcodeMarks a b o).map fun e => e.1.new).sum = o.j2 - o.j1 := by
  obtain ⟨h1, h2, h3, h4, h5⟩ := ho
  have hsum : ∀ (n : Nat) (l : List Text), (l.map fun _ => n).sum = l.length * n := by
    intro n l
    simp
  have ha := slice_length (l := a) (i := o.i1) h3
  have hb := slice_length (l := b) (i := o.j1) h4
  unfold opcodeMarks
  cases ht : o.tag <;> rw [ht] at h5 <;>
    simp only [List.map_append, List.map_map, Function.comp_def, Marker.old, Marker.new,
      List.sum_append, hsum, ha, hb] <;> simp only at h5 <;> omega

theorem Chain.counts {g : List Opcode} : ∀ {i j i' j' : Nat}, Chain a b i j g i' j' →
    ((g.flatMap (opcodeMarks a b)).map fun e => e.1.old).sum = i' - i ∧
      ((g.flatMap (opcodeMarks a b)).map fun e => e.1.new).sum = j' - j := by
  induction g with
  | nil =>
    rintro i j i' j' ⟨rfl, rfl⟩
    simp
  | cons o os ih =>
    rintro i j i' j' ⟨⟨rfl, rfl⟩, ho, h⟩
    have hone := opcodeMarks_counts ho
    have hle := h.le
    have h1 := ho.1
    have h2 := ho.2.1
    rw [List.flatMap_cons, List.map_append, List.sum_append, List.map_append, List.sum_append,
      hone.1, hone.2, (ih h).1, (ih h).2]
    omega

/-- A line the diff shows is a line of one of the sides, in front of where it ends. -/
theorem mem_opcodeMarks {o : Opcode} {e : Marker × Text} (h : e ∈ opcodeMarks a b o) :
    e.2 ∈ a.take o.i2 ++ b.take o.j2 := by
  have hold : ∀ m : Marker, e ∈ (slice a o.i1 o.i2).map (m, ·) → e.2 ∈ a.take o.i2 := by
    intro m h
    obtain ⟨l, hl, rfl⟩ := List.mem_map.mp h
    exact mem_take_of_mem_slice (Nat.le_refl _) hl
  have hnew : ∀ m : Marker, e ∈ (slice b o.j1 o.j2).map (m, ·) → e.2 ∈ b.take o.j2 := by
    intro m h
    obtain ⟨l, hl, rfl⟩ := List.mem_map.mp h
    exact mem_take_of_mem_slice (Nat.le_refl _) hl
  rw [List.mem_append]
  unfold opcodeMarks at h
  split at h
  · exact .inl (hold _ h)
  · rcases List.mem_append.mp h with h | h
    · exact .inl (hold _ h)
    · exact .inr (hnew _ h)
  · exact .inl (hold _ h)
  · exact .inr (hnew _ h)

theorem Chain.mem_marks {g : List Opcode} : ∀ {i j i' j' : Nat}, Chain a b i j g i' j' →
    ∀ e ∈ g.flatMap (opcodeMarks a b), e.2 ∈ a.take i' ++ b.take j' := by
  induction g with
  | nil => intro i j i' j' _ e he; cases he
  | cons o os ih =>
    rintro i j i' j' ⟨⟨rfl, rfl⟩, ho, h⟩ e he
    rw [List.flatMap_cons] at he
    rcases List.mem_append.mp he with he | he
    · have hle := h.le
      rcases List.mem_append.mp (mem_opcodeMarks he) with hm | hm
      · exact List.mem_append_left _ (List.take_subset_take_left _ hle.1 hm)
      · exact List.mem_append_right _ (List.take_subset_take_left _ hle.2 hm)
    · exact ih h e he

/-- Every line the groups show lies in front of where they end. -/
theorem Covers.mem_marks {i j : Nat} {gs : List (List Opcode)} (h : Covers a b i j gs) :
    ∀ g ∈ gs, ∀ e ∈ g.flatMap (opcodeMarks a b),
      e.2 ∈ a.take (hunksEnd i j gs).1 ++ b.take (hunksEnd i j gs).2 := by
  induction h with
  | done => intro g hg; cases hg
  | group hgap hne hg h ih =>
    rw [hunksEnd, hg.span hne]
    intro g hmem e he
    rcases List.mem_cons.mp hmem with rfl | hmem
    · have hle := h.ends
      rcases List.mem_append.mp (hg.mem_marks e he) with hm | hm
      · exact List.mem_append_left _ (List.take_subset_take_left _ hle.1 hm)
      · exact List.mem_append_right _ (List.take_subset_take_left _ hle.2.1 hm)
    · exact ih g hmem e he

/-! ## Applying -/

theorem applyBody_keep (ls : List Bytes) (body : List (Marker × Bytes)) (rest : List Bytes) :
    applyBody (ls.map (.keep, ·) ++ body) (ls ++ rest) =
      (applyBody body rest).map fun r => (ls ++ r.1, r.2) := by
  induction ls with
  | nil => simp
  | cons l ls ih =>
    simp only [List.map_cons, List.cons_append, applyBody, if_true, ih, Option.map_map]
    rfl

theorem applyBody_drop (ls : List Bytes) (body : List (Marker × Bytes)) (rest : List Bytes) :
    applyBody (ls.map (.drop, ·) ++ body) (ls ++ rest) = applyBody body rest := by
  induction ls with
  | nil => rfl
  | cons l ls ih => simp only [List.map_cons, List.cons_append, applyBody, if_true, ih]

theorem applyBody_add (ls : List Bytes) (body : List (Marker × Bytes)) (rest : List Bytes) :
    applyBody (ls.map (.add, ·) ++ body) rest =
      (applyBody body rest).map fun r => (ls ++ r.1, r.2) := by
  induction ls with
  | nil => simp
  | cons l ls ih =>
    simp only [List.map_cons, List.cons_append, applyBody, ih, Option.map_map]
    rfl

/-- The lines of one opcode turn its old range into its new one. -/
theorem applyBody_opcode {o : Opcode} (ho : o.Sound a b) (body : List (Marker × Bytes))
    (rest : List Bytes) :
    applyBody ((opcodeMarks a b o).map (fun e => (e.1, content e.2)) ++ body)
        ((slice a o.i1 o.i2).map content ++ rest) =
      (applyBody body rest).map fun r => ((slice b o.j1 o.j2).map content ++ r.1, r.2) := by
  have hmap : ∀ (m : Marker) (ls : List Text),
      (ls.map (m, ·)).map (fun e => (e.1, content e.2)) = (ls.map content).map (m, ·) := by
    intro m ls
    simp [Function.comp_def]
  obtain ⟨h1, h2, -, -, h5⟩ := ho
  unfold opcodeMarks
  cases ht : o.tag with
  | equal =>
    rw [ht] at h5
    have heq := h5.2.slice_eq
    rw [show o.i1 + (o.i2 - o.i1) = o.i2 by omega, show o.j1 + (o.i2 - o.i1) = o.j2 by omega] at heq
    rw [← heq]
    simp only [hmap]
    exact applyBody_keep _ _ _
  | replace =>
    simp only [List.map_append, hmap, List.append_assoc]
    rw [applyBody_drop, applyBody_add]
  | delete =>
    rw [ht] at h5
    simp only at h5
    simp only [hmap]
    rw [applyBody_drop, h5, slice_self]
    simp
  | insert =>
    rw [ht] at h5
    simp only at h5
    simp only [hmap]
    rw [h5, slice_self, List.map_nil, List.nil_append]
    exact applyBody_add _ _ _

theorem applyBody_chain {g : List Opcode} (rest : List Bytes) : ∀ {i j i' j' : Nat},
    Chain a b i j g i' j' →
    applyBody ((g.flatMap (opcodeMarks a b)).map fun e => (e.1, content e.2))
      ((slice a i i').map content ++ rest) = some ((slice b j j').map content, rest) := by
  induction g with
  | nil =>
    rintro i j i' j' ⟨rfl, rfl⟩
    rw [slice_self, slice_self]
    rfl
  | cons o os ih =>
    rintro i j i' j' ⟨⟨rfl, rfl⟩, ho, h⟩
    have hle := h.le
    rw [← slice_append a ho.1 hle.1, ← slice_append b ho.2.1 hle.2, List.map_append, List.map_append,
      List.append_assoc, List.flatMap_cons, List.map_append, applyBody_opcode ho, ih h]
    rfl

theorem linesBefore_start (i n : Nat) : linesBefore (if n = 0 then i else i + 1) n = i := by
  unfold linesBefore
  split <;> omega

/-- The hunks turn the old lines into the new ones, up to where they end. -/
theorem applyHunks_covers (rest : List Bytes) {i j : Nat} {gs : List (List Opcode)}
    (h : Covers a b i j gs) :
    applyHunks i j ((slice a i (hunksEnd i j gs).1).map content ++ rest) (gs.map (hunkOf a b)) =
      some ((slice b j (hunksEnd i j gs).2).map content ++ rest) := by
  induction h with
  | done =>
    rw [hunksEnd, slice_self, slice_self]
    rfl
  | @group i j i1 j1 i2 j2 g gs hgap hne hg h ih =>
    obtain ⟨h1, h2, h3, hagree⟩ := hgap
    have hspan := hg.span hne
    have hle := hg.le
    have hends := h.ends
    rw [hunksEnd, hspan]
    simp only
    have hold : (slice a i (hunksEnd i2 j2 gs).1).map content ++ rest =
        (slice a i i1).map content ++ ((slice a i1 i2).map content ++
          ((slice a i2 (hunksEnd i2 j2 gs).1).map content ++ rest)) := by
      rw [← slice_append a h1 (by omega : i1 ≤ (hunksEnd i2 j2 gs).1),
        ← slice_append a hle.1 hends.1]
      simp
    have hnew : (slice b j (hunksEnd i2 j2 gs).2).map content ++ rest =
        (slice b j j1).map content ++ ((slice b j1 j2).map content ++
          ((slice b j2 (hunksEnd i2 j2 gs).2).map content ++ rest)) := by
      rw [← slice_append b h2 (by omega : j1 ≤ (hunksEnd i2 j2 gs).2),
        ← slice_append b hle.2 hends.2.1]
      simp
    have hsame : slice a i i1 = slice b j j1 := by
      have heq := hagree.slice_eq
      rwa [show i + (i1 - i) = i1 by omega, show j + (i1 - i) = j1 by omega] at heq
    have hlen : ((slice a i i1).map content).length = i1 - i := by
      have hl := hagree.left
      rw [List.length_map, slice_length (by omega)]
    rw [hold, hnew, List.map_cons, applyHunks]
    simp only [hunkOf, hspan, linesBefore_start]
    rw [if_pos ⟨h1, by rw [List.length_append, hlen]; omega, by omega⟩, ← hlen, List.drop_left,
      List.take_left, hlen, applyBody_chain _ hg]
    simp only
    rw [show i + (i1 - i) + (i2 - i1) = i2 by omega, show j + (i1 - i) + (j2 - j1) = j2 by omega, ih,
      hsame]
    simp

end LilTweak.Evidence
