import LilTweak.Evidence.Difflib
import Mathlib.Order.Basic
import Mathlib.Order.Nat

/-!
# The opcodes cover both sequences

Every block `difflib` finds is a match, the blocks ascend in both sequences, and
so the opcodes lead from the start of both to their ends. The groups are chains
of opcodes between which, before which and after which the sequences agree.
-/

namespace LilTweak.Evidence

open LilTweak.Lib

variable {α : Type*} [DecidableEq α] {a b : List α}

/-- `a[i:i+k] == b[j:j+k]`, both inside their sequence. -/
structure Agree (a b : List α) (i j k : Nat) : Prop where
  left : i + k ≤ a.length
  right : j + k ≤ b.length
  eq : ∀ t < k, a[i + t]? = b[j + t]?

omit [DecidableEq α] in
theorem Agree.zero {i j : Nat} (hi : i ≤ a.length) (hj : j ≤ b.length) : Agree a b i j 0 :=
  ⟨hi, hj, fun _ ht => absurd ht (Nat.not_lt_zero _)⟩

omit [DecidableEq α] in
theorem Agree.append {i j k l : Nat} (h : Agree a b i j k) (h' : Agree a b (i + k) (j + k) l) :
    Agree a b i j (k + l) := by
  refine ⟨by have := h'.left; omega, by have := h'.right; omega, fun t ht => ?_⟩
  by_cases hk : t < k
  · exact h.eq t hk
  · have h2 := h'.eq (t - k) (by omega)
    rwa [show i + k + (t - k) = i + t by omega, show j + k + (t - k) = j + t by omega] at h2

omit [DecidableEq α] in
theorem Agree.initial {i j k l : Nat} (h : Agree a b i j k) (hl : l ≤ k) : Agree a b i j l :=
  ⟨by have := h.left; omega, by have := h.right; omega, fun t ht => h.eq t (by omega)⟩

omit [DecidableEq α] in
theorem Agree.final {i j k l : Nat} (h : Agree a b i j k) (hl : l ≤ k) :
    Agree a b (i + l) (j + l) (k - l) := by
  refine ⟨by have := h.left; omega, by have := h.right; omega, fun t ht => ?_⟩
  rw [Nat.add_assoc, Nat.add_assoc]
  exact h.eq (l + t) (by omega)

omit [DecidableEq α] in
/-- Agreeing ranges are equal slices. -/
theorem Agree.slice_eq {i j k : Nat} (h : Agree a b i j k) :
    slice a i (i + k) = slice b j (j + k) := by
  apply List.ext_getElem?
  intro t
  simp only [slice, List.getElem?_take, List.getElem?_drop, Nat.add_sub_cancel_left]
  split
  · next ht => exact h.eq t ht
  · rfl

/-! ## Blocks -/

/-- The match lies in the ranges `a[alo:ahi]` and `b[blo:bhi]`. -/
structure Match.Within (m : Match) (a b : List α) (alo ahi blo bhi : Nat) : Prop where
  left : alo ≤ m.i
  left' : m.i + m.size ≤ ahi
  right : blo ≤ m.j
  right' : m.j + m.size ≤ bhi
  agree : Agree a b m.i m.j m.size

section ranges
variable {alo ahi blo bhi : Nat}

theorem mem_b2j {x : α} {j : Nat} (h : j ∈ b2j b x) : b[j]? = some x := by
  have hmem : j ∈ indices b x := by
    unfold b2j at h
    split at h
    · cases h
    · exact h
  simp only [indices, List.mem_map, List.mem_filter, decide_eq_true_eq] at hmem
  obtain ⟨⟨y, j'⟩, ⟨hz, rfl⟩, rfl⟩ := hmem
  exact List.mk_mem_zipIdx_iff_getElem?.mp hz

/-- The lengths of a row belong to matches that end right before row `i`. -/
def RowOk (a b : List α) (alo ahi blo bhi i : Nat) (row : List (Nat × Nat)) : Prop :=
  ∀ e ∈ row, 0 < e.2 ∧ e.2 ≤ i ∧ e.2 ≤ e.1 + 1 ∧
    Match.Within ⟨i - e.2, e.1 + 1 - e.2, e.2⟩ a b alo ahi blo bhi

omit [DecidableEq α] in
theorem extend_within (hb : bhi ≤ b.length) (ha : ahi ≤ a.length) {i j : Nat} {x : α}
    {j2len : List (Nat × Nat)} (hrow : RowOk a b alo ahi blo bhi i j2len) (hi : alo ≤ i)
    (hi' : i < ahi) (hx : a[i]? = some x) (hj : b[j]? = some x) (hj1 : blo ≤ j) (hj2 : j < bhi) :
    0 < Scan.extend j2len j ∧ Scan.extend j2len j ≤ i + 1 ∧ Scan.extend j2len j ≤ j + 1 ∧
      Match.Within ⟨i + 1 - Scan.extend j2len j, j + 1 - Scan.extend j2len j,
        Scan.extend j2len j⟩ a b alo ahi blo bhi := by
  have one : Match.Within ⟨i, j, 1⟩ a b alo ahi blo bhi := by
    refine ⟨hi, hi', hj1, hj2, by simp only; omega, by simp only; omega, fun t ht => ?_⟩
    obtain rfl : t = 0 := Nat.lt_one_iff.mp ht
    simp only [Nat.add_zero, hx, hj]
  cases j with
  | zero => exact ⟨Nat.one_pos, by simp [Scan.extend], by simp [Scan.extend], by simpa [Scan.extend] using one⟩
  | succ j =>
    cases hl : Entries.lookup j j2len with
    | none =>
      have hk : Scan.extend j2len (j + 1) = 1 := by simp [Scan.extend, hl]
      rw [hk]
      exact ⟨Nat.one_pos, by omega, by omega, by simpa using one⟩
    | some k =>
      have hk : Scan.extend j2len (j + 1) = k + 1 := by simp [Scan.extend, hl]
      obtain ⟨hpos, hki, hkj, hw⟩ := hrow (j, k) (Entries.mem_of_lookup hl)
      rw [hk]
      simp only at hpos hki hkj hw
      refine ⟨Nat.succ_pos k, by omega, by omega, ?_⟩
      have h1 := hw.left
      have h2 := hw.right
      simp only at h1 h2
      refine ⟨by simp only; omega, by simp only; omega, by simp only; omega, by simp only; omega, ?_⟩
      simp only
      rw [show i + 1 - (k + 1) = i - k by omega, show j + 1 + 1 - (k + 1) = j + 1 - k by omega]
      refine hw.agree.append ?_
      simp only
      rw [show i - k + k = i by omega, show j + 1 - k + k = j + 1 by omega]
      exact one.agree

omit [DecidableEq α] in
theorem scanRow_ok (hb : bhi ≤ b.length) (ha : ahi ≤ a.length) {i : Nat} {x : α}
    {j2len : List (Nat × Nat)} (hrow : RowOk a b alo ahi blo bhi i j2len) (hi : alo ≤ i)
    (hi' : i < ahi) (hx : a[i]? = some x) :
    ∀ (js : List Nat) (best : Match) (row : List (Nat × Nat)),
      (∀ j ∈ js, b[j]? = some x ∧ blo ≤ j ∧ j < bhi) →
      best.Within a b alo ahi blo bhi → RowOk a b alo ahi blo bhi (i + 1) row →
      (scanRow i j2len js best row).best.Within a b alo ahi blo bhi ∧
        RowOk a b alo ahi blo bhi (i + 1) (scanRow i j2len js best row).j2len := by
  intro js
  induction js with
  | nil => intro best row _ hbest hrow'; exact ⟨hbest, hrow'⟩
  | cons j js ih =>
    intro best row hjs hbest hrow'
    obtain ⟨hj, hj1, hj2⟩ := hjs j List.mem_cons_self
    have hext := extend_within hb ha hrow hi hi' hx hj hj1 hj2
    rw [scanRow]
    refine ih _ _ (fun j' h' => hjs j' (List.mem_cons_of_mem _ h')) ?_ ?_
    · split
      · exact hext.2.2.2
      · exact hbest
    · intro e he
      rcases List.mem_append.mp he with he | he
      · exact hrow' e he
      · obtain rfl := List.mem_singleton.mp he
        exact hext

theorem scanRows_within (hb : bhi ≤ b.length) (ha : ahi ≤ a.length) :
    ∀ (rest : List α) (i : Nat) (s : Scan), alo ≤ i → rest = slice a i ahi →
      s.best.Within a b alo ahi blo bhi → RowOk a b alo ahi blo bhi i s.j2len →
      (scanRows b blo bhi i rest s).Within a b alo ahi blo bhi := by
  intro rest
  induction rest with
  | nil => intro i s _ _ hbest _; exact hbest
  | cons x rest ih =>
    intro i s hi hrest hbest hrow
    have hlt : i < ahi := by
      by_contra hn
      rw [slice, show ahi - i = 0 by omega, List.take_zero] at hrest
      cases hrest
    have hget : ∀ t, (x :: rest)[t]? = if t < ahi - i then a[i + t]? else none := by
      intro t
      rw [hrest, slice, List.getElem?_take, List.getElem?_drop]
    have hx : a[i]? = some x := by
      have h0 := hget 0
      rw [if_pos (by omega)] at h0
      simpa using h0.symm
    have hrest' : rest = slice a (i + 1) ahi := by
      apply List.ext_getElem?
      intro t
      have h1 := hget (t + 1)
      rw [List.getElem?_cons_succ] at h1
      rw [h1, slice, List.getElem?_take, List.getElem?_drop, Nat.add_right_comm, ← Nat.add_assoc]
      by_cases ht : t + 1 < ahi - i
      · rw [if_pos ht, if_pos (by omega)]
      · rw [if_neg ht, if_neg (by omega)]
    have hstep := scanRow_ok hb ha hrow hi hlt hx ((b2j b x).filter fun j => blo ≤ j && j < bhi)
      s.best [] (fun j hj => by
        obtain ⟨hj, hr⟩ := List.mem_filter.mp hj
        simp only [Bool.and_eq_true, decide_eq_true_eq] at hr
        exact ⟨mem_b2j hj, hr.1, hr.2⟩) hbest (fun e he => by cases he)
    exact ih (i + 1) _ (by omega) hrest' hstep.1 hstep.2

theorem extendLeft_within (n : Nat) {m : Match} (h : m.Within a b alo ahi blo bhi) :
    (extendLeft a b alo blo n m).Within a b alo ahi blo bhi := by
  induction n generalizing m with
  | zero => exact h
  | succ n ih =>
    rw [extendLeft]
    split
    · next hc =>
      have h1 := h.left'
      have h2 := h.right'
      refine ih ⟨by simp only; omega, by simp only; omega, by simp only; omega, by simp only; omega, ?_⟩
      simp only
      have hone : Agree a b (m.i - 1) (m.j - 1) 1 := by
        have hl := h.agree.left
        have hr := h.agree.right
        refine ⟨by omega, by omega, fun t ht => ?_⟩
        obtain rfl : t = 0 := by omega
        exact hc.2.2
      rw [Nat.add_comm m.size 1]
      refine hone.append ?_
      rw [show m.i - 1 + 1 = m.i by omega, show m.j - 1 + 1 = m.j by omega]
      exact h.agree
    · exact h

theorem extendRight_within (hb : bhi ≤ b.length) (ha : ahi ≤ a.length) (n : Nat) {m : Match}
    (h : m.Within a b alo ahi blo bhi) :
    (extendRight a b ahi bhi n m).Within a b alo ahi blo bhi := by
  induction n generalizing m with
  | zero => exact h
  | succ n ih =>
    rw [extendRight]
    split
    · next hc =>
      refine ih ⟨h.left, by simp only; omega, h.right, by simp only; omega, ?_⟩
      refine h.agree.append ⟨by omega, by omega, fun t ht => ?_⟩
      obtain rfl : t = 0 := by omega
      exact hc.2.2
    · exact h

/-- `find_longest_match` finds a match in the ranges it is given. -/
theorem findLongestMatch_within (hb : bhi ≤ b.length) (ha : ahi ≤ a.length) (hlo : alo ≤ ahi)
    (hlo' : blo ≤ bhi) : (findLongestMatch a b alo ahi blo bhi).Within a b alo ahi blo bhi := by
  have hstart : Match.Within ⟨alo, blo, 0⟩ a b alo ahi blo bhi :=
    ⟨le_refl _, hlo, le_refl _, hlo', Agree.zero (hlo.trans ha) (hlo'.trans hb)⟩
  have hscan := scanRows_within hb ha (slice a alo ahi) alo ⟨⟨alo, blo, 0⟩, []⟩ (le_refl _) rfl hstart
    (fun e he => by cases he)
  exact extendRight_within hb ha _ (extendLeft_within _ hscan)

end ranges

/-- Matches that ascend in both sequences from `(i, j)` and end by `(i', j')`. -/
inductive Ascending (a b : List α) : Nat → Nat → List Match → Nat → Nat → Prop
  | nil {i j i' j'} (hi : i ≤ i') (hj : j ≤ j') : Ascending a b i j [] i' j'
  | cons {i j m ms i' j'} (hi : i ≤ m.i) (hj : j ≤ m.j) (hm : Agree a b m.i m.j m.size)
      (h : Ascending a b (m.i + m.size) (m.j + m.size) ms i' j') : Ascending a b i j (m :: ms) i' j'

omit [DecidableEq α] in
theorem Ascending.append {i j k l i' j' : Nat} {ms ns : List Match} (h : Ascending a b i j ms k l)
    (h' : Ascending a b k l ns i' j') : Ascending a b i j (ms ++ ns) i' j' := by
  induction h with
  | nil hi hj =>
    cases h' with
    | nil hi' hj' => exact .nil (hi.trans hi') (hj.trans hj')
    | cons hi' hj' hm h' => exact .cons (hi.trans hi') (hj.trans hj') hm h'
  | cons hi hj hm _ ih => exact .cons hi hj hm (ih h')

theorem matchIn_ascending (n : Nat) : ∀ {alo ahi blo bhi : Nat}, alo ≤ ahi → blo ≤ bhi →
    ahi ≤ a.length → bhi ≤ b.length →
    Ascending a b alo blo (matchIn a b n alo ahi blo bhi) ahi bhi := by
  induction n with
  | zero => intro alo ahi blo bhi h1 h2 _ _; exact .nil h1 h2
  | succ n ih =>
    intro alo ahi blo bhi h1 h2 ha hb
    have hm := findLongestMatch_within hb ha h1 h2
    rw [matchIn]
    split
    · exact .nil h1 h2
    · have hl := hm.agree.left
      have hr := hm.agree.right
      have h3 := hm.left
      have h4 := hm.right
      have h5 := hm.left'
      have h6 := hm.right'
      have left : Ascending a b alo blo
          (if alo < (findLongestMatch a b alo ahi blo bhi).i ∧
              blo < (findLongestMatch a b alo ahi blo bhi).j then
            matchIn a b n alo (findLongestMatch a b alo ahi blo bhi).i blo
              (findLongestMatch a b alo ahi blo bhi).j else [])
          (findLongestMatch a b alo ahi blo bhi).i (findLongestMatch a b alo ahi blo bhi).j := by
        split
        · exact ih h3 h4 (by omega) (by omega)
        · exact .nil h3 h4
      refine (left.append (.cons (le_refl _) (le_refl _) hm.agree (.nil (le_refl _) (le_refl _)))).append ?_
      split
      · exact ih h5 h6 ha hb
      · exact .nil h5 h6

omit [DecidableEq α] in
theorem collapse_ascending {ms : List Match} : ∀ {m : Match} {i j i' j' : Nat}, i ≤ m.i → j ≤ m.j →
    Agree a b m.i m.j m.size → Ascending a b (m.i + m.size) (m.j + m.size) ms i' j' →
    Ascending a b i j (collapse m ms) i' j' := by
  induction ms with
  | nil =>
    intro m i j i' j' hi hj hm h
    rw [collapse]
    split
    · cases h with
      | nil hi' hj' => exact .nil (by omega) (by omega)
    · exact .cons hi hj hm h
  | cons m2 ms ih =>
    intro m i j i' j' hi hj hm h
    cases h with
    | cons hi' hj' hm2 h' =>
      rw [collapse]
      split
      · next hadj =>
        refine ih hi hj ?_ ?_
        · exact hm.append (by rw [hadj.1, hadj.2]; exact hm2)
        · simp only
          rw [← Nat.add_assoc, ← Nat.add_assoc, hadj.1, hadj.2]
          exact h'
      split
      · exact ih (by omega) (by omega) hm2 h'
      · exact .cons hi hj hm (ih hi' hj' hm2 h')

theorem getMatchingBlocks_ascending :
    Ascending a b 0 0 (getMatchingBlocks a b) a.length b.length := by
  have h := matchIn_ascending (a := a) (b := b) (a.length + 1) (Nat.zero_le a.length)
    (Nat.zero_le b.length) (le_refl _) (le_refl _)
  have hc := collapse_ascending (m := ⟨0, 0, 0⟩) (le_refl 0) (le_refl 0)
    (Agree.zero (Nat.zero_le _) (Nat.zero_le _)) h
  refine hc.append (.cons (le_refl _) (le_refl _) (Agree.zero (le_refl _) (le_refl _)) ?_)
  exact .nil (le_refl _) (le_refl _)

/-! ## Opcodes -/

/-- The opcode leads both sequences on, and says the truth when it says `equal`. -/
def Opcode.Sound (a b : List α) (o : Opcode) : Prop :=
  o.i1 ≤ o.i2 ∧ o.j1 ≤ o.j2 ∧ o.i2 ≤ a.length ∧ o.j2 ≤ b.length ∧
    match o.tag with
    | .equal => o.i2 - o.i1 = o.j2 - o.j1 ∧ Agree a b o.i1 o.j1 (o.i2 - o.i1)
    | .delete => o.j1 = o.j2
    | .insert => o.i1 = o.i2
    | .replace => True

/-- Opcodes that lead from `(i, j)` to `(i', j')` without a gap. -/
def Chain (a b : List α) : Nat → Nat → List Opcode → Nat → Nat → Prop
  | i, j, [], i', j' => i = i' ∧ j = j'
  | i, j, o :: os, i', j' => (i = o.i1 ∧ j = o.j1) ∧ o.Sound a b ∧ Chain a b o.i2 o.j2 os i' j'

omit [DecidableEq α] in
theorem Chain.nil (i j : Nat) : Chain a b i j [] i j := ⟨rfl, rfl⟩

omit [DecidableEq α] in
theorem Chain.cons {o : Opcode} {os : List Opcode} {i' j' : Nat} (ho : o.Sound a b)
    (h : Chain a b o.i2 o.j2 os i' j') : Chain a b o.i1 o.j1 (o :: os) i' j' :=
  ⟨⟨rfl, rfl⟩, ho, h⟩

omit [DecidableEq α] in
theorem Chain.append {os ps : List Opcode} : ∀ {i j k l i' j' : Nat}, Chain a b i j os k l →
    Chain a b k l ps i' j' → Chain a b i j (os ++ ps) i' j' := by
  induction os with
  | nil =>
    rintro i j k l i' j' ⟨rfl, rfl⟩ h'
    exact h'
  | cons o os ih =>
    rintro i j k l i' j' ⟨hij, ho, h⟩ h'
    exact ⟨hij, ho, ih h h'⟩

omit [DecidableEq α] in
theorem gapOpcode_chain {i ai j bj : Nat} (hi : i ≤ ai) (hj : j ≤ bj) (ha : ai ≤ a.length)
    (hb : bj ≤ b.length) : Chain a b i j (gapOpcode i ai j bj) ai bj := by
  unfold gapOpcode
  split
  · exact Chain.cons (o := ⟨.replace, i, ai, j, bj⟩) ⟨hi, hj, ha, hb, trivial⟩ (.nil _ _)
  split
  · have hj' : j = bj := by omega
    subst hj'
    exact Chain.cons (o := ⟨.delete, i, ai, j, j⟩) ⟨hi, hj, ha, hb, rfl⟩ (.nil _ _)
  split
  · have hi' : i = ai := by omega
    subst hi'
    exact Chain.cons (o := ⟨.insert, i, i, j, bj⟩) ⟨hi, hj, ha, hb, rfl⟩ (.nil _ _)
  · have hi' : i = ai := by omega
    have hj' : j = bj := by omega
    subst hi' hj'
    exact .nil _ _

omit [DecidableEq α] in
theorem opcodesFrom_chain {ms : List Match} : ∀ {i j i' j' : Nat}, Ascending a b i j ms i' j' →
    i' ≤ a.length → j' ≤ b.length →
    ∃ ie je, Chain a b i j (opcodesFrom i j ms) ie je ∧
      (ie, je) = ((ms.getLast?.map fun m => (m.i + m.size, m.j + m.size)).getD (i, j)) := by
  induction ms with
  | nil => intro i j i' j' _ _ _; exact ⟨i, j, .nil i j, rfl⟩
  | cons m ms ih =>
    intro i j i' j' h ha hb
    cases h with
    | cons hi hj hm h =>
      obtain ⟨ie, je, hchain, hlast⟩ := ih h ha hb
      have hl := hm.left
      have hr := hm.right
      refine ⟨ie, je, ?_, ?_⟩
      · rw [opcodesFrom]
        refine ((gapOpcode_chain hi hj (by omega) (by omega)).append ?_).append hchain
        split
        · next hz =>
          rw [hz, Nat.add_zero, Nat.add_zero]
          exact .nil _ _
        · refine Chain.cons (o := ⟨.equal, m.i, m.i + m.size, m.j, m.j + m.size⟩)
            ⟨by simp only; omega, by simp only; omega, hl, hr, ?_⟩ (.nil _ _)
          simp only [Nat.add_sub_cancel_left]
          exact ⟨trivial, hm⟩
      · rw [hlast, List.getLast?_cons]
        cases ms.getLast? <;> rfl

/-- The opcodes lead from the start of both sequences to their ends. -/
theorem getOpcodes_chain : Chain a b 0 0 (getOpcodes a b) a.length b.length := by
  obtain ⟨ie, je, hchain, hlast⟩ := opcodesFrom_chain (getMatchingBlocks_ascending (a := a) (b := b))
    (le_refl _) (le_refl _)
  rw [getMatchingBlocks, List.getLast?_concat] at hlast
  obtain ⟨rfl, rfl⟩ := Prod.mk.inj hlast
  exact hchain

/-! ## Groups -/

omit [DecidableEq α] in
theorem trimStart_sound {o : Opcode} (n : Nat) (h : o.Sound a b) : (o.trimStart n).Sound a b := by
  unfold Opcode.trimStart
  split
  · next ht =>
    obtain ⟨h1, h2, h3, h4, h5⟩ := h
    rw [ht] at h5
    refine ⟨by simp only; omega, by simp only; omega, h3, h4, ?_⟩
    simp only [ht]
    refine ⟨by omega, ?_⟩
    have hs := h5.2.final (l := max o.i1 (o.i2 - n) - o.i1) (by omega)
    rw [show o.i1 + (max o.i1 (o.i2 - n) - o.i1) = max o.i1 (o.i2 - n) by omega,
      show o.j1 + (max o.i1 (o.i2 - n) - o.i1) = max o.j1 (o.j2 - n) by omega,
      show o.i2 - o.i1 - (max o.i1 (o.i2 - n) - o.i1) = o.i2 - max o.i1 (o.i2 - n) by omega] at hs
    exact hs
  · exact h

omit [DecidableEq α] in
theorem trimEnd_sound {o : Opcode} (n : Nat) (h : o.Sound a b) : (o.trimEnd n).Sound a b := by
  unfold Opcode.trimEnd
  split
  · next ht =>
    obtain ⟨h1, h2, h3, h4, h5⟩ := h
    rw [ht] at h5
    refine ⟨by simp only; omega, by simp only; omega, by simp only; omega, by simp only; omega, ?_⟩
    simp only [ht]
    exact ⟨by omega, h5.2.initial (by omega)⟩
  · exact h

/-- The sequences agree from `(i, j)` up to `(i', j')`. -/
def Gap (a b : List α) (i j i' j' : Nat) : Prop :=
  i ≤ i' ∧ j ≤ j' ∧ i' - i = j' - j ∧ Agree a b i j (i' - i)

omit [DecidableEq α] in
theorem Gap.trans {i j k l i' j' : Nat} (h : Gap a b i j k l) (h' : Gap a b k l i' j') :
    Gap a b i j i' j' := by
  obtain ⟨h1, h2, h3, h4⟩ := h
  obtain ⟨h1', h2', h3', h4'⟩ := h'
  refine ⟨by omega, by omega, by omega, ?_⟩
  have h5 := h4.append (l := i' - k) (by
    rw [show i + (k - i) = k by omega, show j + (k - i) = l by omega]
    exact h4')
  rwa [show k - i + (i' - k) = i' - i by omega] at h5

omit [DecidableEq α] in
theorem Gap.of_equal {o : Opcode} (h : o.Sound a b) (ht : o.tag = .equal) :
    Gap a b o.i1 o.j1 o.i2 o.j2 := by
  obtain ⟨h1, h2, -, -, h5⟩ := h
  rw [ht] at h5
  exact ⟨h1, h2, h5.1, h5.2⟩

omit [DecidableEq α] in
/-- Trimming the start of an opcode leaves out lines that agree. -/
theorem trimStart_gap {o : Opcode} (n : Nat) (h : o.Sound a b) :
    Gap a b o.i1 o.j1 (o.trimStart n).i1 (o.trimStart n).j1 ∧
      (o.trimStart n).i2 = o.i2 ∧ (o.trimStart n).j2 = o.j2 := by
  obtain ⟨h1, h2, h3, h4, h5⟩ := h
  unfold Opcode.trimStart
  split
  · next ht =>
    rw [ht] at h5
    refine ⟨⟨by simp only; omega, by simp only; omega, by simp only; omega, ?_⟩, rfl, rfl⟩
    exact h5.2.initial (by simp only; omega)
  · exact ⟨⟨le_refl _, le_refl _, by omega, by
      rw [Nat.sub_self]; exact Agree.zero (by omega) (by omega)⟩, rfl, rfl⟩

omit [DecidableEq α] in
/-- Trimming the end of an opcode leaves out lines that agree. -/
theorem trimEnd_gap {o : Opcode} (n : Nat) (h : o.Sound a b) :
    Gap a b (o.trimEnd n).i2 (o.trimEnd n).j2 o.i2 o.j2 ∧
      (o.trimEnd n).i1 = o.i1 ∧ (o.trimEnd n).j1 = o.j1 := by
  obtain ⟨h1, h2, h3, h4, h5⟩ := h
  unfold Opcode.trimEnd
  split
  · next ht =>
    rw [ht] at h5
    refine ⟨⟨by simp only; omega, by simp only; omega, by simp only; omega, ?_⟩, rfl, rfl⟩
    simp only
    have hs := h5.2.final (l := min o.i2 (o.i1 + n) - o.i1) (by omega)
    rw [show o.i1 + (min o.i2 (o.i1 + n) - o.i1) = min o.i2 (o.i1 + n) by omega,
      show o.j1 + (min o.i2 (o.i1 + n) - o.i1) = min o.j2 (o.j1 + n) by omega,
      show o.i2 - o.i1 - (min o.i2 (o.i1 + n) - o.i1) = o.i2 - min o.i2 (o.i1 + n) by omega] at hs
    exact hs
  · exact ⟨⟨le_refl _, le_refl _, by omega, by
      rw [Nat.sub_self]; exact Agree.zero (by omega) (by omega)⟩, rfl, rfl⟩

/-- The groups are chains, and the sequences agree before, between and after them. -/
inductive Covers (a b : List α) : Nat → Nat → List (List Opcode) → Prop
  | done {i j} (h : Gap a b i j a.length b.length) : Covers a b i j []
  | group {i j i1 j1 i2 j2 g gs} (hgap : Gap a b i j i1 j1) (hne : g ≠ [])
      (hg : Chain a b i1 j1 g i2 j2) (h : Covers a b i2 j2 gs) : Covers a b i j (g :: gs)

omit [DecidableEq α] in
theorem groupFrom_covers (n : Nat) {os : List Opcode} : ∀ {group : List Opcode}
    {pi pj gi gj i j ie je : Nat}, Gap a b pi pj gi gj → Chain a b gi gj group i j →
    Chain a b i j os ie je → Gap a b ie je a.length b.length →
    Covers a b pi pj (groupFrom n os group) := by
  induction os with
  | nil =>
    intro group pi pj gi gj i j ie je hgap hg hos htail
    obtain ⟨rfl, rfl⟩ := hos
    rw [groupFrom]
    split
    · next hdrop =>
      rcases hdrop with rfl | ⟨hlen, htag⟩
      · obtain ⟨rfl, rfl⟩ := hg
        exact .done (hgap.trans htail)
      · obtain ⟨o, rfl⟩ := List.length_eq_one_iff.mp hlen
        simp only [List.head?_cons, Option.map_some, Option.some.injEq] at htag
        obtain ⟨⟨rfl, rfl⟩, ho, rfl, rfl⟩ := hg
        exact .done ((hgap.trans (Gap.of_equal ho htag)).trans htail)
    · next hkeep => exact .group hgap (fun h => hkeep (.inl h)) hg (.done htail)
  | cons o os ih =>
    intro group pi pj gi gj i j ie je hgap hg hos htail
    obtain ⟨⟨rfl, rfl⟩, ho, hrest⟩ := hos
    rw [groupFrom]
    split
    · have hend := trimEnd_gap n ho
      have hstart := trimStart_gap n ho
      have hlast : Chain a b o.i1 o.j1 [o.trimEnd n] (o.trimEnd n).i2 (o.trimEnd n).j2 := by
        rw [← hend.2.1, ← hend.2.2]
        exact .cons (trimEnd_sound n ho) (.nil _ _)
      refine .group hgap (by simp) (hg.append hlast) ?_
      -- The two trims leave the middle of a long `equal` out of both groups.
      have hnext : Chain a b (o.trimStart n).i1 (o.trimStart n).j1 [o.trimStart n] _ _ :=
        .cons (trimStart_sound n ho) (.nil _ _)
      refine ih ?_ hnext (by rw [hstart.2.1, hstart.2.2]; exact hrest)
        htail
      next hlong =>
      obtain ⟨h1, h2, h3, h4, h5⟩ := ho
      have ht := hlong.1
      rw [ht] at h5
      simp only [Opcode.trimEnd, Opcode.trimStart, ht, if_true]
      rw [show min o.i2 (o.i1 + n) = o.i1 + n by omega,
        show min o.j2 (o.j1 + n) = o.j1 + n by omega]
      refine ⟨by omega, by omega, by omega, ?_⟩
      have hs := h5.2.final (l := n) (by omega)
      exact hs.initial (by omega)
    · refine ih hgap (hg.append (.cons ho (.nil _ _))) hrest htail

omit [DecidableEq α] in
/-- Trimming the two outer opcodes leaves out lines that agree. -/
theorem trimOuter_chain (n : Nat) {os : List Opcode} {i j ie je : Nat} (h : Chain a b i j os ie je)
    (hne : os ≠ []) : ∃ i0 j0 i1 j1, Gap a b i j i0 j0 ∧ Chain a b i0 j0 (trimOuter n os) i1 j1 ∧
      Gap a b i1 j1 ie je := by
  -- First the head, then, by induction on the chain, the last opcode.
  have hhead : ∃ i0 j0, Gap a b i j i0 j0 ∧
      Chain a b i0 j0 (os.modifyHead (Opcode.trimStart n)) ie je := by
    cases os with
    | nil => exact absurd rfl hne
    | cons o os =>
      obtain ⟨⟨rfl, rfl⟩, ho, hrest⟩ := h
      have hs := trimStart_gap n ho
      refine ⟨_, _, hs.1, ?_⟩
      rw [List.modifyHead_cons]
      exact .cons (trimStart_sound n ho) (by rw [hs.2.1, hs.2.2]; exact hrest)
  obtain ⟨i0, j0, hgap, hchain⟩ := hhead
  have hlast : ∀ {os : List Opcode} {i j : Nat}, os ≠ [] → Chain a b i j os ie je →
      ∃ i1 j1, Chain a b i j ((os.reverse.modifyHead (Opcode.trimEnd n)).reverse) i1 j1 ∧
        Gap a b i1 j1 ie je := by
    intro os
    induction os with
    | nil => intro i j hne _; exact absurd rfl hne
    | cons o os ih =>
      rintro i j - ⟨⟨rfl, rfl⟩, ho, hrest⟩
      by_cases hnil : os = []
      · subst hnil
        obtain ⟨rfl, rfl⟩ := hrest
        have he := trimEnd_gap n ho
        refine ⟨_, _, ?_, he.1⟩
        simp only [List.reverse_cons, List.reverse_nil, List.nil_append, List.modifyHead_cons]
        rw [← he.2.1, ← he.2.2]
        exact .cons (trimEnd_sound n ho) (.nil _ _)
      · obtain ⟨i1, j1, hc, hg⟩ := ih hnil hrest
        refine ⟨i1, j1, ?_, hg⟩
        obtain ⟨x, xs, hx⟩ := List.exists_cons_of_ne_nil (List.reverse_ne_nil_iff.mpr hnil)
        rw [List.reverse_cons, hx, List.cons_append, List.modifyHead_cons, List.reverse_cons,
          List.reverse_append, List.reverse_cons, List.reverse_nil, List.nil_append,
          List.singleton_append, List.cons_append]
        rw [hx, List.modifyHead_cons, List.reverse_cons] at hc
        exact .cons ho hc
  have hne' : os.modifyHead (Opcode.trimStart n) ≠ [] := by
    cases os with
    | nil => exact absurd rfl hne
    | cons o os => simp
  obtain ⟨i1, j1, hc, hg⟩ := hlast hne' hchain
  exact ⟨i0, j0, i1, j1, hgap, hc, hg⟩

/-- The groups of opcodes cover both sequences. -/
theorem getGroupedOpcodes_covers (n : Nat) : Covers a b 0 0 (getGroupedOpcodes a b n) := by
  have hchain := getOpcodes_chain (a := a) (b := b)
  unfold getGroupedOpcodes
  by_cases hnil : getOpcodes a b = []
  · -- Two empty sequences: the single `equal` group is not yielded.
    rw [hnil] at hchain
    simp only [hnil, if_true]
    have hempty : groupFrom n (trimOuter n [⟨.equal, 0, 1, 0, 1⟩]) [] = [] := by
      have htrim : trimOuter n [⟨.equal, 0, 1, 0, 1⟩] =
          [((⟨.equal, 0, 1, 0, 1⟩ : Opcode).trimStart n).trimEnd n] := rfl
      have htag : (((⟨.equal, 0, 1, 0, 1⟩ : Opcode).trimStart n).trimEnd n).tag = .equal := by
        simp [Opcode.trimStart, Opcode.trimEnd]
      have hlen : ¬n + n < (((⟨.equal, 0, 1, 0, 1⟩ : Opcode).trimStart n).trimEnd n).i2 -
          (((⟨.equal, 0, 1, 0, 1⟩ : Opcode).trimStart n).trimEnd n).i1 := by
        simp only [Opcode.trimStart, Opcode.trimEnd, if_true]
        omega
      rw [htrim, groupFrom, if_neg (fun h => hlen h.2), groupFrom, if_pos]
      exact .inr ⟨rfl, congrArg some htag⟩
    rw [hempty]
    obtain ⟨ha, hb⟩ := hchain
    exact .done ⟨by omega, by omega, by omega, by rw [← ha]; exact Agree.zero (by omega) (by omega)⟩
  · simp only [hnil, if_false]
    obtain ⟨i0, j0, i1, j1, hgap, hc, htail⟩ := trimOuter_chain n hchain hnil
    exact groupFrom_covers n hgap (.nil _ _) hc htail

end LilTweak.Evidence
