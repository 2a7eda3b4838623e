import LilTweak.Lib.Utf16

/-!
# Code units against code points

Sorting by two orders gives the same list where the orders agree on its items, and only there. The
order of texts by UTF-16 code units and the order by code points agree but for texts that
first differ in a character beyond the BMP on one side and one from U+E000 on the other.
-/

namespace LilTweak.Lib

/-! ## Sorting by two orders -/

section
variable {α : Type*} {r s : α → α → Prop} [Std.Total r] [Std.Total s] [Std.Antisymm r] [Std.Antisymm s]

theorem agree_of_pairwise {l : List α} (hr : l.Pairwise r) (hs : l.Pairwise s) :
    ∀ a ∈ l, ∀ b ∈ l, (r a b ↔ s a b) := by
  have refl : ∀ {t : α → α → Prop} [Std.Total t] (a : α), t a a :=
    fun {t} _ a => (Std.Total.total (r := t) a a).elim id id
  induction l with
  | nil => exact fun a ha => absurd ha List.not_mem_nil
  | cons x l ih =>
    obtain ⟨hrx, hrl⟩ := List.pairwise_cons.mp hr
    obtain ⟨hsx, hsl⟩ := List.pairwise_cons.mp hs
    intro a ha b hb
    rcases List.mem_cons.mp ha with rfl | hal
    · rcases List.mem_cons.mp hb with rfl | hbl
      · exact iff_of_true (refl _) (refl _)
      · exact iff_of_true (hrx b hbl) (hsx b hbl)
    · rcases List.mem_cons.mp hb with rfl | hbl
      · have hra := hrx a hal
        have hsa := hsx a hal
        constructor
        · intro h
          exact Std.Antisymm.antisymm _ _ h hra ▸ refl _
        · intro h
          exact Std.Antisymm.antisymm _ _ h hsa ▸ refl _
      · exact ih hrl hsl a hal b hbl

variable [DecidableRel r] [DecidableRel s] [IsTrans α r] [IsTrans α s]

/-- Two orders sort a list alike exactly where they agree on its items. -/
theorem insertionSort_eq_iff (l : List α) :
    l.insertionSort r = l.insertionSort s ↔ ∀ a ∈ l, ∀ b ∈ l, (r a b ↔ s a b) := by
  have hr := List.pairwise_insertionSort r l
  have hs := List.pairwise_insertionSort s l
  constructor
  · intro h a ha b hb
    rw [← h] at hs
    exact agree_of_pairwise hr hs a ((List.mem_insertionSort r).mpr ha) b
      ((List.mem_insertionSort r).mpr hb)
  · intro h
    have hrs : (l.insertionSort r).Pairwise s := by
      apply hr.imp_of_mem
      intro a b ha hb hab
      exact (h a ((List.mem_insertionSort r).mp ha) b ((List.mem_insertionSort r).mp hb)).mp hab
    exact ((List.perm_insertionSort r l).trans (List.perm_insertionSort s l).symm).eq_of_pairwise' hrs hs

end

/-! ## The order of code units -/

/-- The character takes two code units. -/
def beyond (c : Char) : Bool := 0x10000 ≤ c.toNat

/-- The character takes one code unit, above the surrogates. -/
def aboveSurrogates (c : Char) : Bool := 0xE000 ≤ c.toNat && c.toNat < 0x10000

/-- Where a character stands in the order of code units. -/
def unitRank (c : Char) : Nat :=
  if c.toNat < 0xE000 then c.toNat
  else if c.toNat < 0x10000 then c.toNat + 0x100000
  else c.toNat - 0x2000

theorem codeUnits_lt {c d : Char} (hne : c ≠ d) (x y : JsString) :
    codeUnits c ++ x < codeUnits d ++ y ↔ unitRank c < unitRank d := by
  have hval : c.toNat ≠ d.toNat := fun h => hne (Char.toNat_inj.mp h)
  have hc : c.toNat.isValidChar := c.valid
  have hd : d.toNat.isValidChar := d.valid
  simp only [Nat.isValidChar] at hc hd
  unfold codeUnits unitRank
  split <;> split
  all_goals
    simp only [List.cons_append, List.nil_append, List.cons_lt_cons_iff, Fin.lt_def, Fin.ext_iff,
      Fin.val_ofNat]
  · simp only [hval, false_and, or_false]
    split_ifs <;> omega
  · constructor
    · rintro (h | ⟨h, -⟩) <;> split_ifs <;> omega
    · intro h
      left
      split_ifs at h <;> omega
  · constructor
    · rintro (h | ⟨h, -⟩) <;> split_ifs <;> omega
    · intro h
      left
      split_ifs at h <;> omega
  · rw [if_neg (show ¬c.toNat < 0xE000 by omega), if_neg (show ¬d.toNat < 0xE000 by omega)]
    constructor
    · rintro (h | ⟨h, h' | ⟨h', -⟩⟩) <;> omega
    · intro h
      by_cases hhigh : (0xD800 + (c.toNat - 0x10000) / 0x400) % 0x10000 <
          (0xD800 + (d.toNat - 0x10000) / 0x400) % 0x10000
      · exact .inl hhigh
      · exact .inr ⟨by omega, .inl (by omega)⟩

theorem codeUnits_ne_nil (c : Char) : codeUnits c ≠ [] := by
  unfold codeUnits
  split <;> simp

/-- Where the texts first differ, one has a character beyond the BMP and the other one from U+E000
to U+FFFF. -/
def straddles : List Char → List Char → Bool
  | c :: s, d :: t =>
    if c = d then straddles s t
    else (beyond c && aboveSurrogates d) || (aboveSurrogates c && beyond d)
  | _, _ => false

theorem straddles_comm (s t : List Char) : straddles s t = straddles t s := by
  induction s generalizing t with
  | nil => cases t <;> rfl
  | cons c s ih =>
    cases t with
    | nil => rfl
    | cons d t =>
      simp only [straddles]
      by_cases h : c = d
      · rw [if_pos h, if_pos h.symm, ih]
      · rw [if_neg h, if_neg (Ne.symm h), Bool.or_comm, Bool.and_comm, Bool.and_comm (beyond c)]

theorem unitRank_lt {c d : Char} (hne : c ≠ d) :
    ((beyond c && aboveSurrogates d) || (aboveSurrogates c && beyond d)) = true ∧
        (unitRank c < unitRank d ↔ d < c) ∨
      ((beyond c && aboveSurrogates d) || (aboveSurrogates c && beyond d)) = false ∧
        (unitRank c < unitRank d ↔ c < d) := by
  have hval : c.toNat ≠ d.toNat := fun h => hne (Char.toNat_inj.mp h)
  have hc : c.toNat.isValidChar := c.valid
  have hd : d.toNat.isValidChar := d.valid
  have hlt : ∀ a b : Char, a < b ↔ a.toNat < b.toNat := fun a b => Iff.rfl
  simp only [Nat.isValidChar] at hc hd
  simp only [hlt, beyond, aboveSurrogates, unitRank, Bool.or_eq_true, Bool.and_eq_true,
    decide_eq_true_eq, Bool.or_eq_false_iff, Bool.and_eq_false_iff, decide_eq_false_iff_not]
  split_ifs <;> omega

/-- The two orders agree on texts that do not straddle, and disagree on those that do. -/
theorem units_lt (s t : List Char) :
    (straddles s t = false → (s.flatMap codeUnits < t.flatMap codeUnits ↔ s < t)) ∧
      (straddles s t = true → s ≠ t ∧ (s.flatMap codeUnits < t.flatMap codeUnits ↔ t < s)) := by
  induction s generalizing t with
  | nil =>
    refine ⟨fun _ => ?_, fun h => by cases h⟩
    cases t with
    | nil => simp
    | cons d t =>
      rw [List.flatMap_nil, List.flatMap_cons]
      obtain ⟨u, l, hu⟩ := List.exists_cons_of_ne_nil (codeUnits_ne_nil d)
      simp [hu]
  | cons c s ih =>
    cases t with
    | nil => exact ⟨fun _ => by simp, fun h => by cases h⟩
    | cons d t =>
      rw [List.flatMap_cons, List.flatMap_cons]
      by_cases h : c = d
      · subst h
        have hcancel : codeUnits c ++ s.flatMap codeUnits < codeUnits c ++ t.flatMap codeUnits ↔
            s.flatMap codeUnits < t.flatMap codeUnits := by
          induction codeUnits c with
          | nil => rfl
          | cons u l ihl => rw [List.cons_append, List.cons_append, List.cons_lt_cons_iff, ihl]; simp
        obtain ⟨hno, hyes⟩ := ih t
        simp only [straddles, ↓reduceIte, hcancel, List.cons_lt_cons_iff, lt_irrefl, true_and,
          false_or, ne_eq, List.cons.injEq]
        exact ⟨hno, hyes⟩
      · rw [codeUnits_lt h]
        simp only [straddles, List.cons_lt_cons_iff, h, Ne.symm h, false_and, or_false,
          ne_eq, List.cons.injEq, not_false_eq_true, true_and]
        rcases unitRank_lt h with ⟨hs, hlt⟩ | ⟨hs, hlt⟩
        · exact ⟨fun hn => (by rw [hs] at hn; cases hn), fun _ => hlt⟩
        · exact ⟨fun _ => hlt, fun hn => (by rw [hs] at hn; cases hn)⟩

/-- A text can be told from its code units. -/
theorem codeUnits_injective {s t : List Char} (h : s.flatMap codeUnits = t.flatMap codeUnits) : s = t := by
  have hst : ¬s.flatMap codeUnits < t.flatMap codeUnits := h ▸ lt_irrefl _
  have hts : ¬t.flatMap codeUnits < s.flatMap codeUnits := h ▸ lt_irrefl _
  cases hs : straddles s t with
  | true =>
    obtain ⟨hne, h1⟩ := (units_lt s t).2 hs
    obtain ⟨-, h2⟩ := (units_lt t s).2 ((straddles_comm t s).trans hs)
    rcases lt_trichotomy s t with hlt | heq | hlt
    · exact absurd (h2.mpr hlt) hts
    · exact heq
    · exact absurd (h1.mpr hlt) hst
  | false =>
    have h1 := (units_lt s t).1 hs
    have h2 := (units_lt t s).1 ((straddles_comm t s).trans hs)
    rcases lt_trichotomy s t with hlt | heq | hlt
    · exact absurd (h1.mpr hlt) hst
    · exact heq
    · exact absurd (h2.mpr hlt) hts

end LilTweak.Lib
