import LilTweak.Lib.Run
import Mathlib

/-!
# Ledgers of approvals

A ledger holds the approvals that may still be spent, each once. Voiding it takes them all back; once it is
closed nothing is spent from it any more, whatever is approved later.
-/

namespace LilTweak.Lib

/-- What is done to a ledger. -/
inductive Deed (D : Type*)
  | approve (d : D)
  | spend (d : D)
  | void
  | close
deriving DecidableEq

structure Ledger (D : Type*) where
  held : Multiset D := 0
  closed : Bool := false

namespace Ledger

variable {D : Type*} [DecidableEq D]

/-- One deed, where the ledger allows it. -/
def step? (l : Ledger D) : Deed D → Option (Ledger D)
  | .approve d => some { l with held := d ::ₘ l.held }
  | .spend d => if l.closed = false ∧ d ∈ l.held then some { l with held := l.held.erase d } else none
  | .void => if l.closed = false then some { l with held := 0 } else none
  | .close => some ⟨0, true⟩

def Step (l : Ledger D) (deed : Deed D) (l' : Ledger D) : Prop := l.step? deed = some l'

variable {l l' : Ledger D} {deed : Deed D} {deeds : List (Deed D)} {d : D}

/-- What a deed asks of the ledger and leaves. -/
theorem Step.cases (h : l.Step deed l') :
    (∃ d, deed = .approve d ∧ l' = { l with held := d ::ₘ l.held }) ∨
      (∃ d, deed = .spend d ∧ l.closed = false ∧ d ∈ l.held ∧ l' = { l with held := l.held.erase d }) ∨
      (deed = .void ∧ l.closed = false ∧ l' = { l with held := 0 }) ∨ (deed = .close ∧ l' = ⟨0, true⟩) := by
  cases deed with
  | approve d => exact .inl ⟨d, rfl, (Option.some.inj h).symm⟩
  | spend d =>
    obtain ⟨⟨hopen, hmem⟩, hl⟩ := Option.ite_none_right_eq_some.mp h
    exact .inr (.inl ⟨d, rfl, hopen, hmem, (Option.some.inj hl).symm⟩)
  | void =>
    obtain ⟨hopen, hl⟩ := Option.ite_none_right_eq_some.mp h
    exact .inr (.inr (.inl ⟨rfl, hopen, (Option.some.inj hl).symm⟩))
  | close => exact .inr (.inr (.inr ⟨rfl, (Option.some.inj h).symm⟩))

/-- A closed ledger stays closed, and nothing is spent or voided. -/
theorem Step.closed (h : l.Step deed l') (hclosed : l.closed = true) :
    l'.closed = true ∧ deed ≠ .spend d ∧ deed ≠ .void := by
  obtain ⟨e, rfl, rfl⟩ | ⟨e, rfl, hopen, -, -⟩ | ⟨rfl, hopen, -⟩ | ⟨rfl, rfl⟩ := h.cases
  · exact ⟨hclosed, nofun, nofun⟩
  · rw [hclosed] at hopen
    cases hopen
  · rw [hclosed] at hopen
    cases hopen
  · exact ⟨rfl, nofun, nofun⟩

theorem run_closed (h : Run Step l deeds l') (hclosed : l.closed = true) : .spend d ∉ deeds ∧ .void ∉ deeds := by
  induction h with
  | nil _ => exact ⟨List.not_mem_nil, List.not_mem_nil⟩
  | cons hstep _ ih =>
    obtain ⟨hclosed', hspend, hvoid⟩ := hstep.closed (d := d) hclosed
    obtain ⟨hspends, hvoids⟩ := ih hclosed'
    exact ⟨List.not_mem_cons_of_ne_of_not_mem hspend.symm hspends, List.not_mem_cons_of_ne_of_not_mem hvoid.symm hvoids⟩

/-- What is held of a kind afterwards, and spent, was held before or is approved. -/
theorem Step.count (h : l.Step deed l') :
    l'.held.count d + [deed].count (.spend d) ≤ l.held.count d + [deed].count (.approve d) := by
  obtain ⟨e, rfl, rfl⟩ | ⟨e, rfl, -, hmem, rfl⟩ | ⟨rfl, -, rfl⟩ | ⟨rfl, rfl⟩ := h.cases
  · have hspend : List.count (Deed.spend d) [Deed.approve e] = 0 := List.count_eq_zero.mpr (by simp)
    rw [Multiset.count_cons, hspend, List.count_singleton]
    by_cases hde : d = e
    · rw [if_pos hde, if_pos (beq_iff_eq.mpr (congrArg Deed.approve hde.symm))]
    · rw [if_neg hde]
      omega
  · rw [List.count_singleton]
    by_cases hde : d = e
    · subst hde
      have hpos := Multiset.count_pos.mpr hmem
      have herase := Multiset.count_erase_self d l.held
      rw [if_pos (beq_self_eq_true _)]
      dsimp only
      omega
    · rw [if_neg fun h => hde (Deed.spend.inj (beq_iff_eq.mp h)).symm]
      dsimp only
      rw [Multiset.count_erase_of_ne hde]
      omega
  · have hspend : List.count (Deed.spend d) [Deed.void] = 0 := List.count_eq_zero.mpr (by simp)
    rw [hspend, Multiset.count_zero]
    omega
  · have hspend : List.count (Deed.spend d) [Deed.close] = 0 := List.count_eq_zero.mpr (by simp)
    rw [hspend, Multiset.count_zero]
    omega

theorem run_count (h : Run Step l deeds l') :
    l'.held.count d + deeds.count (.spend d) ≤ l.held.count d + deeds.count (.approve d) := by
  induction h with
  | nil _ => exact le_refl _
  | cons hstep _ ih =>
    have hone := hstep.count (d := d)
    rw [← List.singleton_append, List.count_append, List.count_append]
    omega

/-- A deed that empties the ledger. -/
def Empties (deed : Deed D) : Prop := deed = .void ∨ deed = .close

theorem Step.empties (h : l.Step deed l') (hdeed : Empties deed) : l'.held = 0 := by
  obtain ⟨e, rfl, rfl⟩ | ⟨e, rfl, -, -, rfl⟩ | ⟨-, -, rfl⟩ | ⟨-, rfl⟩ := h.cases
  · rcases hdeed with hdeed | hdeed <;> cases hdeed
  · rcases hdeed with hdeed | hdeed <;> cases hdeed
  · rfl
  · rfl

/-- Since the ledger was last emptied no more was spent than approved. -/
theorem run_count_since {before after : List (Deed D)} (h : Run Step {} (before ++ after) l')
    (hlast : ∀ deed ∈ before.getLast?, Empties deed) :
    l'.held.count d + after.count (.spend d) ≤ after.count (.approve d) := by
  obtain ⟨mid, hbefore, hafter⟩ := Run.append_iff.mp h
  have hempty : mid.held = 0 := by
    rcases List.eq_nil_or_concat before with rfl | ⟨front, deed, rfl⟩
    · obtain rfl := Run.nil_iff.mp hbefore
      rfl
    · rw [List.concat_eq_append] at hbefore
      obtain ⟨m, _, hone⟩ := Run.append_iff.mp hbefore
      obtain ⟨m', hstep, hnil⟩ := Run.cons_iff.mp hone
      obtain rfl := Run.nil_iff.mp hnil
      exact hstep.empties (hlast deed (by rw [List.concat_eq_append, List.getLast?_concat]; rfl))
  have hcount := run_count hafter (d := d)
  rw [hempty, Multiset.count_zero] at hcount
  omega

/-- After the ledger was closed nothing is spent or voided. -/
theorem closed_since {before after : List (Deed D)} (h : Run Step {} (before ++ .close :: after) l') :
    .spend d ∉ after ∧ .void ∉ after := by
  obtain ⟨mid, _, hrest⟩ := Run.append_iff.mp h
  obtain ⟨closed, hstep, hafter⟩ := Run.cons_iff.mp hrest
  obtain rfl := Option.some.inj hstep
  exact run_closed hafter rfl

end Ledger

end LilTweak.Lib
