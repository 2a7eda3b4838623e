import Mathlib.Logic.Basic
import Mathlib.Data.List.Basic

/-!
# Runs of labelled transition systems

A run is a list of labels together with the states it leads from and to. The
rules say how a run splits, and how a property of states that every step keeps
is kept by a whole run. The step relation, states and labels are arbitrary.
-/

namespace LilTweak.Lib

variable {σ α : Type*}

/-- `Run step s l t`: taking the steps labelled `l` in order leads from `s` to `t`. -/
inductive Run (step : σ → α → σ → Prop) : σ → List α → σ → Prop
  | nil (s : σ) : Run step s [] s
  | cons {s t u : σ} {a : α} {l : List α} : step s a t → Run step t l u → Run step s (a :: l) u

namespace Run

variable {step : σ → α → σ → Prop} {s t u : σ} {a : α} {l m : List α}

theorem nil_iff : Run step s [] t ↔ s = t := by
  constructor
  · intro h; cases h; rfl
  · rintro rfl; exact .nil s

theorem cons_iff : Run step s (a :: l) u ↔ ∃ t, step s a t ∧ Run step t l u := by
  constructor
  · intro h; cases h with | cons hs hr => exact ⟨_, hs, hr⟩
  · rintro ⟨t, hs, hr⟩; exact .cons hs hr

theorem append (h : Run step s l t) (h' : Run step t m u) : Run step s (l ++ m) u := by
  induction h with
  | nil _ => exact h'
  | cons hs _ ih => exact .cons hs (ih h')

theorem append_iff : Run step s (l ++ m) u ↔ ∃ t, Run step s l t ∧ Run step t m u := by
  constructor
  · intro h
    induction l generalizing s with
    | nil => exact ⟨s, .nil s, h⟩
    | cons a l ih =>
      obtain ⟨r, hs, hr⟩ := cons_iff.mp h
      obtain ⟨t, h1, h2⟩ := ih hr
      exact ⟨t, .cons hs h1, h2⟩
  · rintro ⟨t, h1, h2⟩
    exact h1.append h2

/-- A run of steps of one kind is a run of steps of a wider kind. -/
theorem mono {step' : σ → α → σ → Prop} (h : Run step s l t) (hstep : ∀ s a t, step s a t → step' s a t) :
    Run step' s l t := by
  induction h with
  | nil s => exact .nil s
  | cons hs _ ih => exact .cons (hstep _ _ _ hs) ih

/-- A property that every step labelled in the run keeps is kept by the run. -/
theorem preserves {P : σ → Prop} (h : Run step s l t)
    (keep : ∀ s a t, a ∈ l → P s → step s a t → P t) (hs : P s) : P t := by
  induction h with
  | nil _ => exact hs
  | cons hstep _ ih =>
    exact ih (fun s a t ha => keep s a t (List.mem_cons_of_mem _ ha))
      (keep _ _ _ List.mem_cons_self hs hstep)

/-- A reflexive and transitive relation that every step respects relates the two
ends of a run, as long as an invariant of the run supports each step. -/
theorem relates {I : σ → Prop} {R : σ → σ → Prop} (h : Run step s l t)
    (refl : ∀ s, R s s) (trans : ∀ s t u, R s t → R t u → R s u)
    (inv : ∀ s a t, I s → step s a t → I t)
    (one : ∀ s a t, I s → step s a t → R s t) (hs : I s) : R s t := by
  induction h with
  | nil _ => exact refl _
  | cons hstep _ ih => exact trans _ _ _ (one _ _ _ hs hstep) (ih (inv _ _ _ hs hstep))

end Run

/-- The states some run from a state reaches. -/
def Reachable (step : σ → α → σ → Prop) (s t : σ) : Prop := ∃ l, Run step s l t

end LilTweak.Lib
