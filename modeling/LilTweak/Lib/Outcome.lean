import Mathlib.Logic.Basic

/-!
# Postconditions of computations that may raise

`Yields ok err x` says what holds of the value of `x` and of the error it may
raise instead. The rules follow the shape of the computation.
-/

namespace LilTweak.Lib

universe u

variable {ε : Type*} {α β : Type u} {ok ok' : α → Prop} {err err' : ε → Prop}

/-- The value satisfies `ok`, or the error satisfies `err`. -/
def Yields (ok : α → Prop) (err : ε → Prop) : Except ε α → Prop
  | .ok a => ok a
  | .error e => err e

@[simp] theorem yields_ok {a : α} : Yields ok err (.ok a) ↔ ok a := Iff.rfl

@[simp] theorem yields_error {e : ε} : Yields ok err (.error e : Except ε α) ↔ err e := Iff.rfl

theorem ok_bind (a : β) (f : β → Except ε α) : (Except.ok a >>= f) = f a := rfl

theorem error_bind (e : ε) (f : β → Except ε α) : (Except.error e >>= f) = .error e := rfl

/-- A value of a sequence is a value of its second part on one of its first. -/
theorem exists_bind_ok {x : Except ε β} {f : β → Except ε α} {P : α → Prop} :
    (∃ a, (x >>= f) = .ok a ∧ P a) ↔ ∃ b, x = .ok b ∧ ∃ a, f b = .ok a ∧ P a := by
  cases x with
  | error e => simp [bind, Except.bind]
  | ok b => simp [bind, Except.bind]

/-- Both parts of a sequence that has a value have one. -/
theorem of_bind_ok {x : Except ε β} {f : β → Except ε α} {a : α} (h : (x >>= f) = .ok a) :
    ∃ b, x = .ok b ∧ f b = .ok a := by
  cases x with
  | error e => cases h
  | ok b => exact ⟨b, rfl, h⟩

/-- A value the first branch does not give comes from the second. -/
theorem else_ok {c : Prop} [Decidable c] {y x : Except ε α} {a : α} (hy : y ≠ .ok a)
    (h : (if c then y else x) = .ok a) : ¬c ∧ x = .ok a := by
  split at h
  · exact absurd h hy
  · next hc => exact ⟨hc, h⟩

/-- A computation that raises under a condition has a value where the condition fails. -/
theorem unless_ok {c : Prop} [Decidable c] {e : ε} {x : Except ε α} {a : α}
    (h : (if c then .error e else x) = .ok a) : ¬c ∧ x = .ok a :=
  else_ok (by simp) h

theorem Yields.bind {mid : β → Prop} {x : Except ε β} {f : β → Except ε α}
    (h : Yields mid err x) (hf : ∀ b, mid b → Yields ok err (f b)) : Yields ok err (x >>= f) := by
  cases x with
  | error e => exact h
  | ok b => exact hf b h

theorem Yields.weaken {x : Except ε α} (h : Yields ok err x) (hok : ∀ a, ok a → ok' a)
    (herr : ∀ e, err e → err' e) : Yields ok' err' x := by
  cases x with
  | error e => exact herr e h
  | ok a => exact hok a h

theorem Yields.map {ok : β → Prop} {x : Except ε α} {f : α → β} (h : Yields (fun a => ok (f a)) err x) :
    Yields ok err (x.map f) := by
  cases x with
  | error e => exact h
  | ok a => exact h

theorem Yields.ite {p : Prop} [Decidable p] {x y : Except ε α} (hx : p → Yields ok err x)
    (hy : ¬p → Yields ok err y) : Yields ok err (if p then x else y) := by
  split
  · exact hx ‹_›
  · exact hy ‹_›

/-- A fold whose rounds keep an invariant. -/
theorem Yields.foldlM {P : β → Prop} {f : β → α → Except ε β} :
    ∀ (l : List α) {b : β}, P b → (∀ b a, a ∈ l → P b → Yields P err (f b a)) →
      Yields P err (l.foldlM f b)
  | [], _, hb, _ => hb
  | a :: l, _, hb, hf =>
    Yields.bind (hf _ a List.mem_cons_self hb) fun _ hb' =>
      Yields.foldlM l hb' fun b a' ha' => hf b a' (List.mem_cons_of_mem a ha')

/-! ## Two computations -/

section Together

variable {γ δ : Type u} {P : α → β → Prop} {Q : γ → δ → Prop}

/-- Both raise the same error, or both have values that are related. -/
def Together (P : α → β → Prop) : Except ε α → Except ε β → Prop
  | .ok a, .ok b => P a b
  | .error e, .error e' => e = e'
  | _, _ => False

theorem Together.bind {x : Except ε α} {y : Except ε β} {f : α → Except ε γ} {g : β → Except ε δ}
    (h : Together P x y) (hf : ∀ a b, P a b → Together Q (f a) (g b)) :
    Together Q (x >>= f) (y >>= g) := by
  cases x with
  | error e =>
    cases y with
    | error e' => exact h
    | ok b => exact h.elim
  | ok a =>
    cases y with
    | error e' => exact h.elim
    | ok b => exact hf a b h

/-- Two tests that agree. -/
theorem Together.ite {p q : Prop} [Decidable p] [Decidable q] (hpq : p ↔ q)
    {x x' : Except ε α} {y y' : Except ε β} (hx : p → Together P x y) (hy : ¬p → Together P x' y') :
    Together P (if p then x else x') (if q then y else y') := by
  by_cases hp : p
  · rw [if_pos hp, if_pos (hpq.mp hp)]
    exact hx hp
  · rw [if_neg hp, if_neg fun hq => hp (hpq.mpr hq)]
    exact hy hp

theorem Together.map {α' β' : Type u} {R : α' → β' → Prop} {f : α → α'} {g : β → β'}
    {x : Except ε α} {y : Except ε β} (h : Together P x y) (hP : ∀ a b, P a b → R (f a) (g b)) :
    Together R (x.map f) (y.map g) := by
  cases x with
  | error e =>
    cases y with
    | error e' => exact h
    | ok b => exact h.elim
  | ok a =>
    cases y with
    | error e' => exact h.elim
    | ok b => exact hP a b h

end Together

end LilTweak.Lib
