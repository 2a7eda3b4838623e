import LilTweak.Lib.Dict
import LilTweak.Lib.Prog
import LilTweak.Lib.Run

/-!
# Programs at work on one shared state

A pool is a shared state and any number of programs. At each step a program starts, has
its next question answered, or stops for good, or the state changes from outside. If every
program is safe where it starts, a run of the pool changes the state only as all of
them rely on.
-/

namespace LilTweak.Lib

/-- A shared state and the programs under way, by number. -/
structure Pool (Q : Type) (A : Q → Type) (α σ : Type) where
  state : σ
  runs : Dict Nat (Prog Q A α) := ∅

/-- One step: a request comes in, a program goes on, a program stops, or the state changes. -/
inductive PoolEvent (R C E : Type)
  | start (n : Nat) (request : R)
  | resume (n : Nat) (choice : C)
  | crash (n : Nat)
  | outside (e : E)

section
variable {Q : Type} {A : Q → Type} {α σ R C E : Type}

/-- How a pool works: the program of a request, the answer to a question and what it does to the
state, as far as these are decided by a choice, and the changes from outside. -/
structure PoolSpec (Q : Type) (A : Q → Type) (α σ R C E : Type) where
  program : R → Prog Q A α
  perform : σ → C → (q : Q) → A q × σ
  outside : E → σ → σ

variable (W : PoolSpec Q A α σ R C E)

/-- Take a step, where it can be taken. -/
def Pool.step? (w : Pool Q A α σ) : PoolEvent R C E → Option (Pool Q A α σ)
  | .start n request => if w.runs.contains n then none
    else some { w with runs := w.runs.set n (W.program request) }
  | .resume n choice => match w.runs.get? n with
    | some (.ask q k) => some
      { state := (W.perform w.state choice q).2
        runs := w.runs.set n (k (W.perform w.state choice q).1) }
    | _ => none
  | .crash n => some { w with runs := w.runs.erase n }
  | .outside e => some { w with state := W.outside e w.state }

/-- Take steps in order. -/
def Pool.run? (w : Pool Q A α σ) : List (PoolEvent R C E) → Option (Pool Q A α σ)
  | [] => some w
  | e :: rest => (w.step? W e).bind fun w => w.run? rest

/-- The steps of a pool as a relation. -/
def Pool.Step (w : Pool Q A α σ) (e : PoolEvent R C E) (w' : Pool Q A α σ) : Prop :=
  w.step? W e = some w'

variable {W}

theorem Pool.run?_run {events : List (PoolEvent R C E)} : ∀ {w w' : Pool Q A α σ},
    w.run? W events = some w' → Run (Pool.Step W) w events w' := by
  induction events with
  | nil =>
    intro w w' h
    obtain rfl := Option.some.inj h
    exact .nil _
  | cons e rest ih =>
    intro w w' h
    obtain ⟨mid, hmid, hrest⟩ := Option.bind_eq_some_iff.mp h
    exact .cons hmid (ih hrest)

/-- A program that is about to ask has its question answered. -/
theorem Pool.Step.resume {w : Pool Q A α σ} {n : ℕ} {q : Q} {k : A q → Prog Q A α} (c : C)
    (h : w.runs.get? n = some (.ask q k)) :
    Pool.Step W w (.resume n c) ⟨(W.perform w.state c q).2, w.runs.set n (k (W.perform w.state c q).1)⟩ := by
  unfold Pool.Step Pool.step?
  dsimp only
  rw [h]

/-- Every program of the pool can go on, and what it returns satisfies `post`. -/
def Pool.SafeTo (P : Protocol Q A σ) (post : α → σ → Prop) (w : Pool Q A α σ) : Prop :=
  ∀ n p, w.runs.get? n = some p → p.Safe P post w.state

/-- Every program of the pool can go on. -/
def Pool.Safe (P : Protocol Q A σ) (w : Pool Q A α σ) : Prop :=
  ∀ n p, w.runs.get? n = some p → p.Safe P (fun _ _ => True) w.state

/-- What makes a pool safe to `post`: the questions are answered as the protocol says, the programs are
safe where they start, and the outside only makes changes they rely on. -/
structure PoolSpec.Fulfils (W : PoolSpec Q A α σ R C E) (P : Protocol Q A σ) (inv : σ → Prop)
    (post : α → σ → Prop) : Prop where
  keeps : P.Keeps
  stable : ∀ {s s'}, inv s → P.rely s s' → inv s'
  answers : ∀ s c q, P.guard s q → P.answers s q (W.perform s c q).1 (W.perform s c q).2
  outside : ∀ e s, P.rely s (W.outside e s)
  program : ∀ r s, inv s → (W.program r).Safe P post s

/-- What makes a pool safe, whatever its programs return. -/
structure PoolSpec.Respects (W : PoolSpec Q A α σ R C E) (P : Protocol Q A σ) (inv : σ → Prop) : Prop where
  keeps : P.Keeps
  stable : ∀ {s s'}, inv s → P.rely s s' → inv s'
  answers : ∀ s c q, P.guard s q → P.answers s q (W.perform s c q).1 (W.perform s c q).2
  outside : ∀ e s, P.rely s (W.outside e s)
  program : ∀ r s, inv s → (W.program r).Safe P (fun _ _ => True) s

variable {P : Protocol Q A σ} {inv : σ → Prop} {post : α → σ → Prop}

theorem PoolSpec.Respects.fulfils (hW : W.Respects P inv) : W.Fulfils P inv fun _ _ => True :=
  ⟨hW.keeps, hW.stable, hW.answers, hW.outside, hW.program⟩

/-- A step changes the state as the programs rely on, and leaves them safe. -/
theorem Pool.Step.safeTo (hW : W.Fulfils P inv post) {w w' : Pool Q A α σ} {e : PoolEvent R C E}
    (h : Pool.Step W w e w') (hinv : inv w.state) (hw : w.SafeTo P post) :
    P.rely w.state w'.state ∧ w'.SafeTo P post := by
  have others : ∀ {s : σ} {n : Nat} {p : Prog Q A α}, P.rely w.state s →
      p.Safe P post s → ∀ m q, (w.runs.set n p).get? m = some q → q.Safe P post s := by
    intro s n p hs hp m q hq
    rw [Dict.get?_set] at hq
    split at hq
    · exact Option.some.inj hq ▸ hp
    · exact (hw m q hq).later hs
  have same := P.refl w.state
  cases e with
  | start n request =>
    simp only [Pool.Step, Pool.step?] at h
    split at h
    · cases h
    · obtain rfl := Option.some.inj h
      exact ⟨same, others same (hW.program request _ hinv)⟩
  | resume n choice =>
    simp only [Pool.Step, Pool.step?] at h
    split at h
    · next q k hrun =>
      obtain rfl := Option.some.inj h
      obtain ⟨hguard, hnext⟩ := hw n _ hrun _ same
      have hans := hW.answers w.state choice q hguard
      have hs := hW.keeps hguard hans
      exact ⟨hs, others hs (hnext _ _ hans)⟩
    · cases h
  | crash n =>
    obtain rfl := Option.some.inj h
    refine ⟨same, fun m q hq => ?_⟩
    rw [Dict.get?_erase] at hq
    split at hq
    · cases hq
    · exact hw m q hq
  | outside e =>
    obtain rfl := Option.some.inj h
    have hs := hW.outside e w.state
    exact ⟨hs, fun m q hq => (hw m q hq).later hs⟩

/-- A run changes the state as the programs rely on, and leaves them safe. -/
theorem Pool.run_safeTo (hW : W.Fulfils P inv post) {w w' : Pool Q A α σ} {events : List (PoolEvent R C E)}
    (h : Run (Pool.Step W) w events w') (hinv : inv w.state) (hw : w.SafeTo P post) :
    P.rely w.state w'.state ∧ w'.SafeTo P post := by
  induction h with
  | nil _ => exact ⟨P.refl _, hw⟩
  | cons hstep _ ih =>
    obtain ⟨hs, hw'⟩ := hstep.safeTo hW hinv hw
    obtain ⟨hs', hw''⟩ := ih (hW.stable hinv hs) hw'
    exact ⟨P.trans hs hs', hw''⟩

theorem Pool.run_safe (hW : W.Respects P inv) {w w' : Pool Q A α σ} {events : List (PoolEvent R C E)}
    (h : Run (Pool.Step W) w events w') (hinv : inv w.state) (hw : w.Safe P) :
    P.rely w.state w'.state ∧ w'.Safe P :=
  Pool.run_safeTo hW.fulfils h hinv hw

theorem Pool.safeTo_start (s : σ) : Pool.SafeTo P post ({ state := s } : Pool Q A α σ) := by
  intro n p h
  cases h

theorem Pool.safe_start (s : σ) : Pool.Safe P ({ state := s } : Pool Q A α σ) := Pool.safeTo_start s

/-- What a program of a safe pool has returned satisfies `post`. -/
theorem Pool.SafeTo.returned {w : Pool Q A α σ} (h : w.SafeTo P post) {n : Nat} {a : α}
    (hn : w.runs.get? n = some (.done a)) : post a w.state :=
  h n _ hn _ (P.refl _)

end

end LilTweak.Lib
