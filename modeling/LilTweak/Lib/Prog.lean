/-!
# Programs over a shared state

A program asks questions and goes on with the answers. Between two of its
questions the shared state may be changed by others, within a relation the
program relies on; `Safe` says that, whatever they do and whatever is answered,
each question is asked in a state that its guard admits. `Act` adds exceptions
and a private state that survives them.
-/

namespace LilTweak.Lib

/-- A program that asks questions of `Q`, answered in `A`, and returns an `α`. -/
inductive Prog (Q : Type) (A : Q → Type) (α : Type)
  | done (a : α)
  | ask (q : Q) (k : A q → Prog Q A α)

namespace Prog

variable {Q : Type} {A : Q → Type} {α β : Type}

/-- Run a program, then another on its result. -/
def bind : Prog Q A α → (α → Prog Q A β) → Prog Q A β
  | done a, f => f a
  | ask q k, f => ask q fun a => (k a).bind f

/-- The interleaving of a program that is about to ask `q` with another one; `turn` asks which of
them goes on, and `k` says how the first goes on beside what the other has become. -/
def parAsk (turn : Q) (first : A turn → Bool) (q : Q) (k : A q → Prog Q A β → Prog Q A (α × β))
    (whole : Prog Q A α) : Prog Q A β → Prog Q A (α × β)
  | done b => whole.bind fun a => .done (a, b)
  | ask q' k' => .ask turn fun t =>
    if first t then .ask q fun a => k a (.ask q' k')
    else .ask q' fun a => parAsk turn first q k whole (k' a)

/-- Two programs side by side, until both have returned. -/
def par (turn : Q) (first : A turn → Bool) : Prog Q A α → Prog Q A β → Prog Q A (α × β)
  | done a => fun r => r.bind fun b => .done (a, b)
  | ask q k => parAsk turn first q (fun a => par turn first (k a)) (.ask q k)

/-- `p.Steps l p'`: once its questions are answered as in `l`, `p` is left as `p'`. -/
inductive Steps : Prog Q A α → List ((q : Q) × A q) → Prog Q A α → Prop
  | nil (p : Prog Q A α) : Steps p [] p
  | cons {q : Q} {k : A q → Prog Q A α} {a : A q} {l : List ((q : Q) × A q)} {p : Prog Q A α} :
      Steps (k a) l p → Steps (.ask q k) (⟨q, a⟩ :: l) p

end Prog

/-- What programs may rely on and what they must guarantee: the changes others
make, what a question may be answered and do, and when it may be asked. -/
structure Protocol (Q : Type) (A : Q → Type) (σ : Type) where
  rely : σ → σ → Prop
  answers : σ → (q : Q) → A q → σ → Prop
  guard : σ → Q → Prop
  refl : ∀ s, rely s s
  trans : ∀ {s t u}, rely s t → rely t u → rely s u

/-- What a guarded question does is a change others may rely on. -/
def Protocol.Keeps {Q : Type} {A : Q → Type} {σ : Type} (P : Protocol Q A σ) : Prop :=
  ∀ {s q a s'}, P.guard s q → P.answers s q a s' → P.rely s s'

/-- Nobody interferes, and a record of the answers is kept; it satisfies `inv`
whenever a question is asked. -/
def Protocol.recording {Q : Type} {A : Q → Type} {σ : Type} (after : σ → (q : Q) → A q → σ)
    (inv : σ → Prop) : Protocol Q A σ where
  rely s s' := s' = s
  answers s q a s' := s' = after s q a
  guard s _ := inv s
  refl _ := rfl
  trans h h' := h'.trans h

section
variable {Q : Type} {A : Q → Type} {σ α β : Type} (P : Protocol Q A σ)

/-- Every question the program asks is guarded, and what it returns satisfies `post`. -/
def Prog.Safe (post : α → σ → Prop) : Prog Q A α → σ → Prop
  | .done a, s => ∀ s', P.rely s s' → post a s'
  | .ask q k, s => ∀ s', P.rely s s' → P.guard s' q ∧ ∀ a s'', P.answers s' q a s'' →
      (k a).Safe post s''

variable {P}

theorem Prog.Safe.later {post : α → σ → Prop} {p : Prog Q A α} {s s' : σ} (h : p.Safe P post s)
    (hs : P.rely s s') : p.Safe P post s' := by
  cases p with
  | done a => exact fun s'' h' => h s'' (P.trans hs h')
  | ask q k => exact fun s'' h' => h s'' (P.trans hs h')

/-- A program may be followed by one that is safe wherever the result of the first
holds for good. -/
theorem Prog.Safe.bind {post : α → σ → Prop} {post' : β → σ → Prop} {f : α → Prog Q A β}
    {p : Prog Q A α}
    (hf : ∀ a s, (∀ s', P.rely s s' → post a s') → (f a).Safe P post' s) :
    ∀ {s : σ}, p.Safe P post s → (p.bind f).Safe P post' s := by
  induction p with
  | done a => exact fun {s} h => hf a s h
  | ask q k ih => exact fun h s' hs => ⟨(h s' hs).1, fun a s'' ha => ih a ((h s' hs).2 a s'' ha)⟩

theorem Prog.Safe.weaken {post post' : α → σ → Prop} (hpost : ∀ a s, post a s → post' a s)
    {p : Prog Q A α} : ∀ {s : σ}, p.Safe P post s → p.Safe P post' s := by
  induction p with
  | done a => exact fun h s' hs => hpost _ _ (h s' hs)
  | ask q k ih => exact fun h s' hs => ⟨(h s' hs).1, fun a s'' ha => ih a ((h s' hs).2 a s'' ha)⟩

/-- The state a program returns in has only changed as others may rely on. -/
theorem Prog.Safe.since (hP : P.Keeps) {post : α → σ → Prop} {p : Prog Q A α} : ∀ {s : σ},
    p.Safe P post s → p.Safe P (fun a s' => P.rely s s' ∧ post a s') s := by
  induction p with
  | done a => exact fun h s' hs => ⟨hs, h s' hs⟩
  | ask q k ih =>
    intro s h s' hs
    refine ⟨(h s' hs).1, fun a s'' ha => ?_⟩
    have hstep := P.trans hs (hP (h s' hs).1 ha)
    exact (ih a ((h s' hs).2 a s'' ha)).weaken fun _ _ hr => ⟨P.trans hstep hr.1, hr.2⟩

/-- Two safe programs are safe side by side: what either has returned holds for good. -/
theorem Prog.Safe.par (hP : P.Keeps) {turn : Q} (first : A turn → Bool) (hturn : ∀ s, P.guard s turn)
    {post : α → σ → Prop} {post' : β → σ → Prop} {p : Prog Q A α} :
    ∀ {r : Prog Q A β} {s : σ}, p.Safe P post s → r.Safe P post' s →
      (p.par turn first r).Safe P (fun ab s => post ab.1 s ∧ post' ab.2 s) s := by
  induction p with
  | done a =>
    intro r s hp hr
    refine Prog.Safe.bind (fun b s' hb => ?_) (hr.since hP)
    exact fun s'' hs => ⟨hp s'' (hb s'' hs).1, (hb s'' hs).2⟩
  | ask q k ih =>
    intro r
    induction r with
    | done b =>
      intro s hp hr
      refine Prog.Safe.bind (fun a s' ha => ?_) (hp.since hP)
      exact fun s'' hs => ⟨(ha s'' hs).2, hr s'' (ha s'' hs).1⟩
    | ask q' k' ih' =>
      intro s hp hr s' hs
      refine ⟨hturn s', fun t s'' ht => ?_⟩
      have hs2 : P.rely s s'' := P.trans hs (hP (hturn s') ht)
      cases hfirst : first t with
      | true =>
        simp only [hfirst, ↓reduceIte]
        intro s3 hs3
        have hq := hp s3 (P.trans hs2 hs3)
        refine ⟨hq.1, fun a s4 ha => ih a (hq.2 a s4 ha) ?_⟩
        exact hr.later (P.trans (P.trans hs2 hs3) (hP hq.1 ha))
      | false =>
        simp only [hfirst, Bool.false_eq_true, ↓reduceIte]
        intro s3 hs3
        have hq := hr s3 (P.trans hs2 hs3)
        refine ⟨hq.1, fun a s4 ha => ih' a ?_ (hq.2 a s4 ha)⟩
        exact hp.later (P.trans (P.trans hs2 hs3) (hP hq.1 ha))

/-- The record of a safe program satisfies the invariant wherever the program is left. -/
theorem Prog.Safe.recorded {after : σ → (q : Q) → A q → σ} {inv : σ → Prop} {post : α → σ → Prop}
    (hpost : ∀ a s, post a s → inv s) {p p' : Prog Q A α} {l : List ((q : Q) × A q)}
    (hl : p.Steps l p') : ∀ {s : σ}, p.Safe (.recording after inv) post s →
      inv (l.foldl (fun s e => after s e.1 e.2) s) := by
  induction hl with
  | nil p =>
    intro s h
    cases p with
    | done a => exact hpost a s (h s rfl)
    | ask q k => exact (h s rfl).1
  | cons _ ih => exact fun h => ih ((h _ rfl).2 _ _ rfl)

end

/-! ## Exceptions and a private state -/

/-- A program with a private state that can raise; the state survives. -/
def Act (Q : Type) (A : Q → Type) (S ε α : Type) : Type := S → Prog Q A (Except ε α × S)

namespace Act

variable {Q : Type} {A : Q → Type} {S ε σ α β : Type}

/-- Return a value. -/
def pure (a : α) : Act Q A S ε α := fun l => .done (.ok a, l)

/-- Raise an exception. -/
def raise (e : ε) : Act Q A S ε α := fun l => .done (.error e, l)

/-- Go on unless an exception was raised. -/
def bind (m : Act Q A S ε α) (f : α → Act Q A S ε β) : Act Q A S ε β := fun l =>
  (m l).bind fun r =>
    match r with
    | (.ok a, l) => f a l
    | (.error e, l) => .done (.error e, l)

instance : Monad (Act Q A S ε) where
  pure := Act.pure
  bind := Act.bind

/-- Handle an exception. -/
def handle (m : Act Q A S ε α) (h : ε → Act Q A S ε α) : Act Q A S ε α := fun l =>
  (m l).bind fun r =>
    match r with
    | (.ok a, l) => .done (.ok a, l)
    | (.error e, l) => h e l

/-- Ask a question. -/
def query (q : Q) : Act Q A S ε (A q) := fun l => .ask q fun a => .done (.ok a, l)

/-- A program that neither raises nor touches the private state. -/
def lift (p : Prog Q A α) : Act Q A S ε α := fun l => p.bind fun a => .done (.ok a, l)

/-- Read the private state. -/
def get : Act Q A S ε S := fun l => .done (.ok l, l)

/-- Replace the private state. -/
def put (l : S) : Act Q A S ε Unit := fun _ => .done (.ok (), l)

/-- From this state on, the action asks only guarded questions; it returns in `ok`
or raises in `err`. -/
def Meets (P : Protocol Q A σ) (m : Act Q A S ε α) (ok : α → S → σ → Prop) (err : ε → S → σ → Prop)
    (l : S) (s : σ) : Prop :=
  (m l).Safe P (fun r s => match r with
    | (.ok a, l) => ok a l s
    | (.error e, l) => err e l s) s

section
variable {P : Protocol Q A σ} {ok : α → S → σ → Prop} {err : ε → S → σ → Prop} {l : S} {s : σ}

theorem meets_pure {a : α} (h : ∀ s', P.rely s s' → ok a l s') :
    Meets P (Pure.pure a : Act Q A S ε α) ok err l s := h

theorem meets_raise {e : ε} (h : ∀ s', P.rely s s' → err e l s') :
    Meets P (raise e : Act Q A S ε α) ok err l s := h

/-- An action goes on after one that returned. -/
theorem meets_bind {m : Act Q A S ε β} {f : β → Act Q A S ε α} {M : β → S → σ → Prop}
    (h : Meets P m M err l s)
    (hf : ∀ b l s, (∀ s', P.rely s s' → M b l s') → Meets P (f b) ok err l s) :
    Meets P (m >>= f) ok err l s := by
  refine Prog.Safe.bind ?_ h
  rintro ⟨r, l'⟩ s' hr
  cases r with
  | ok b => exact hf b l' s' hr
  | error e => exact hr

/-- A handler goes on after an action that raised. -/
theorem meets_handle {m : Act Q A S ε α} {f : ε → Act Q A S ε α} {raised : ε → S → σ → Prop}
    (h : Meets P m ok raised l s)
    (hf : ∀ e l s, (∀ s', P.rely s s' → raised e l s') → Meets P (f e) ok err l s) :
    Meets P (m.handle f) ok err l s := by
  refine Prog.Safe.bind ?_ h
  rintro ⟨r, l'⟩ s' hr
  cases r with
  | ok a => exact hr
  | error e => exact hf e l' s' hr

theorem meets_query {q : Q} {ok : A q → S → σ → Prop}
    (h : ∀ s', P.rely s s' → P.guard s' q ∧ ∀ a s'', P.answers s' q a s'' →
      ∀ s''', P.rely s'' s''' → ok a l s''') :
    Meets P (query q : Act Q A S ε (A q)) ok err l s := h

theorem meets_lift {p : Prog Q A α} {post : α → σ → Prop} (h : p.Safe P post s)
    (hok : ∀ a s', post a s' → ok a l s') : Meets P (lift p : Act Q A S ε α) ok err l s := by
  refine Prog.Safe.bind (fun a s' ha => ?_) h
  exact fun s'' hs => hok a s'' (ha s'' hs)

theorem Meets.weaken {m : Act Q A S ε α} {ok' : α → S → σ → Prop} {err' : ε → S → σ → Prop}
    (h : Meets P m ok err l s) (hok : ∀ a l s, ok a l s → ok' a l s)
    (herr : ∀ e l s, err e l s → err' e l s) : Meets P m ok' err' l s := by
  refine Prog.Safe.weaken ?_ h
  rintro ⟨r, l'⟩ s' hr
  cases r with
  | ok a => exact hok a l' s' hr
  | error e => exact herr e l' s' hr

theorem Meets.since (hP : P.Keeps) {m : Act Q A S ε α} (h : Meets P m ok err l s) :
    Meets P m (fun a l s' => P.rely s s' ∧ ok a l s') (fun e l s' => P.rely s s' ∧ err e l s') l s := by
  refine Prog.Safe.weaken ?_ (Prog.Safe.since hP h)
  rintro ⟨r, l'⟩ s' hr
  cases r with
  | ok a => exact hr
  | error e => exact hr

theorem Meets.later {m : Act Q A S ε α} {s' : σ} (h : Meets P m ok err l s) (hs : P.rely s s') :
    Meets P m ok err l s' := Prog.Safe.later h hs

end

end Act

end LilTweak.Lib
