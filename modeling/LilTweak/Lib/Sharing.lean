import LilTweak.Lib.Pool

/-!
# Programs that own parts of the state

In a sharing, program `n` may rely on more than what holds of every step: `frame n` is what the
steps of the others leave alone. A fact is stable for `n` if it survives those steps; the rules take
a program from a stable fact to one. In a pool the permitted steps are those the sharing speaks of.
-/

namespace LilTweak.Lib

structure Sharing (Q : Type) (A : Q → Type) (σ : Type) where
  inv : σ → Prop
  le : σ → σ → Prop
  frame : Nat → σ → σ → Prop
  guard : Nat → σ → Q → Prop
  answers : σ → (q : Q) → A q → σ → Prop
  le_refl : ∀ s, le s s
  le_trans : ∀ {s t u}, le s t → le t u → le s u
  frame_refl : ∀ n s, frame n s s
  frame_trans : ∀ {n s t u}, frame n s t → frame n t u → frame n s u
  step : ∀ {n s q a s'}, inv s → guard n s q → answers s q a s' →
    inv s' ∧ le s s' ∧ ∀ m, m ≠ n → frame m s s'

namespace Sharing

variable {Q : Type} {A : Q → Type} {S ε σ α β R C E : Type} (D : Sharing Q A σ) (n : Nat)

/-- What program `n` relies on and keeps to. -/
def protocol : Protocol Q A σ where
  rely s s' := D.inv s → D.inv s' ∧ D.le s s' ∧ D.frame n s s'
  answers := D.answers
  guard := D.guard n
  refl s hs := ⟨hs, D.le_refl s, D.frame_refl n s⟩
  trans h h' hs := by
    obtain ⟨ht, hle, hframe⟩ := h hs
    obtain ⟨hu, hle', hframe'⟩ := h' ht
    exact ⟨hu, D.le_trans hle hle', D.frame_trans hframe hframe'⟩

/-- The others of `n` do not undo the fact. -/
def Stable (F : σ → Prop) : Prop := ∀ s s', D.inv s → F s → D.le s s' → D.frame n s s' → F s'

/-- Started where `pre` holds, the action of program `n` asks only guarded questions; it returns in
`ok` or raises in `err`. -/
structure Triple (pre : S → σ → Prop) (m : Act Q A S ε α) (ok : α → S → σ → Prop) (err : ε → S → σ → Prop) :
    Prop where
  meets : ∀ l s, D.inv s → pre l s →
    Act.Meets (D.protocol n) m (fun a l s => D.inv s ∧ ok a l s) (fun e l s => D.inv s ∧ err e l s) l s

variable {D n} {pre : S → σ → Prop} {ok : α → S → σ → Prop} {err : ε → S → σ → Prop}

theorem triple_pure {a : α} (hpre : ∀ l, D.Stable n (pre l)) (h : ∀ l s, D.inv s → pre l s → ok a l s) :
    D.Triple n pre (pure a : Act Q A S ε α) ok err := by
  constructor
  intro l s hs hp
  apply Act.meets_pure
  intro s' hr
  obtain ⟨hs', hle, hframe⟩ := hr hs
  exact ⟨hs', h l s' hs' (hpre l s s' hs hp hle hframe)⟩

theorem triple_raise {e : ε} (hpre : ∀ l, D.Stable n (pre l)) (h : ∀ l s, D.inv s → pre l s → err e l s) :
    D.Triple n pre (Act.raise e : Act Q A S ε α) ok err := by
  constructor
  intro l s hs hp
  apply Act.meets_raise
  intro s' hr
  obtain ⟨hs', hle, hframe⟩ := hr hs
  exact ⟨hs', h l s' hs' (hpre l s s' hs hp hle hframe)⟩

theorem triple_bind {mid : β → S → σ → Prop} {m : Act Q A S ε β} {f : β → Act Q A S ε α}
    (h : D.Triple n pre m mid err) (hf : ∀ b, D.Triple n (mid b) (f b) ok err) :
    D.Triple n pre (m >>= f) ok err := by
  constructor
  intro l s hs hp
  apply Act.meets_bind (h.meets l s hs hp)
  intro b l' s' hb
  obtain ⟨hs', hmid⟩ := hb s' ((D.protocol n).refl s')
  exact (hf b).meets l' s' hs' hmid

theorem triple_handle {raised : ε → S → σ → Prop} {m : Act Q A S ε α} {f : ε → Act Q A S ε α}
    (h : D.Triple n pre m ok raised) (hf : ∀ e, D.Triple n (raised e) (f e) ok err) :
    D.Triple n pre (m.handle f) ok err := by
  constructor
  intro l s hs hp
  apply Act.meets_handle (h.meets l s hs hp)
  intro e l' s' he
  obtain ⟨hs', hraised⟩ := he s' ((D.protocol n).refl s')
  exact (hf e).meets l' s' hs' hraised

theorem triple_ite {c : Prop} [Decidable c] {m m' : Act Q A S ε α} (h : c → D.Triple n pre m ok err)
    (h' : ¬c → D.Triple n pre m' ok err) : D.Triple n pre (if c then m else m') ok err := by
  split
  · next hc => exact h hc
  · next hc => exact h' hc

/-- A question asked where `pre` holds, answered so that a stable fact holds. -/
theorem triple_query {q : Q} {ok : A q → S → σ → Prop} (hpre : ∀ l, D.Stable n (pre l))
    (hok : ∀ a l, D.Stable n (ok a l)) (hguard : ∀ l s, D.inv s → pre l s → D.guard n s q)
    (h : ∀ l s a s', D.inv s → pre l s → D.answers s q a s' → D.inv s' → D.le s s' → ok a l s') :
    D.Triple n pre (Act.query q : Act Q A S ε (A q)) ok err := by
  constructor
  intro l s hs hp
  apply Act.meets_query
  intro s₁ hr
  obtain ⟨hs₁, hle, hframe⟩ := hr hs
  have hp₁ := hpre l s s₁ hs hp hle hframe
  have hg := hguard l s₁ hs₁ hp₁
  refine ⟨hg, fun a s₂ ha s₃ hr' => ?_⟩
  obtain ⟨hs₂, hle₂, _⟩ := D.step hs₁ hg ha
  obtain ⟨hs₃, hle₃, hframe₃⟩ := hr' hs₂
  exact ⟨hs₃, hok a l s₂ s₃ hs₂ (h l s₁ a s₂ hs₁ hp₁ ha hs₂ hle₂) hle₃ hframe₃⟩

theorem triple_get (hpre : ∀ l, D.Stable n (pre l)) :
    D.Triple n pre (Act.get : Act Q A S ε S) (fun a l s => a = l ∧ pre l s) err := by
  constructor
  intro l s hs hp s' hr
  obtain ⟨hs', hle, hframe⟩ := hr hs
  exact ⟨hs', rfl, hpre l s s' hs hp hle hframe⟩

theorem triple_put {l' : S} {ok : Unit → S → σ → Prop} (hpre : ∀ l, D.Stable n (pre l))
    (h : ∀ l s, D.inv s → pre l s → ok () l' s) :
    D.Triple n pre (Act.put l' : Act Q A S ε Unit) ok err := by
  constructor
  intro l s hs hp s' hr
  obtain ⟨hs', hle, hframe⟩ := hr hs
  exact ⟨hs', h l s' hs' (hpre l s s' hs hp hle hframe)⟩

theorem Triple.weaken {pre' : S → σ → Prop} {ok' : α → S → σ → Prop} {err' : ε → S → σ → Prop}
    {m : Act Q A S ε α} (h : D.Triple n pre m ok err) (hpre : ∀ l s, D.inv s → pre' l s → pre l s)
    (hok : ∀ a l s, D.inv s → ok a l s → ok' a l s) (herr : ∀ e l s, D.inv s → err e l s → err' e l s) :
    D.Triple n pre' m ok' err' := by
  constructor
  intro l s hs hp
  apply (h.meets l s hs (hpre l s hs hp)).weaken
  · exact fun a l s ha => ⟨ha.1, hok a l s ha.1 ha.2⟩
  · exact fun e l s he => ⟨he.1, herr e l s he.1 he.2⟩

/-- Where nothing holds nothing is asked. -/
theorem triple_never {m : Act Q A S ε α} (h : ∀ l s, D.inv s → ¬pre l s) : D.Triple n pre m ok err :=
  ⟨fun l s hs hp => absurd hp (h l s hs)⟩

/-- A fact that lasts is kept by whole programs. -/
theorem safe_lasting {F : σ → Prop} (hF : ∀ s s', D.inv s → F s → D.le s s' → F s') {post : α → σ → Prop}
    {p : Prog Q A α} : ∀ {s : σ}, D.inv s → F s → p.Safe (D.protocol n) post s →
      p.Safe (D.protocol n) (fun a s => post a s ∧ F s) s := by
  induction p with
  | done a =>
    intro s hs hf h s' hr
    exact ⟨h s' hr, hF s s' hs hf (hr hs).2.1⟩
  | ask q k ih =>
    intro s hs hf h s' hr
    obtain ⟨hs', hle, _⟩ := hr hs
    refine ⟨(h s' hr).1, fun a s'' ha => ?_⟩
    obtain ⟨hs'', hle', _⟩ := D.step hs' (h s' hr).1 ha
    exact ih a hs'' (hF s' s'' hs' (hF s s' hs hf hle) hle') ((h s' hr).2 a s'' ha)

theorem Triple.lasting {F : σ → Prop} {m : Act Q A S ε α} (hF : ∀ s s', D.inv s → F s → D.le s s' → F s')
    (h : D.Triple n pre m ok err) : D.Triple n (fun l s => pre l s ∧ F s) m (fun a l s => ok a l s ∧ F s)
      (fun e l s => err e l s ∧ F s) := by
  constructor
  intro l s hs ⟨hp, hf⟩
  refine (safe_lasting hF hs hf (h.meets l s hs hp)).weaken ?_
  rintro ⟨r, l'⟩ s' ⟨hpost, hf'⟩
  cases r with
  | ok a => exact ⟨hpost.1, hpost.2, hf'⟩
  | error e => exact ⟨hpost.1, hpost.2, hf'⟩

/-! ## Stable facts -/

theorem stable_const (p : Prop) : D.Stable n fun _ => p := fun _ _ _ hp _ _ => hp

theorem Stable.and {F G : σ → Prop} (hF : D.Stable n F) (hG : D.Stable n G) : D.Stable n fun s => F s ∧ G s :=
  fun s s' hs h hle hframe => ⟨hF s s' hs h.1 hle hframe, hG s s' hs h.2 hle hframe⟩

theorem Stable.or {F G : σ → Prop} (hF : D.Stable n F) (hG : D.Stable n G) : D.Stable n fun s => F s ∨ G s :=
  fun s s' hs h hle hframe => h.imp (fun h => hF s s' hs h hle hframe) fun h => hG s s' hs h hle hframe

theorem Stable.imp {p : Prop} {F : σ → Prop} (hF : p → D.Stable n F) : D.Stable n fun s => p → F s :=
  fun s s' hs h hle hframe hp => hF hp s s' hs (h hp) hle hframe

theorem Stable.forall {ι : Type} {F : ι → σ → Prop} (hF : ∀ i, D.Stable n (F i)) : D.Stable n fun s => ∀ i, F i s :=
  fun s s' hs h hle hframe i => hF i s s' hs (h i) hle hframe

theorem Stable.exists {ι : Type} {F : ι → σ → Prop} (hF : ∀ i, D.Stable n (F i)) : D.Stable n fun s => ∃ i, F i s :=
  fun s s' hs ⟨i, h⟩ hle hframe => ⟨i, hF i s s' hs h hle hframe⟩

/-- Every fact that lasts is stable for every program. -/
theorem stable_of_le {F : σ → Prop} (h : ∀ s s', D.inv s → F s → D.le s s' → F s') : D.Stable n F :=
  fun s s' hs hF hle _ => h s s' hs hF hle

/-! ## Pools -/

/-- The steps a sharing speaks of: the programs that may start under a number, and the choices that
may answer a question. -/
structure Permit (Q R C : Type) where
  starts : Nat → R → Prop
  choices : C → Q → Prop

/-- The step is permitted. -/
def Permit.Event (M : Permit Q R C) (w : Pool Q A α σ) : PoolEvent R C E → Prop
  | .start n r => M.starts n r
  | .resume n c => ∀ q k, w.runs.get? n = some (.ask q k) → M.choices c q
  | .crash _ => True
  | .outside _ => True

/-- A permitted step of a pool. -/
def PermittedStep (M : Permit Q R C) (W : PoolSpec Q A α σ R C E) (w : Pool Q A α σ) (e : PoolEvent R C E)
    (w' : Pool Q A α σ) : Prop := M.Event w e ∧ Pool.Step W w e w'

/-- What makes a pool safe for a sharing. -/
structure Hosts (D : Sharing Q A σ) (M : Permit Q R C) (W : PoolSpec Q A α σ R C E) (post : α → σ → Prop) : Prop where
  answers : ∀ s c q, M.choices c q → D.answers s q (W.perform s c q).1 (W.perform s c q).2
  outside : ∀ e s, D.inv s → D.inv (W.outside e s) ∧ D.le s (W.outside e s) ∧ ∀ n, D.frame n s (W.outside e s)
  program : ∀ n r s, M.starts n r → D.inv s → (W.program r).Safe (D.protocol n) post s

/-- Every program of the pool can go on under its number. -/
def Safe (D : Sharing Q A σ) (post : α → σ → Prop) (w : Pool Q A α σ) : Prop :=
  ∀ n p, w.runs.get? n = some p → p.Safe (D.protocol n) post w.state

variable {M : Permit Q R C} {W : PoolSpec Q A α σ R C E} {post : α → σ → Prop} {w w' : Pool Q A α σ}

theorem safe_start (s : σ) : D.Safe post ({ state := s } : Pool Q A α σ) := by
  intro n p h
  cases h

/-- A permitted step keeps the invariant and leaves every program safe. -/
theorem step_safe (hW : D.Hosts M W post) {e : PoolEvent R C E} (h : PermittedStep M W w e w')
    (hinv : D.inv w.state) (hw : D.Safe post w) : D.inv w'.state ∧ D.le w.state w'.state ∧ D.Safe post w' := by
  obtain ⟨hpermit, hstep⟩ := h
  cases e with
  | start n r =>
    simp only [Pool.Step, Pool.step?] at hstep
    split at hstep
    · cases hstep
    · obtain rfl := Option.some.inj hstep
      refine ⟨hinv, D.le_refl _, ?_⟩
      intro m p hp
      rw [Dict.get?_set] at hp
      split at hp
      · next hm =>
        obtain rfl := Option.some.inj hp
        rw [hm]
        exact hW.program n r _ hpermit hinv
      · exact hw m p hp
  | resume n c =>
    simp only [Pool.Step, Pool.step?] at hstep
    split at hstep
    · next q k hrun =>
      obtain rfl := Option.some.inj hstep
      obtain ⟨hguard, hnext⟩ := hw n _ hrun _ ((D.protocol n).refl _)
      have hans := hW.answers w.state c q (hpermit q k hrun)
      obtain ⟨hinv', hle, hothers⟩ := D.step hinv hguard hans
      refine ⟨hinv', hle, ?_⟩
      intro m p hp
      rw [Dict.get?_set] at hp
      split at hp
      · next hm =>
        obtain rfl := Option.some.inj hp
        rw [hm]
        exact hnext _ _ hans
      · next hm => exact (hw m p hp).later fun _ => ⟨hinv', hle, hothers m hm⟩
    · cases hstep
  | crash n =>
    obtain rfl := Option.some.inj hstep
    refine ⟨hinv, D.le_refl _, ?_⟩
    intro m p hp
    rw [Dict.get?_erase] at hp
    split at hp
    · cases hp
    · exact hw m p hp
  | outside e =>
    obtain rfl := Option.some.inj hstep
    obtain ⟨hinv', hle, hothers⟩ := hW.outside e w.state hinv
    exact ⟨hinv', hle, fun m p hp => (hw m p hp).later fun _ => ⟨hinv', hle, hothers m⟩⟩

/-- A run of permitted steps keeps the invariant and leaves every program safe. -/
theorem run_safe (hW : D.Hosts M W post) {events : List (PoolEvent R C E)}
    (h : Run (PermittedStep M W) w events w') (hinv : D.inv w.state) (hw : D.Safe post w) :
    D.inv w'.state ∧ D.le w.state w'.state ∧ D.Safe post w' := by
  induction h with
  | nil _ => exact ⟨hinv, D.le_refl _, hw⟩
  | cons hstep _ ih =>
    obtain ⟨hinv', hle, hw'⟩ := step_safe hW hstep hinv hw
    obtain ⟨hinv'', hle', hw''⟩ := ih hinv' hw'
    exact ⟨hinv'', D.le_trans hle hle', hw''⟩

/-- What a program of a safe pool has returned satisfies `post`. -/
theorem Safe.returned (h : D.Safe post w) {a : α} (hn : w.runs.get? n = some (.done a)) : post a w.state :=
  h n _ hn _ ((D.protocol n).refl _)

end Sharing

end LilTweak.Lib
