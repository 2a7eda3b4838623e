import LilTweak.Lib.Prog

/-!
# Disciplines

A discipline is a protocol whose programs rely on an invariant and on a preorder along which
the state moves, and keep to both. The rules follow the shape of an action; a fact an
action ends with is one the preorder cannot undo.
-/

namespace LilTweak.Lib

structure Discipline (Q : Type) (A : Q → Type) (σ : Type) where
  inv : σ → Prop
  le : σ → σ → Prop
  answers : σ → (q : Q) → A q → σ → Prop
  guard : σ → Q → Prop
  refl : ∀ s, le s s
  trans : ∀ {s t u}, le s t → le t u → le s u
  step : ∀ {s q a s'}, inv s → guard s q → answers s q a s' → inv s' ∧ le s s'

namespace Discipline

variable {Q : Type} {A : Q → Type} {S ε σ α β : Type} (D : Discipline Q A σ)

/-- The protocol of a discipline. -/
def protocol : Protocol Q A σ where
  rely s s' := D.inv s → D.inv s' ∧ D.le s s'
  answers := D.answers
  guard := D.guard
  refl s hs := ⟨hs, D.refl s⟩
  trans h h' hs := ⟨(h' (h hs).1).1, D.trans (h hs).2 (h' (h hs).1).2⟩

theorem keeps : D.protocol.Keeps := fun hg ha hs => D.step hs hg ha

/-- From here the action asks only guarded questions, and what it returns satisfies `post`. -/
def Does (m : Act Q A S ε α) (post : α → σ → Prop) (s : σ) : Prop :=
  ∀ l, Act.Meets D.protocol m (fun a _ s => D.inv s ∧ post a s) (fun _ _ _ => True) l s

variable {D} {s : σ}

theorem does_pure {a : α} {post : α → σ → Prop} (hs : D.inv s)
    (h : ∀ s', D.inv s' → D.le s s' → post a s') : D.Does (pure a : Act Q A S ε α) post s :=
  fun _ => Act.meets_pure fun s' hr => ⟨(hr hs).1, h s' (hr hs).1 (hr hs).2⟩

theorem does_raise {e : ε} {post : α → σ → Prop} : D.Does (Act.raise e : Act Q A S ε α) post s :=
  fun _ => Act.meets_raise fun _ _ => trivial

theorem does_bind {m : Act Q A S ε β} {f : β → Act Q A S ε α} {M : β → σ → Prop} {post : α → σ → Prop}
    (hs : D.inv s) (h : D.Does m M s)
    (hf : ∀ b s', D.inv s' → D.le s s' → M b s' → D.Does (f b) post s') :
    D.Does (m >>= f) post s := by
  intro l
  apply Act.meets_bind (M := fun b _ s' => D.protocol.rely s s' ∧ D.inv s' ∧ M b s')
  · exact ((h l).since D.keeps).weaken (fun _ _ _ hr => hr) fun _ _ _ _ => trivial
  · intro b l' s' hb
    obtain ⟨hr, hs', hm⟩ := hb s' (D.protocol.refl s')
    exact hf b s' hs' (hr hs).2 hm l'

theorem does_ite {c : Prop} [Decidable c] {m m' : Act Q A S ε α} {post : α → σ → Prop}
    (h : c → D.Does m post s) (h' : ¬c → D.Does m' post s) : D.Does (if c then m else m') post s := by
  split
  · next hc => exact h hc
  · next hc => exact h' hc

/-- A question, wherever it is asked from here on. -/
theorem does_query {q : Q} {post : A q → σ → Prop} (hs : D.inv s)
    (hguard : ∀ s', D.inv s' → D.le s s' → D.guard s' q)
    (h : ∀ s' a s'', D.inv s' → D.le s s' → D.answers s' q a s'' →
      ∀ s₃, D.inv s₃ → D.le s' s₃ → D.le s'' s₃ → post a s₃) :
    D.Does (Act.query q : Act Q A S ε (A q)) post s := by
  intro l
  apply Act.meets_query
  intro s' hr
  obtain ⟨hs', hle⟩ := hr hs
  refine ⟨hguard s' hs' hle, fun a s'' ha s₃ hr' => ?_⟩
  obtain ⟨hs'', hle'⟩ := D.step hs' (hguard s' hs' hle) ha
  obtain ⟨hs₃, hle₃⟩ := hr' hs''
  exact ⟨hs₃, h s' a s'' hs' hle ha s₃ hs₃ (D.trans hle' hle₃) hle₃⟩

theorem does_lift {p : Prog Q A α} {post : α → σ → Prop}
    (h : p.Safe D.protocol (fun a s => D.inv s ∧ post a s) s) :
    D.Does (Act.lift p : Act Q A S ε α) post s :=
  fun _ => Act.meets_lift h fun _ _ ha => ha

/-- A handler goes on wherever the action may have raised. -/
theorem does_handle {m : Act Q A S ε α} {f : ε → Act Q A S ε α} {post : α → σ → Prop} (hs : D.inv s)
    (h : D.Does m post s) (hf : ∀ e s', D.inv s' → D.le s s' → D.Does (f e) post s') :
    D.Does (m.handle f) post s := by
  intro l
  have hraises : Act.Meets D.protocol m (fun a _ s' => D.inv s' ∧ post a s') (fun _ _ s' => D.protocol.rely s s')
      l s := ((h l).since D.keeps).weaken (fun _ _ _ hr => hr.2) fun _ _ _ hr => hr.1
  apply Act.meets_handle hraises
  intro e l' s' he
  have hr := he s' (D.protocol.refl s')
  exact hf e s' (hr hs).1 (hr hs).2 l'

/-- The state an action returns in comes after the one it starts in. -/
theorem does_since {m : Act Q A S ε α} {post : α → σ → Prop} (hs : D.inv s) (h : D.Does m post s) :
    D.Does m (fun a s' => D.le s s' ∧ post a s') s :=
  fun l => ((h l).since D.keeps).weaken (fun _ _ _ hr => ⟨hr.2.1, (hr.1 hs).2, hr.2.2⟩) fun _ _ _ _ => trivial

theorem Does.weaken {m : Act Q A S ε α} {post post' : α → σ → Prop} (h : D.Does m post s)
    (hpost : ∀ a s, post a s → post' a s) : D.Does m post' s :=
  fun l => (h l).weaken (fun a _ s ha => ⟨ha.1, hpost a s ha.2⟩) fun _ _ _ _ => trivial

end Discipline

end LilTweak.Lib
