import LilTweak.Lib.Prog

/-!
# Triples for programs that raise

A contract fixes what a program keeps while others interfere, and what may be
said of the exceptions it raises. Under a contract a program has triples: from
states where `pre` holds it returns with `post`. The rules follow the program;
its questions are specified by the user of the library.
-/

namespace LilTweak.Lib

/-- What the private and the shared state satisfy throughout, whatever others do,
and what holds of an exception where it is raised. -/
structure Contract {Q : Type} {A : Q → Type} {σ : Type} (P : Protocol Q A σ) (S ε : Type) where
  inv : S → σ → Prop
  raises : ε → σ → Prop
  stable : ∀ {l s s'}, inv l s → P.rely s s' → inv l s'

namespace Contract

variable {Q : Type} {A : Q → Type} {σ S ε α β : Type} {P : Protocol Q A σ}

/-- The contract with another account of the exceptions. -/
def raising (K : Contract P S ε) (raises : ε → σ → Prop) : Contract P S ε := { K with raises }

/-- From a state with `pre`, the program keeps the invariant and returns with `post`
or raises as the contract says. -/
def Triple (K : Contract P S ε) (pre : σ → Prop) (m : Act Q A S ε α) (post : α → σ → Prop) : Prop :=
  ∀ l s, K.inv l s → pre s →
    Act.Meets P m (fun a l s => K.inv l s ∧ post a s) (fun e l s => K.inv l s ∧ K.raises e s) l s

section
variable {K : Contract P S ε} {pre : σ → Prop} {post : α → σ → Prop}

/-- What holds of the shared state whatever others do to it. -/
def Stable (K : Contract P S ε) (p : σ → Prop) : Prop :=
  ∀ l s s', K.inv l s → p s → P.rely s s' → p s'

theorem stable_true : K.Stable fun _ => True := fun _ _ _ _ _ _ => trivial

theorem triple_pure {a : α} (hpost : K.Stable (post a)) (h : ∀ s, pre s → post a s) :
    K.Triple pre (pure a) post := by
  intro l s hinv hpre
  exact Act.meets_pure fun s' hs => ⟨K.stable hinv hs, hpost l s s' hinv (h s hpre) hs⟩

theorem triple_raise {e : ε} (hraises : K.Stable (K.raises e)) (h : ∀ s, pre s → K.raises e s) :
    K.Triple pre (Act.raise e : Act Q A S ε α) post := by
  intro l s hinv hpre
  exact Act.meets_raise fun s' hs => ⟨K.stable hinv hs, hraises l s s' hinv (h s hpre) hs⟩

theorem triple_get (hpre : K.Stable pre) :
    K.Triple pre Act.get fun l s => K.inv l s ∧ pre s := by
  intro l s hinv hs
  exact Act.meets_pure fun s' hr =>
    ⟨K.stable hinv hr, K.stable hinv hr, hpre l s s' hinv hs hr⟩

theorem triple_put {l' : S} (hpre : K.Stable pre) :
    K.Triple (fun s => K.inv l' s ∧ pre s) (Act.put l') fun _ => pre := by
  intro l s hinv hs
  exact Act.meets_pure fun s' hr => ⟨K.stable hs.1 hr, hpre l s s' hinv hs.2 hr⟩

theorem triple_bind {m : Act Q A S ε β} {f : β → Act Q A S ε α} {mid : β → σ → Prop}
    (h : K.Triple pre m mid) (hf : ∀ b, K.Triple (mid b) (f b) post) :
    K.Triple pre (m >>= f) post := by
  intro l s hinv hpre
  apply Act.meets_bind (h l s hinv hpre)
  intro b l' s' hb
  obtain ⟨hinv', hmid⟩ := hb s' (P.refl s')
  exact hf b l' s' hinv' hmid

/-- What the body's exceptions satisfy, its handler may rely on. -/
theorem triple_handle {m : Act Q A S ε α} {f : ε → Act Q A S ε α} {raises : ε → σ → Prop}
    (h : (K.raising raises).Triple pre m post) (hf : ∀ e, K.Triple (raises e) (f e) post) :
    K.Triple pre (m.handle f) post := by
  intro l s hinv hpre
  apply Act.meets_handle (h l s hinv hpre)
  intro e l' s' he
  obtain ⟨hinv', hraises⟩ := he s' (P.refl s')
  exact hf e l' s' hinv' hraises

theorem triple_ite {c : Prop} [Decidable c] {m m' : Act Q A S ε α} (h : c → K.Triple pre m post)
    (h' : ¬c → K.Triple pre m' post) : K.Triple pre (if c then m else m') post := by
  split
  · exact h ‹_›
  · exact h' ‹_›

theorem Triple.weaken {m : Act Q A S ε α} {pre' : σ → Prop} {post' : α → σ → Prop}
    (h : K.Triple pre m post) (hpre : ∀ s, pre' s → pre s) (hpost : ∀ a s, post a s → post' a s) :
    K.Triple pre' m post' := by
  intro l s hinv hpre'
  exact (h l s hinv (hpre s hpre')).weaken (fun a l s ha => ⟨ha.1, hpost a s ha.2⟩) fun _ _ _ he => he

/-- What the precondition says once and for all may be assumed. -/
theorem triple_given {m : Act Q A S ε α} {p : Prop} (hp : ∀ s, pre s → p)
    (h : p → K.Triple pre m post) : K.Triple pre m post := by
  intro l s hinv hs
  exact h (hp s hs) l s hinv hs

theorem triple_query {q : Q} {post : A q → σ → Prop} (hpre : K.Stable pre)
    (hpost : ∀ a, K.Stable (post a))
    (h : ∀ l s, K.inv l s → pre s → P.guard s q ∧ ∀ a s', P.answers s q a s' →
      K.inv l s' ∧ post a s') : K.Triple pre (Act.query q) post := by
  intro l s hinv hs
  apply Act.meets_query
  intro s' hr
  obtain ⟨hguard, hanswer⟩ := h l s' (K.stable hinv hr) (hpre l s s' hinv hs hr)
  constructor
  · exact hguard
  · intro a s'' ha s''' hr'
    obtain ⟨hinv', hpost'⟩ := hanswer a s'' ha
    exact ⟨K.stable hinv' hr', hpost a l s'' s''' hinv' hpost' hr'⟩

end

end Contract

end LilTweak.Lib
