import Mathlib

/-!
# Fenced leases

What becomes of one leased item, event by event: it is granted under a generation, the grant is
revoked, or a holder settles it. `Fenced` is what a fence owes to such a record, and `Holds` the
invariant a store keeps to owe nothing: the highest generation so far, the grant it still honours
and whether the item is done.
-/

namespace LilTweak.Lib

/-- What happens to a leased item. -/
inductive LeaseEvent (W : Type*)
  | granted (generation : Int) (holder : W)
  | revoked
  | settled (generation : Int) (holder : W)

namespace LeaseEvent

variable {W : Type*}

def generation? : LeaseEvent W → Option Int
  | .granted generation _ => some generation
  | _ => none

def isSettled : LeaseEvent W → Bool
  | .settled _ _ => true
  | _ => false

/-- The grant in force after one more event. -/
def force (grant : Option (Int × W)) : LeaseEvent W → Option (Int × W)
  | .granted generation holder => some (generation, holder)
  | .revoked => none
  | .settled _ _ => grant

end LeaseEvent

variable {W : Type*}

/-- The last grant that no revocation follows. -/
def inForce (l : List (LeaseEvent W)) : Option (Int × W) := l.foldl LeaseEvent.force none

/-- Generations increase, the item is settled at most once, and only by the holder of the grant
that is in force. -/
structure Fenced (l : List (LeaseEvent W)) : Prop where
  increasing : (l.filterMap LeaseEvent.generation?).Pairwise (· < ·)
  once : l.countP LeaseEvent.isSettled ≤ 1
  held : ∀ before generation holder after, l = before ++ .settled generation holder :: after →
    inForce before = some (generation, holder)

/-- A record and what a store remembers of it. -/
structure Holds (l : List (LeaseEvent W)) (latest : Int) (grant : Option (Int × W)) (done : Prop) : Prop where
  fenced : Fenced l
  bounded : ∀ e ∈ l, ∀ generation, e.generation? = some generation → generation ≤ latest
  honoured : ∀ p, grant = some p → inForce l = some p
  finished : (∃ e ∈ l, e.isSettled = true) → done

theorem inForce_append (l : List (LeaseEvent W)) (e : LeaseEvent W) :
    inForce (l ++ [e]) = LeaseEvent.force (inForce l) e := by
  rw [inForce, List.foldl_append]
  rfl

/-- An event at the end of a list is the last one, or comes before it. -/
theorem snoc_eq_append_cons {α : Type*} {l before after : List α} {x y : α}
    (h : l ++ [x] = before ++ y :: after) : (before = l ∧ y = x) ∨ ∃ after', l = before ++ y :: after' := by
  rcases after.eq_nil_or_concat with rfl | ⟨after', z, rfl⟩
  · obtain ⟨hl, hx⟩ := List.append_inj' h rfl
    exact .inl ⟨hl.symm, (List.cons.inj hx).1.symm⟩
  · rw [List.concat_eq_append, ← List.cons_append, ← List.append_assoc] at h
    exact .inr ⟨after', (List.append_inj' h rfl).1⟩

namespace Fenced

variable {l : List (LeaseEvent W)}

theorem nil : Fenced ([] : List (LeaseEvent W)) where
  increasing := List.Pairwise.nil
  once := Nat.zero_le 1
  held before generation holder after h := by simp at h

theorem append {e : LeaseEvent W} (h : Fenced l)
    (hgrant : ∀ generation, e.generation? = some generation →
      ∀ e' ∈ l, ∀ earlier, e'.generation? = some earlier → earlier < generation)
    (hsettle : e.isSettled = true → ∀ e' ∈ l, e'.isSettled = false)
    (hheld : ∀ generation holder, e = .settled generation holder → inForce l = some (generation, holder)) :
    Fenced (l ++ [e]) where
  increasing := by
    rw [List.filterMap_append]
    apply List.pairwise_append.mpr
    refine ⟨h.increasing, ?_, ?_⟩
    · cases he : e.generation? <;> simp [he]
    · intro earlier hearlier generation hgeneration
      obtain ⟨e', he', hgen'⟩ := List.mem_filterMap.mp hearlier
      obtain ⟨e'', he'', hgen⟩ := List.mem_filterMap.mp hgeneration
      obtain rfl := List.mem_singleton.mp he''
      exact hgrant generation hgen e' he' earlier hgen'
  once := by
    rw [List.countP_append, List.countP_singleton]
    split
    · next hs =>
      have hnone : l.countP LeaseEvent.isSettled = 0 := by
        apply List.countP_eq_zero.mpr
        intro e' he'
        rw [hsettle hs e' he']
        exact Bool.false_ne_true
      omega
    · exact h.once
  held before generation holder after heq := by
    rcases snoc_eq_append_cons heq with ⟨rfl, he⟩ | ⟨after', hl⟩
    · exact hheld generation holder he.symm
    · exact h.held before generation holder after' hl

end Fenced

namespace Holds

variable {l : List (LeaseEvent W)} {latest latest' generation : Int} {grant grant' : Option (Int × W)}
  {done done' : Prop} {holder : W}

/-- Nothing has happened. -/
theorem start (latest : Int) (done : Prop) : Holds ([] : List (LeaseEvent W)) latest none done where
  fenced := Fenced.nil
  bounded e he := absurd he List.not_mem_nil
  honoured p hp := by cases hp
  finished h := by simp at h

/-- What the store remembers may become less precise. -/
theorem weaken (h : Holds l latest grant done) (hlatest : latest ≤ latest')
    (hgrant : ∀ p, grant' = some p → grant = some p) (hdone : done → done') : Holds l latest' grant' done' where
  fenced := h.fenced
  bounded e he g hg := (h.bounded e he g hg).trans hlatest
  honoured p hp := h.honoured p (hgrant p hp)
  finished hs := hdone (h.finished hs)

/-- A grant under a generation above the latest. -/
theorem granted (h : Holds l latest grant done) (hgen : latest < generation) :
    Holds (l ++ [.granted generation holder]) generation (some (generation, holder)) done where
  fenced := by
    apply h.fenced.append
    · intro g hg e he earlier hearlier
      obtain rfl := Option.some.inj hg
      exact lt_of_le_of_lt (h.bounded e he earlier hearlier) hgen
    · intro hs
      cases hs
    · intro g w he
      cases he
  bounded e he g hg := by
    rcases List.mem_append.mp he with hl | hlast
    · exact (h.bounded e hl g hg).trans hgen.le
    · obtain rfl := List.mem_singleton.mp hlast
      exact (Option.some.inj hg).ge
  honoured p hp := by
    rw [inForce_append]
    exact hp
  finished hs := by
    obtain ⟨e, he, hsettled⟩ := hs
    rcases List.mem_append.mp he with hl | hlast
    · exact h.finished ⟨e, hl, hsettled⟩
    · obtain rfl := List.mem_singleton.mp hlast
      cases hsettled

/-- The grant is revoked. -/
theorem revoked (h : Holds l latest grant done) : Holds (l ++ [.revoked]) latest none done where
  fenced := by
    apply h.fenced.append
    · intro g hg
      cases hg
    · intro hs
      cases hs
    · intro g w he
      cases he
  bounded e he g hg := by
    rcases List.mem_append.mp he with hl | hlast
    · exact h.bounded e hl g hg
    · obtain rfl := List.mem_singleton.mp hlast
      cases hg
  honoured p hp := by cases hp
  finished hs := by
    obtain ⟨e, he, hsettled⟩ := hs
    rcases List.mem_append.mp he with hl | hlast
    · exact h.finished ⟨e, hl, hsettled⟩
    · obtain rfl := List.mem_singleton.mp hlast
      cases hsettled

/-- The holder of the grant settles an item that is not done. -/
theorem settled (h : Holds l latest (some (generation, holder)) done) (hopen : ¬done) (hdone : done') :
    Holds (l ++ [.settled generation holder]) latest none done' where
  fenced := by
    apply h.fenced.append
    · intro g hg
      cases hg
    · intro _ e he
      apply Bool.eq_false_iff.mpr
      intro hs
      exact hopen (h.finished ⟨e, he, hs⟩)
    · intro g w he
      cases he
      exact h.honoured _ rfl
  bounded e he g hg := by
    rcases List.mem_append.mp he with hl | hlast
    · exact h.bounded e hl g hg
    · obtain rfl := List.mem_singleton.mp hlast
      cases hg
  honoured p hp := by cases hp
  finished _ := hdone

end Holds

end LilTweak.Lib
