import Mathlib

/-!
# Sharing a budget

Demands that each have a minimum and a maximum are served in turn: the next one gets its minimum and
an equal part of what is left over, up to its maximum.
-/

namespace LilTweak.Lib

/-- What a party needs and the most it can use. -/
structure Demand where
  minimum : Nat
  maximum : Nat
  bounds : minimum ≤ maximum

/-- The shares, where `extra` is left over once every minimum is reserved. -/
def fairShares : Nat → List Demand → List Nat
  | _, [] => []
  | extra, d :: rest =>
    let granted := min (d.maximum - d.minimum) (extra / (rest.length + 1))
    (d.minimum + granted) :: fairShares (extra - granted) rest

variable {extra : Nat} {ds : List Demand}

theorem fairShares_length : (fairShares extra ds).length = ds.length := by
  induction ds generalizing extra with
  | nil => rfl
  | cons d rest ih => simp [fairShares, ih]

/-- Together the shares stay within the minimums and what was left over. -/
theorem fairShares_sum_le : (fairShares extra ds).sum ≤ (ds.map Demand.minimum).sum + extra := by
  induction ds generalizing extra with
  | nil => exact Nat.zero_le _
  | cons d rest ih =>
    have hgranted : min (d.maximum - d.minimum) (extra / (rest.length + 1)) ≤ extra :=
      (Nat.min_le_right _ _).trans (Nat.div_le_self _ _)
    have hrest := @ih (extra - min (d.maximum - d.minimum) (extra / (rest.length + 1)))
    simp only [fairShares, List.map_cons, List.sum_cons]
    omega

/-- Every share lies between the minimum and the maximum of its demand. -/
theorem fairShares_bounds :
    List.Forall₂ (fun d share => d.minimum ≤ share ∧ share ≤ d.maximum) ds (fairShares extra ds) := by
  induction ds generalizing extra with
  | nil => exact .nil
  | cons d rest ih =>
    have hgranted : min (d.maximum - d.minimum) (extra / (rest.length + 1)) ≤ d.maximum - d.minimum :=
      Nat.min_le_left _ _
    have hbounds := d.bounds
    exact .cons ⟨Nat.le_add_right _ _, by omega⟩ ih

end LilTweak.Lib
