import LilTweak.Lib.Utf16
import Mathlib

/-!
# Trimmed strings

Trimming twice is trimming once, and a string without white space is trimmed as it is.
-/

namespace LilTweak.Lib

section
variable {α : Type*} {p : α → Bool} {l : List α}

/-- A list that does not start with such an item keeps its start. -/
theorem dropWhile_eq_self (h : ∀ x ∈ l.head?, p x = false) : l.dropWhile p = l := by
  cases l with
  | nil => rfl
  | cons x l => rw [List.dropWhile_cons_of_neg (by simp [h x rfl])]

theorem trim_trim : trim p (trim p l) = trim p l := by
  have hhead : ∀ x ∈ (trim p l).head?, p x = false := by
    intro x hx
    obtain ⟨rest, hrest⟩ := List.rdropWhile_prefix p (l.dropWhile p)
    have hstart : (l.dropWhile p).head? = some x := by
      rw [← hrest]
      cases ht : (l.dropWhile p).rdropWhile p with
      | nil =>
        rw [trim, ht] at hx
        cases hx
      | cons y s =>
        rw [trim, ht] at hx
        exact hx
    have hnot := List.head?_dropWhile_not p l
    rw [hstart] at hnot
    exact hnot
  show ((trim p l).dropWhile p).rdropWhile p = trim p l
  rw [dropWhile_eq_self hhead]
  exact List.rdropWhile_idempotent p _

theorem trim_eq_self (h : ∀ x ∈ l, p x = false) : trim p l = l := by
  have hhead : l.dropWhile p = l := dropWhile_eq_self fun x hx => h x (List.mem_of_mem_head? hx)
  unfold trim
  rw [hhead]
  apply (List.rdropWhile_eq_self_iff).mpr
  intro hne
  rw [h _ (List.getLast_mem hne)]
  exact Bool.false_ne_true

end

theorem JsString.trim_trim (s : JsString) : s.trim.trim = s.trim := Lib.trim_trim

theorem JsString.length_trim_le (s : JsString) : s.trim.length ≤ s.length := (trim_sublist _ _).length_le

end LilTweak.Lib
