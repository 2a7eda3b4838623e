import LilTweak.Agent.ToolOutput
import Mathlib

/-!
# Texts cut to a number of bytes

`data[:n].decode("utf-8", "ignore")` drops the bytes of a character that does not fit whole, so that a
cut is the longest run of characters from the beginning that takes no more than the bytes.
-/

namespace LilTweak.Agent

open LilTweak.Lib LilTweak.Core LilTweak.Worlds

/-- The bytes of some characters. -/
def charsSize (l : List Char) : Nat := (l.map Char.utf8Size).sum

theorem charsSize_append (l m : List Char) : charsSize (l ++ m) = charsSize l + charsSize m := by
  simp [charsSize]

theorem charsSize_eq (s : String) : s.utf8ByteSize = charsSize s.toList := size_chars s

theorem charsSize_ofList (l : List Char) : (String.ofList l).utf8ByteSize = charsSize l := by
  rw [charsSize_eq, String.toList_ofList]

theorem fittingChars_begins (n : Nat) (l : List Char) : fittingChars n l <+: l := by
  induction l generalizing n with
  | nil => exact List.prefix_refl _
  | cons c l ih =>
    rw [fittingChars]
    split
    · exact List.cons_prefix_cons.mpr ⟨rfl, ih _⟩
    · exact List.nil_prefix

theorem fittingChars_le (n : Nat) (l : List Char) : charsSize (fittingChars n l) ≤ n := by
  induction l generalizing n with
  | nil => exact Nat.zero_le _
  | cons c l ih =>
    rw [fittingChars]
    split
    · next hfits =>
      have hrest := ih (n - c.utf8Size)
      show c.utf8Size + charsSize (fittingChars (n - c.utf8Size) l) ≤ n
      omega
    · exact Nat.zero_le _

/-- No longer run of characters fits. -/
theorem fittingChars_longest {n : Nat} {l k : List Char} (hbegins : k <+: l) (hfits : charsSize k ≤ n) :
    k <+: fittingChars n l := by
  induction l generalizing n k with
  | nil =>
    rw [List.prefix_nil.mp hbegins]
    exact List.nil_prefix
  | cons c l ih =>
    cases k with
    | nil => exact List.nil_prefix
    | cons d k =>
      obtain ⟨rfl, hk⟩ := List.cons_prefix_cons.mp hbegins
      have hsize : d.utf8Size + charsSize k ≤ n := hfits
      rw [fittingChars, if_pos (show d.utf8Size ≤ n by omega)]
      exact List.cons_prefix_cons.mpr ⟨rfl, ih hk (by omega)⟩

theorem cutBytes_toList (n : Nat) (s : String) : (cutBytes n s).toList = fittingChars n s.toList := by
  rw [cutBytes, String.toList_ofList]

theorem cutBytes_le (n : Nat) (s : String) : (cutBytes n s).utf8ByteSize ≤ n := by
  rw [cutBytes, charsSize_ofList]
  exact fittingChars_le n s.toList

theorem cutBytes_begins (n : Nat) (s : String) : (cutBytes n s).toList <+: s.toList := by
  rw [cutBytes_toList]
  exact fittingChars_begins n s.toList

/-- A text within the bytes stays whole. -/
theorem cutBytes_whole {n : Nat} {s : String} (h : s.utf8ByteSize ≤ n) : cutBytes n s = s := by
  rw [charsSize_eq] at h
  have hwhole := (fittingChars_begins n s.toList).eq_of_length_le (fittingChars_longest (List.prefix_refl _) h).length_le
  rw [cutBytes, hwhole, String.ofList_toList]

/-- Fewer bytes cut a shorter text. -/
theorem cutBytes_mono {n m : Nat} (h : n ≤ m) (s : String) : (cutBytes n s).toList <+: (cutBytes m s).toList := by
  rw [cutBytes_toList, cutBytes_toList]
  exact fittingChars_longest (fittingChars_begins n _) ((fittingChars_le n _).trans h)

end LilTweak.Agent
