import LilTweak.Core.Json
import LilTweak.Lib.Unicode
import Mathlib

/-!
# Canonical JSON text

`json.dumps` with `ensure_ascii=False`, sorted keys and no blanks. How a float is
written is the interpreter's, so it is a parameter.
-/

namespace LilTweak.Core

open LilTweak.Lib

namespace Json

/-- Two hexadecimal digits of a control character. -/
def hexPair (n : Nat) : String := String.ofList [Nat.digitChar (n / 16), Nat.digitChar (n % 16)]

/-- One character inside a JSON string. -/
def escape (c : Char) : String :=
  if c = '"' then "\\\""
  else if c = '\\' then "\\\\"
  else if c = '\n' then "\\n"
  else if c = '\r' then "\\r"
  else if c = '\t' then "\\t"
  else if c = '\x08' then "\\b"
  else if c = '\x0c' then "\\f"
  else if c.toNat < 32 then "\\u00" ++ hexPair c.toNat
  else String.singleton c

/-- A JSON string literal. -/
def quote (s : String) : String := "\"" ++ String.join (s.toList.map escape) ++ "\""

def keyBefore (a b : String × String) : Prop := a.1 ≤ b.1

instance : DecidableRel keyBefore := fun a b => inferInstanceAs (Decidable (a.1 ≤ b.1))

variable (float : ℚ → String)

mutual
/-- `json.dumps(value, ensure_ascii=False, sort_keys=True, separators=(",", ":"))`. -/
def dumps : Json → String
  | .null => "null"
  | .bool true => "true"
  | .bool false => "false"
  | .int i => toString i
  | .float x => float x
  | .str s => quote s
  | .arr items => "[" ++ ",".intercalate (dumpsItems items) ++ "]"
  | .obj fields => "\x7b" ++ ",".intercalate (((dumpsFields fields).insertionSort keyBefore).map
      fun p => quote p.1 ++ ":" ++ p.2) ++ "\x7d"
/-- The items of an array. -/
def dumpsItems : List Json → List String
  | [] => []
  | item :: rest => dumps item :: dumpsItems rest
/-- The values of an object. -/
def dumpsFields : List (String × Json) → List (String × String)
  | [] => []
  | (k, v) :: rest => (k, dumps v) :: dumpsFields rest
end

/-! ## Sizes -/

theorem size_singleton (c : Char) : (String.singleton c).utf8ByteSize = c.utf8Size := by simp

theorem size_le_escape (c : Char) : c.utf8Size ≤ (escape c).utf8ByteSize := by
  unfold escape
  split
  · next h => subst h; decide
  split
  · next h => subst h; decide
  split
  · next h => subst h; decide
  split
  · next h => subst h; decide
  split
  · next h => subst h; decide
  split
  · next h => subst h; decide
  split
  · next h => subst h; decide
  split
  · have h4 := c.utf8Size_le_four
    have h : 4 ≤ ("\\u00" : String).utf8ByteSize := by decide
    rw [String.utf8ByteSize_append]
    omega
  · exact (size_singleton c).ge

theorem size_join (l : List String) :
    (String.join l).utf8ByteSize = (l.map String.utf8ByteSize).sum := by
  induction l with
  | nil => rfl
  | cons s l ih => simp [String.join_cons, String.utf8ByteSize_append, ih]

/-- A quoted string is at least as long as the string. -/
theorem size_le_quote (s : String) : s.utf8ByteSize ≤ (quote s).utf8ByteSize := by
  have h : ∀ l : List Char, (String.ofList l).utf8ByteSize ≤
      ((l.map escape).map String.utf8ByteSize).sum := by
    intro l
    induction l with
    | nil => simp
    | cons c l ih =>
      have hc := size_le_escape c
      simp only [List.map_cons, List.sum_cons, utf8ByteSize_ofList_cons]
      omega
  have hs := h s.toList
  rw [String.ofList_toList] at hs
  simp only [quote, String.utf8ByteSize_append, size_join]
  omega

/-- Joined strings are at least as long as any one of them. -/
theorem size_le_intercalate (sep : String) {s : String} {l : List String} (h : s ∈ l) :
    s.utf8ByteSize ≤ (sep.intercalate l).utf8ByteSize := by
  induction l with
  | nil => cases h
  | cons t l ih =>
    cases l with
    | nil => simp [List.mem_singleton.mp h]
    | cons u l =>
      rw [String.intercalate_cons_of_ne_nil (List.cons_ne_nil u l)]
      simp only [String.utf8ByteSize_append]
      rcases List.mem_cons.mp h with rfl | hl
      · omega
      · have := ih hl
        omega

end Json

end LilTweak.Core
