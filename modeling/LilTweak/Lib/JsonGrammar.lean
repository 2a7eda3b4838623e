import LilTweak.Lib.PyJsonText
import Mathlib

/-!
# JSON texts

The grammar of JSON, for texts without blanks between their parts.
-/

namespace LilTweak.Lib

namespace JsonGrammar

/-- One or more digits. -/
def Digits (l : List Char) : Prop := l ≠ [] ∧ ∀ c ∈ l, c.isDigit = true

/-- A number: a sign, a whole part without leading zeros, a fraction and an exponent. -/
def Number (l : List Char) : Prop :=
  ∃ sign whole fraction exponent, l = sign ++ whole ++ fraction ++ exponent ∧
    (sign = [] ∨ sign = ['-']) ∧ Digits whole ∧ (whole.head? = some '0' → whole = ['0']) ∧
    (fraction = [] ∨ ∃ digits, fraction = '.' :: digits ∧ Digits digits) ∧
    (exponent = [] ∨ ∃ e s digits, exponent = e :: s ++ digits ∧ (e = 'e' ∨ e = 'E') ∧
      (s = [] ∨ s = ['+'] ∨ s = ['-']) ∧ Digits digits)

def HexDigit (c : Char) : Prop := c.isDigit = true ∨ 'a' ≤ c ∧ c ≤ 'f' ∨ 'A' ≤ c ∧ c ≤ 'F'

instance : DecidablePred HexDigit := fun c => inferInstanceAs (Decidable (c.isDigit = true ∨ 'a' ≤ c ∧ c ≤ 'f' ∨ 'A' ≤ c ∧ c ≤ 'F'))

/-- A character of a string or an escape. -/
inductive Piece : String → Prop
  | plain (c : Char) (control : 32 ≤ c.toNat) (quote : c ≠ '"') (backslash : c ≠ '\\') : Piece (String.singleton c)
  | short (e : Char) (mem : e ∈ ['"', '\\', '/', 'b', 'f', 'n', 'r', 't']) : Piece ("\\" ++ String.singleton e)
  | unit (digits : List Char) (four : digits.length = 4) (hex : ∀ d ∈ digits, HexDigit d) :
      Piece ("\\u" ++ String.ofList digits)

/-- A string in its quotes. -/
def Quoted (s : String) : Prop := ∃ pieces : List String, s = "\"" ++ String.join pieces ++ "\"" ∧ ∀ p ∈ pieces, Piece p

/-- A value without blanks. -/
inductive Value : String → Prop
  | null : Value "null"
  | true : Value "true"
  | false : Value "false"
  | number (s : String) (h : Number s.toList) : Value s
  | string (s : String) (h : Quoted s) : Value s
  | array (items : List String) (h : ∀ s ∈ items, Value s) : Value ("[" ++ ",".intercalate items ++ "]")
  | object (members : List (String × String)) (names : ∀ m ∈ members, Quoted m.1) (values : ∀ m ∈ members, Value m.2) :
      Value ("\x7b" ++ ",".intercalate (members.map fun m => m.1 ++ ":" ++ m.2) ++ "\x7d")

theorem number_nat (n : Nat) : Number (toString n).toList := by
  rw [Nat.toString_eq_ofList_toDigits, String.toList_ofList]
  refine ⟨[], Nat.toDigits 10 n, [], [], by simp, Or.inl rfl, ⟨Nat.toDigits_ne_nil, fun c hc => ?_⟩,
    PyJson.toDigits_head n, Or.inl rfl, Or.inl rfl⟩
  exact Nat.isDigit_of_mem_toDigits (by omega) (by omega) hc

theorem number_int (i : Int) : Number (toString i).toList := by
  cases i with
  | ofNat n => exact number_nat n
  | negSucc n =>
    have hneg : (toString (Int.negSucc n)).toList = '-' :: Nat.toDigits 10 (n + 1) := by
      rw [show toString (Int.negSucc n) = "-" ++ toString (n + 1) from rfl, String.toList_append,
        Nat.toString_eq_ofList_toDigits]
      exact congrArg ('-' :: ·) String.toList_ofList
    rw [hneg]
    refine ⟨['-'], Nat.toDigits 10 (n + 1), [], [], by simp, Or.inr rfl, ⟨Nat.toDigits_ne_nil, fun c hc => ?_⟩,
      PyJson.toDigits_head (n + 1), Or.inl rfl, Or.inl rfl⟩
    exact Nat.isDigit_of_mem_toDigits (by omega) (by omega) hc

/-- A digit is a value. -/
theorem value_zero : Value "0" := .number "0" (number_nat 0)

/-- The object with some members behind their quoted names. -/
theorem value_members (name : String → String) (hname : ∀ s, Quoted (name s)) (fields : List (String × String))
    (h : ∀ f ∈ fields, Value f.2) :
    Value ("\x7b" ++ ",".intercalate (fields.map fun f => name f.1 ++ ":" ++ f.2) ++ "\x7d") := by
  have hobject := Value.object (fields.map fun f => (name f.1, f.2))
    (by
      intro m hm
      obtain ⟨f, -, rfl⟩ := List.mem_map.mp hm
      exact hname f.1)
    (by
      intro m hm
      obtain ⟨f, hf, rfl⟩ := List.mem_map.mp hm
      exact h f hf)
  rw [List.map_map] at hobject
  exact hobject

end JsonGrammar

end LilTweak.Lib
