import LilTweak.Lib.Unicode
import Mathlib

/-!
# UTF-16 strings

An ECMAScript string is a list of code units, in which surrogates may stand alone.
White space is what `String.prototype.trim` says it is.
-/

namespace LilTweak.Lib

/-- A UTF-16 code unit. -/
abbrev CodeUnit := Fin 0x10000

/-- An ECMAScript string. -/
abbrev JsString := List CodeUnit

instance codeUnitsNeZero : NeZero 0x10000 := ⟨Nat.succ_ne_zero 0xFFFF⟩

instance jsStringLawful : LawfulBEq JsString := inferInstance

/-- The code units of a character. -/
def codeUnits (c : Char) : List CodeUnit :=
  if h : c.toNat < 0x10000 then [⟨c.toNat, h⟩]
  else [Fin.ofNat 0x10000 (0xD800 + (c.toNat - 0x10000) / 0x400),
    Fin.ofNat 0x10000 (0xDC00 + (c.toNat - 0x10000) % 0x400)]

/-- The string of a text. -/
def JsString.ofText (s : String) : JsString := s.toList.flatMap codeUnits

/-- White space and line terminators. -/
def jsSpace (u : CodeUnit) : Bool :=
  let n := u.val
  (9 ≤ n && n ≤ 13) || n = 0x20 || n = 0xA0 || n = 0x1680 || (0x2000 ≤ n && n ≤ 0x200A) ||
    n = 0x2028 || n = 0x2029 || n = 0x202F || n = 0x205F || n = 0x3000 || n = 0xFEFF

/-- `s.trim()`. -/
def JsString.trim (s : JsString) : JsString := Lib.trim jsSpace s

/-- The code unit is this ASCII character. -/
def CodeUnit.is (u : CodeUnit) (c : Char) : Bool := u.val == c.toNat

/-- The code unit is in this range of ASCII characters. -/
def CodeUnit.between (u : CodeUnit) (a b : Char) : Bool := a.toNat ≤ u.val && u.val ≤ b.toNat

/-- `[a-f0-9]`. -/
def CodeUnit.hex (u : CodeUnit) : Bool := u.between 'a' 'f' || u.between '0' '9'

/-- `/^[a-f0-9]{n}$/`. -/
def JsString.hexOf (n : Nat) (s : JsString) : Bool := s.length == n && s.all CodeUnit.hex

/-- `s.startsWith(text)`. -/
def JsString.startsWith (s : JsString) (text : String) : Bool := (JsString.ofText text).isPrefixOf s

/-- `s.toLowerCase()` as far as ASCII results go: the Kelvin sign is the one character outside
ASCII whose lower case is an ASCII letter alone. -/
def CodeUnit.lower (u : CodeUnit) : CodeUnit :=
  if u.between 'A' 'Z' then Fin.ofNat 0x10000 (u.val + 32)
  else if u.val == 0x212A then Fin.ofNat 0x10000 'k'.toNat
  else u

end LilTweak.Lib
