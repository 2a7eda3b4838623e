import LilTweak.Lib.Utf16
import Mathlib

/-!
# JSON values

The values of JSON as ECMAScript reads them, the text `JSON.stringify` writes, and the bytes
`TextEncoder` makes of a text. The text of a number is left to the runtime.
-/

namespace LilTweak.Lib

/-- A value of JSON; the fields of an object are in insertion order. -/
inductive Value
  | null
  | bool (b : Bool)
  | num (x : ℚ)
  | str (s : JsString)
  | arr (items : List Value)
  | obj (fields : List (JsString × Value))

namespace Value

/-- `typeof value === "object"`, and not `null`. -/
def isObject : Value → Bool
  | arr _ => true
  | obj _ => true
  | _ => false

/-- `value[key]`; `none` is `undefined`. -/
def get (v : Value) (key : JsString) : Option Value :=
  match v with
  | obj fields => (fields.find? fun e => decide (e.1 = key)).map Prod.snd
  | _ => none

/-- `value.name`. -/
def field (v : Value) (name : String) : Option Value := v.get (JsString.ofText name)

/-- `Object.keys(value).length`. -/
def keyCount : Value → Nat
  | arr items => items.length
  | obj fields => fields.length
  | _ => 0

/-- An object by its fields. -/
def object (fields : List (String × Value)) : Value := obj (fields.map fun e => (JsString.ofText e.1, e.2))

/-- The string of a text. -/
def text (s : String) : Value := str (JsString.ofText s)

end Value

/-! ## `JSON.stringify` -/

/-- A digit of `\u`. -/
def escapeDigit (n : Nat) : CodeUnit :=
  if n < 10 then Fin.ofNat 0x10000 ('0'.toNat + n) else Fin.ofNat 0x10000 ('a'.toNat + (n - 10))

/-- `\u` and four digits. -/
def unicodeEscape (u : CodeUnit) : JsString :=
  JsString.ofText "\\u" ++ [escapeDigit (u.val / 0x1000), escapeDigit (u.val / 0x100 % 16), escapeDigit (u.val / 16 % 16),
    escapeDigit (u.val % 16)]

/-- What is written for a code unit that is not part of a pair. -/
def escapeUnit (u : CodeUnit) : JsString :=
  if u.is '"' then JsString.ofText "\\\""
  else if u.is '\\' then JsString.ofText "\\\\"
  else if u.val = 8 then JsString.ofText "\\b"
  else if u.val = 9 then JsString.ofText "\\t"
  else if u.val = 10 then JsString.ofText "\\n"
  else if u.val = 12 then JsString.ofText "\\f"
  else if u.val = 13 then JsString.ofText "\\r"
  else if u.val < 32 ∨ 0xD800 ≤ u.val ∧ u.val < 0xE000 then unicodeEscape u
  else [u]

/-- The two code units are a surrogate pair. -/
def CodeUnit.pair (u v : CodeUnit) : Bool :=
  decide (0xD800 ≤ u.val ∧ u.val < 0xDC00 ∧ 0xDC00 ≤ v.val ∧ v.val < 0xE000)

/-- What is written between the quotes. -/
def escape : JsString → JsString
  | u :: v :: rest => if u.pair v then u :: v :: escape rest else escapeUnit u ++ escape (v :: rest)
  | [u] => escapeUnit u
  | [] => []

/-- A string in quotes. -/
def quoted (s : JsString) : JsString := JsString.ofText "\"" ++ escape s ++ JsString.ofText "\""

/-- Texts with a comma between them. -/
def commaSeparated : List JsString → JsString
  | [] => []
  | [s] => s
  | s :: t :: rest => s ++ JsString.ofText "," ++ commaSeparated (t :: rest)

mutual

/-- `JSON.stringify(value)`. -/
def stringify (numberText : ℚ → JsString) : Value → JsString
  | .null => JsString.ofText "null"
  | .bool true => JsString.ofText "true"
  | .bool false => JsString.ofText "false"
  | .num x => numberText x
  | .str s => quoted s
  | .arr items => JsString.ofText "[" ++ commaSeparated (stringifyItems numberText items) ++ JsString.ofText "]"
  | .obj fields =>
    JsString.ofText "\x7b" ++ commaSeparated (stringifyFields numberText fields) ++ JsString.ofText "\x7d"

/-- The texts of the items of an array. -/
def stringifyItems (numberText : ℚ → JsString) : List Value → List JsString
  | [] => []
  | v :: rest => stringify numberText v :: stringifyItems numberText rest

/-- The texts of the fields of an object. -/
def stringifyFields (numberText : ℚ → JsString) : List (JsString × Value) → List JsString
  | [] => []
  | (key, v) :: rest =>
    (quoted key ++ JsString.ofText ":" ++ stringify numberText v) :: stringifyFields numberText rest

end

/-! ## `TextEncoder` -/

/-- The UTF-8 bytes of a code point. -/
def utf8Bytes (n : Nat) : List UInt8 :=
  if n < 0x80 then [UInt8.ofNat n]
  else if n < 0x800 then [UInt8.ofNat (0xC0 + n / 0x40), UInt8.ofNat (0x80 + n % 0x40)]
  else if n < 0x10000 then
    [UInt8.ofNat (0xE0 + n / 0x1000), UInt8.ofNat (0x80 + n / 0x40 % 0x40), UInt8.ofNat (0x80 + n % 0x40)]
  else [UInt8.ofNat (0xF0 + n / 0x40000), UInt8.ofNat (0x80 + n / 0x1000 % 0x40),
    UInt8.ofNat (0x80 + n / 0x40 % 0x40), UInt8.ofNat (0x80 + n % 0x40)]

/-- The code point of a code unit that is not part of a pair; a lone surrogate is replaced. -/
def scalarOf (u : CodeUnit) : Nat := if 0xD800 ≤ u.val ∧ u.val < 0xE000 then 0xFFFD else u.val

/-- `new TextEncoder().encode(s)`. -/
def encodeText : JsString → List UInt8
  | u :: v :: rest =>
    if u.pair v then
      utf8Bytes (0x10000 + (u.val - 0xD800) * 0x400 + (v.val - 0xDC00)) ++ encodeText rest
    else utf8Bytes (scalarOf u) ++ encodeText (v :: rest)
  | [u] => utf8Bytes (scalarOf u)
  | [] => []

/-- `encodedByteLength`. -/
def encodedByteLength (s : JsString) : Nat := (encodeText s).length

end LilTweak.Lib
