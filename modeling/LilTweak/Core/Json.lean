import LilTweak.Lib.Dict
import Mathlib.Data.Rat.Defs
import Mathlib.Algebra.Order.Ring.Rat

/-!
# JSON values

The values that travel through proposals, manifests and events. The objects the
stores hold at top level are Python dicts; an object nested inside another is a
list of its fields, read by first occurrence.
-/

namespace LilTweak.Core

open LilTweak.Lib

/-- A value `json.loads` can return, finite numbers only. -/
inductive Json
  | null
  | bool (b : Bool)
  | int (i : Int)
  | float (x : ℚ)
  | str (s : String)
  | arr (items : List Json)
  | obj (fields : List (String × Json))

/-- The fields of a nested JSON object. -/
abbrev JsonFields := List (String × Json)

/-- A JSON object held as a dict. -/
abbrev JsonObj := Dict String Json

namespace Json

/-- The value is this exact string. -/
def isStr (s : String) : Option Json → Bool
  | some (.str t) => t == s
  | _ => false

/-- `value == n` for a Python integer, where `True` equals one. -/
def eqInt (n : Int) : Option Json → Bool
  | some (.int i) => i == n
  | some (.bool b) => (if b then 1 else 0) == n
  | some (.float x) => decide (x = n)
  | _ => false

/-- `isinstance(value, str)`. -/
def isString : Option Json → Bool
  | some (.str _) => true
  | _ => false

/-- `isinstance(value, int)`, which booleans satisfy as well. -/
def isInt : Option Json → Bool
  | some (.int _) | some (.bool _) => true
  | _ => false

/-- `isinstance(value, (int, float))`. -/
def isNumber : Option Json → Bool
  | some (.int _) | some (.bool _) | some (.float _) => true
  | _ => false

/-- `isinstance(value, Mapping)`. -/
def isMapping : Option Json → Bool
  | some (.obj _) => true
  | _ => false

mutual
/-- `_json_type_equal`: equality of values that never identifies two types. -/
def typeEqual : Json → Json → Bool
  | .null, .null => true
  | .bool a, .bool b => a == b
  | .int a, .int b => a == b
  | .float a, .float b => a == b
  | .str a, .str b => a == b
  | .arr a, .arr b => itemsEqual a b
  | .obj a, .obj b =>
    b.all (fun p => (a.map Prod.fst).contains p.1) && fieldsEqual a b
  | _, _ => false
/-- The list case: equal lengths and equal items. -/
def itemsEqual : List Json → List Json → Bool
  | [], [] => true
  | a :: as, b :: bs => typeEqual a b && itemsEqual as bs
  | _, _ => false
/-- The dict case: every field of the left has an equal value on the right. -/
def fieldsEqual : List (String × Json) → List (String × Json) → Bool
  | [], _ => true
  | (k, v) :: rest, right =>
    (match Entries.lookup k right with
      | some w => typeEqual v w
      | none => false) && fieldsEqual rest right
end

end Json

/-- `_json_type_equal` of two dicts. -/
def jsonTypeEqual (left right : JsonObj) : Bool :=
  Json.typeEqual (.obj left.entries) (.obj right.entries)

/-- `set(value) == set(names)`. -/
def JsonObj.keysAre (value : JsonObj) (names : List String) : Bool :=
  value.keys.all (fun k => names.contains k) && names.all (fun k => value.keys.contains k)

/-- The dict with these fields. -/
def JsonObj.ofFields (fields : List (String × Json)) : JsonObj :=
  fields.foldl (fun d p => d.set p.1 p.2) ∅

end LilTweak.Core
