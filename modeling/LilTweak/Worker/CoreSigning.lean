import LilTweak.Lib.CodeUnitOrder
import LilTweak.Lib.FormUrl

/-!
# Requests as the Worker signs them

`canonicalCoreTarget` and `canonicalCoreRequest`. The texts are free of lone surrogates; the
Worker compares them by their UTF-16 code units. The case mappings are Unicode's, and parameters.
-/

namespace LilTweak.Worker

open LilTweak.Lib

structure CoreRequestFields where
  keyId : String
  method : String
  pathAndQuery : String
  timestamp : String
  nonce : String
  bodySha256 : String
  requestId : String
  idempotencyKey : String
  ownerKey : String

def includesLineEnd (value : String) : Bool := value.toList.any fun c => c == '\n' || c == '\r'

/-- `safeField`. -/
def safeField (value label : String) : Except String String :=
  if value = "" ∨ includesLineEnd value = true then .error (label ++ " is invalid.") else .ok value

/-- `safeOptionalField`. -/
def safeOptionalField (value label : String) : Except String String :=
  if includesLineEnd value = true then .error (label ++ " is invalid.") else .ok value

/-! ## URLs in the Worker -/

/-- A letter or digit of ASCII. -/
def asciiAlphanumeric (c : Char) : Bool :=
  ('a' ≤ c && c ≤ 'z') || ('A' ≤ c && c ≤ 'Z') || ('0' ≤ c && c ≤ '9')

/-- `encodeURIComponent`. -/
def encodeURIComponent (value : List Char) : List Char :=
  percentEncode (fun c => asciiAlphanumeric c || c ∈ "-_.!~*'()".toList) value

/-- `queryComponent`. -/
def queryComponent (value : List Char) : List Char :=
  (encodeURIComponent value).flatMap fun c =>
    if c ∈ "!'()*".toList then '%' :: (Nat.toDigits 16 c.toNat).map Char.toUpper else [c]

/-- A part of a query as `application/x-www-form-urlencoded` reads it. -/
def formComponent (part : List Char) : String :=
  String.ofList (decodeLossy (percentDecode (encodeUtf8 (part.map fun c => if c = '+' then ' ' else c))))

/-- A name and its value; without a `=` the value is empty. -/
def formEntry (part : List Char) : String × String :=
  (formComponent (part.takeWhile (· ≠ '=')), formComponent ((part.dropWhile (· ≠ '=')).drop 1))

/-- `new URLSearchParams(query).entries()`, which drops one leading question mark. -/
def urlSearchParams (query : List Char) : List (String × String) :=
  let query := if query.head? = some '?' then query.tail else query
  ((query.splitOn '&').filter (· ≠ [])).map formEntry

/-- The comparison the Worker sorts the pairs with. -/
def comparePairs (left right : String × String) : Int :=
  if JsString.ofText left.1 < JsString.ofText right.1 then -1
  else if JsString.ofText right.1 < JsString.ofText left.1 then 1
  else if JsString.ofText left.2 < JsString.ofText right.2 then -1
  else if JsString.ofText right.2 < JsString.ofText left.2 then 1
  else 0

/-- The sort keeps `left` in front of `right`. -/
def pairNotAfter (left right : String × String) : Prop := comparePairs left right ≤ 0

instance : DecidableRel pairNotAfter := fun _ _ => inferInstanceAs (Decidable (_ ≤ _))

/-- `canonicalCoreTarget`. -/
def canonicalCoreTarget (value : String) : Except String String := do
  let target ← safeField value "Path"
  let chars := target.toList
  if chars.head? ≠ some '/' ∨ '#' ∈ chars then .error "Path is invalid."
  else
    let path := chars.takeWhile (· ≠ '?')
    let query := (chars.dropWhile (· ≠ '?')).drop 1
    let pairs := (urlSearchParams query).insertionSort pairNotAfter
    let canonicalQuery := ['&'].intercalate (pairs.map fun p =>
      queryComponent p.1.toList ++ '=' :: queryComponent p.2.toList)
    .ok (String.ofList (if canonicalQuery = [] then path else path ++ '?' :: canonicalQuery))

/-- `/^[a-f0-9]{64}$/`. -/
def validBodyDigest (digest : String) : Bool :=
  digest.length == 64 && digest.toList.all fun c => ('a' ≤ c && c ≤ 'f') || ('0' ≤ c && c ≤ '9')

/-- `canonicalCoreRequest`. -/
def canonicalCoreRequest (toUpperCase toLowerCase : String → String) (fields : CoreRequestFields) :
    Except String String := do
  let method := toUpperCase (← safeField fields.method "Method")
  let bodyDigest := toLowerCase (← safeField fields.bodySha256 "Body digest")
  if validBodyDigest bodyDigest = false then .error "Body digest is invalid."
  else
    .ok ("\n".intercalate ["v2",
      ← safeField fields.keyId "Key ID",
      method,
      ← canonicalCoreTarget fields.pathAndQuery,
      ← safeField fields.timestamp "Timestamp",
      ← safeField fields.nonce "Nonce",
      bodyDigest,
      ← safeField fields.requestId "Request ID",
      ← safeOptionalField fields.idempotencyKey "Idempotency key",
      ← safeField fields.ownerKey "Owner"])

end LilTweak.Worker
