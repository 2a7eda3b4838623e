import LilTweak.Store.Memory

/-!
# Signed requests

The canonical message of a request, its signature and `verify_request`. Hashing,
case mapping, integer parsing and URL splitting are what the standard library
computes; nothing below depends on how.
-/

namespace LilTweak.Signing

open LilTweak.Lib LilTweak.Core LilTweak.Store

/-- The parts of `urlsplit` the canonical target reads. -/
structure SplitUrl where
  scheme : String
  netloc : String
  path : String
  query : String
  fragment : String

/-- The standard-library functions request signing calls. -/
structure Primitives where
  /-- `hashlib.sha256(body).hexdigest()`. -/
  sha256Hex : List UInt8 → String
  /-- `hmac.new(key, message, hashlib.sha256).hexdigest()`. -/
  hmacHex : List UInt8 → String → String
  /-- `int(text)`, when it does not raise. -/
  parseInt : String → Option Int
  upper : String → String
  lower : String → String
  urlsplit : String → Option SplitUrl
  parseQsl : String → List (String × String)
  quote : String → String
  /-- `urlunsplit(("", "", path, query, ""))`. -/
  urlunsplit : String → String → String

/-- The keyword arguments the signature covers. -/
structure SignedFields where
  keyId : String
  method : String
  pathAndQuery : String
  timestamp : String
  nonce : String
  bodySha256 : String
  requestId : String
  idempotencyKey : String
  ownerId : String
  deriving DecidableEq

structure SignedRequest where
  fields : SignedFields
  signature : String
  body : List UInt8

/-- The exceptions of request verification. -/
inductive SigningFault
  | authentication
  | replay
  deriving DecidableEq

def containsNewline (text : String) : Bool := text.toList.any fun c => c == '\n' || c == '\r'

/-- `pair[0]`, then `pair[1]`. -/
def pairBefore (a b : String × String) : Prop := a.1 < b.1 ∨ (a.1 = b.1 ∧ a.2 ≤ b.2)

instance : DecidableRel pairBefore := fun _ _ => inferInstanceAs (Decidable (_ ∨ _))

namespace Primitives

variable (P : Primitives)

/-- `_canonical_target`, `none` where it raises. -/
def canonicalTarget (pathAndQuery : String) : Option String :=
  if pathAndQuery.toList.head? ≠ some '/' ∨ containsNewline pathAndQuery then none
  else match P.urlsplit pathAndQuery with
    | none => none
    | some parsed =>
      if parsed.scheme ≠ "" ∨ parsed.netloc ≠ "" ∨ parsed.fragment ≠ "" then none
      else
        let pairs := (P.parseQsl parsed.query).insertionSort pairBefore
        let query := "&".intercalate (pairs.map fun p => P.quote p.1 ++ "=" ++ P.quote p.2)
        some (P.urlunsplit (if parsed.path = "" then "/" else parsed.path) query)

/-- `_field`, `none` where it raises. -/
def field (value : String) : Option String :=
  if value = "" ∨ containsNewline value then none else some value

/-- `_optional_field`, `none` where it raises. -/
def optionalField (value : String) : Option String :=
  if containsNewline value then none else some value

/-- `canonical_request`, `none` where it raises. -/
def canonicalRequest (f : SignedFields) : Option String := do
  let keyValue ← field f.keyId
  let methodValue := P.upper (← field f.method)
  let timestampValue ← field f.timestamp
  let nonceValue ← field f.nonce
  let digestValue := P.lower (← field f.bodySha256)
  let requestValue ← field f.requestId
  let idempotencyValue ← optionalField f.idempotencyKey
  let ownerValue ← field f.ownerId
  if validSha256 digestValue then
    let target ← P.canonicalTarget f.pathAndQuery
    some ("\n".intercalate ["v2", keyValue, methodValue, target, timestampValue, nonceValue,
      digestValue, requestValue, idempotencyValue, ownerValue])
  else none

/-- `sign_request`, `none` where it raises. -/
def signRequest (secret : List UInt8) (f : SignedFields) : Option String :=
  if secret = [] then none else (P.canonicalRequest f).map (P.hmacHex secret)

end Primitives

/-- `int(t)`, which truncates toward zero. -/
def truncate (t : Time) : Int := if 0 ≤ t then t.floor else t.ceil

/-- Every authentication check of `verify_request`; a check that raises fails. -/
def authentic (P : Primitives) (keys : String → Option (List UInt8)) (maxClockSkew : Int)
    (r : SignedRequest) (now : Time) : Bool :=
  match P.parseInt r.fields.timestamp, keys r.fields.keyId with
  | some timestamp, some key =>
    match P.signRequest key r.fields with
    | some expected =>
      decide (0 ≤ maxClockSkew) && decide ((truncate now - timestamp).natAbs ≤ maxClockSkew) &&
        P.sha256Hex r.body == P.lower r.fields.bodySha256 && expected == P.lower r.signature
    | none => false
  | _, _ => false

/-- `verify_request` with the store's `consume_nonce` as replay hook. The clock is
read once for the timestamp and then by the hook. -/
def verifyRequest (P : Primitives) (keys : String → Option (List UInt8)) (maxClockSkew : Int)
    (s : MemoryJobStore) (r : SignedRequest) (clk : Clock) :
    Except SigningFault Unit × MemoryJobStore :=
  if authentic P keys maxClockSkew r (clk 0) then
    match s.consumeNonce r.fields.keyId r.fields.nonce fun k => clk (k + 1) with
    | (.ok true, s') => (.ok (), s')
    | (_, s') => (.error .replay, s')
  else (.error .authentication, s)

end LilTweak.Signing
