import LilTweak.Lib.FormUrl
import LilTweak.Signing.Verify
import Mathlib.Data.List.SplitBy

/-!
# `urllib.parse`

The four functions `_canonical_target` calls. `urlsplit` is that of a URL without brackets in its
authority; where there is an authority, the caller refuses the URL anyway.
-/

namespace LilTweak.Signing

open LilTweak.Lib

/-- `scheme_chars`. -/
def schemeChar (c : Char) : Bool := c.isAlphanum || c == '+' || c == '-' || c == '.'

/-- The scheme of a URL, and what follows it. -/
def splitScheme (url : List Char) : List Char × List Char :=
  let before := url.takeWhile (· ≠ ':')
  if ':' ∈ url ∧ (before.head?.any Char.isAlpha) = true ∧ before.all schemeChar = true then
    (before.map Char.toLower, (url.dropWhile (· ≠ ':')).drop 1)
  else ([], url)

/-- The authority of a URL, and what follows it. -/
def splitNetloc (url : List Char) : List Char × List Char :=
  if ['/', '/'].isPrefixOf url then
    (((url.drop 2).takeWhile fun c => !(c == '/' || c == '?' || c == '#')),
      ((url.drop 2).dropWhile fun c => !(c == '/' || c == '?' || c == '#')))
  else ([], url)

/-- Both sides of the first separator. -/
def splitFirst (separator : Char) (text : List Char) : List Char × List Char :=
  (text.takeWhile (· ≠ separator), (text.dropWhile (· ≠ separator)).drop 1)

/-- `urlsplit`. -/
def urlsplit (url : String) : SplitUrl :=
  let clean := (url.toList.dropWhile fun c => c.toNat ≤ 0x20).filter fun c =>
    !(c == '\t' || c == '\n' || c == '\r')
  let (scheme, rest) := splitScheme clean
  let (netloc, rest) := splitNetloc rest
  let (rest, fragment) := splitFirst '#' rest
  let (path, query) := splitFirst '?' rest
  { scheme := String.ofList scheme
    netloc := String.ofList netloc
    path := String.ofList path
    query := String.ofList query
    fragment := String.ofList fragment }

/-- What follows a `%` in `unquote_to_bytes`. -/
def unquoteItem : List UInt8 → List UInt8
  | h :: l :: rest => match hexByte h l with
    | some byte => byte :: rest
    | none => 37 :: h :: l :: rest
  | item => 37 :: item

/-- `unquote_to_bytes`. -/
def unquoteToBytes (bytes : List UInt8) : List UInt8 :=
  match bytes.splitOn 37 with
  | [] => []
  | first :: items => first ++ items.flatMap unquoteItem

def isAscii (c : Char) : Bool := c.toNat < 128

/-- `unquote(text, encoding="utf-8", errors="replace")`, which decodes the runs of ASCII. -/
def unquote (text : List Char) : List Char :=
  if '%' ∈ text then
    (text.splitBy fun a b => isAscii a == isAscii b).flatMap fun run =>
      if run.all isAscii then decodeLossy (unquoteToBytes (encodeUtf8 run)) else run
  else text

/-- `parse_qsl(query, keep_blank_values=True, strict_parsing=False)`. -/
def parseQsl (query : String) : List (String × String) :=
  (query.toList.splitOn '&').filterMap fun nameValue =>
    if nameValue = [] then none
    else
      let (name, value) := splitFirst '=' nameValue
      let plus := fun part : List Char => part.map fun c => if c = '+' then ' ' else c
      some (String.ofList (unquote (plus name)), String.ofList (unquote (plus value)))

/-- `_ALWAYS_SAFE` with `~-._`, as bytes. -/
def safeByte (b : UInt8) : Bool :=
  let c := Char.ofNat b.toNat
  b.toNat < 128 && (c.isAlphanum || c ∈ "_.-~".toList)

/-- `quote(text, safe="~-._")`. -/
def quote (text : String) : String :=
  String.ofList ((encodeUtf8 text.toList).flatMap fun b =>
    if safeByte b then [Char.ofNat b.toNat] else percentByte b)

/-- `urlunsplit(("", "", path, query, ""))`, of a path that does not start with two slashes. -/
def urlunsplit (path query : String) : String := if query = "" then path else path ++ "?" ++ query

/-- The primitives with the functions of `urllib.parse`. -/
def Primitives.withUrllib (P : Primitives) : Primitives :=
  { P with
    urlsplit := fun url => some (Signing.urlsplit url)
    parseQsl := Signing.parseQsl
    quote := Signing.quote
    urlunsplit := Signing.urlunsplit }

end LilTweak.Signing
