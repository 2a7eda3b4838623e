import LilTweak.Signing.Urllib
import Mathlib

/-!
# The parts of a URL

`urlsplit` with what it refuses, and the properties of its result that read the authority: the host,
the port, the user and the password. The Unicode tables and the syntax of an IPv6 address are given.
-/

namespace LilTweak.Install

open LilTweak.Lib LilTweak.Signing

/-- What is taken from the Unicode tables and from `ipaddress`. -/
structure Tables where
  /-- `str.lower`. -/
  lower : List Char → List Char
  /-- `unicodedata.normalize("NFKC", …)`. -/
  nfkc : List Char → List Char
  /-- The value of a decimal digit beyond ASCII. -/
  digit : Char → Option ℕ
  /-- `ipaddress.ip_address` reads an IPv6 address. -/
  ipv6 : List Char → Bool

/-- A `SplitResult`. -/
structure UrlParts where
  scheme : List Char
  netloc : List Char
  path : List Char
  query : List Char
  fragment : List Char
deriving DecidableEq

/-- `rpartition`: the text before the last separator, if there is one, and the text behind it. -/
def splitLast (separator : Char) (text : List Char) : Option (List Char) × List Char :=
  if separator ∈ text then
    (some ((text.reverse.dropWhile (· ≠ separator)).drop 1).reverse, (text.reverse.takeWhile (· ≠ separator)).reverse)
  else (none, text)

def hexLetter (c : Char) : Bool := c.isDigit || (decide ('a' ≤ c) && decide (c ≤ 'f')) || (decide ('A' ≤ c) && decide (c ≤ 'F'))

section
variable (T : Tables)

/-- `_check_bracketed_host`. -/
def checkBracketedHost (host : List Char) : Bool :=
  if host.head? = some 'v' then
    let digits := host.tail.takeWhile hexLetter
    let rest := host.tail.dropWhile hexLetter
    digits ≠ [] && rest.head? = some '.' && rest.tail ≠ []
  else T.ipv6 host

/-- `_check_bracketed_netloc`. -/
def checkBracketedNetloc (netloc : List Char) : Bool :=
  let (before, bracketed) := splitFirst '[' (splitLast '@' netloc).2
  if '[' ∈ (splitLast '@' netloc).2 then
    let (host, port) := splitFirst ']' bracketed
    before = [] && (port = [] || port.head? = some ':') && checkBracketedHost T host
  else checkBracketedHost T (splitFirst ':' (splitLast '@' netloc).2).1

/-- `_checknetloc`. -/
def checkNetloc (netloc : List Char) : Bool :=
  netloc.all isAscii ||
    let plain := netloc.filter (· ∉ ['@', ':', '#', '?'])
    T.nfkc plain = plain || (T.nfkc plain).all (· ∉ ['/', '?', '#', '@', ':'])

/-- `urlsplit`. -/
def splitUrl (url : List Char) : Option UrlParts :=
  let clean := (url.dropWhile fun c => c.toNat ≤ 0x20).filter (· ∉ ['\t', '\r', '\n'])
  let (scheme, rest) := splitScheme clean
  let (netloc, rest) := splitNetloc rest
  if decide ('[' ∈ netloc) ≠ decide (']' ∈ netloc) then none
  else if '[' ∈ netloc ∧ checkBracketedNetloc T netloc = false then none
  else
    let (rest, fragment) := splitFirst '#' rest
    let (path, query) := splitFirst '?' rest
    if checkNetloc T netloc = false then none else some ⟨scheme, netloc, path, query, fragment⟩

end

namespace UrlParts

variable (u : UrlParts)

/-- `_userinfo`: the user and the password. -/
def userinfo : Option (List Char) × Option (List Char) :=
  match (splitLast '@' u.netloc).1 with
  | none => (none, none)
  | some user => (some (splitFirst ':' user).1, if ':' ∈ user then some (splitFirst ':' user).2 else none)

/-- `_hostinfo`: the host and the text of the port. -/
def hostinfo : List Char × List Char :=
  let host := (splitLast '@' u.netloc).2
  if '[' ∈ host then
    let (name, port) := splitFirst ']' (splitFirst '[' host).2
    (name, (splitFirst ':' port).2)
  else splitFirst ':' host

/-- `hostname`; it is empty where there is none. A zone keeps its case. -/
def hostname (T : Tables) : List Char :=
  let (name, zone) := splitFirst '%' u.hostinfo.1
  if u.hostinfo.1 = [] then []
  else if '%' ∈ u.hostinfo.1 then T.lower name ++ '%' :: zone else T.lower name

/-- `port`, which raises where the text is no number of a port. -/
def port : Option (Option ℕ) :=
  if u.hostinfo.2 = [] then some none
  else if u.hostinfo.2.all Char.isDigit = true ∧ Nat.ofDigitChars 10 u.hostinfo.2 0 ≤ 65535 then
    some (some (Nat.ofDigitChars 10 u.hostinfo.2 0))
  else none

end UrlParts

end LilTweak.Install
