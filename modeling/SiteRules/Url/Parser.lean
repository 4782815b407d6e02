import SiteRules.Number.Literal
import SiteRules.Text.Blank
import SiteRules.Text.Lower
import SiteRules.Text.Quoted
import SiteRules.Text.Separator
import SiteRules.Url.Address
import SiteRules.Url.Basic

/-!
# Reading URLs

A URL text is split into scheme and authority (`Split.ofText`), the authority into host and port
(`HostPort.ofAuthority`), and each part is checked. A text that gives no URL is rejected for a
stated reason.

Brackets are checked as newer versions of `urlsplit` do, and version 3.11.2 as it is packaged with
their fix: a bracketed host stands right behind the user, and only a port follows it. Versions
without the fix, such as 3.11.10, accept `http://a[::1]/` and `http://[::1]@[a:b]/`.
-/

namespace SiteRules.Url

/-- Why a text is not a URL. -/
inductive Rejection where
  /-- The brackets of the authority are unbalanced or stand in the wrong place. -/
  | brackets
  /-- The text between brackets opens like a future kind of address and is none. -/
  | futureAddress
  /-- A version 4 address stands where only one of version 6 can. -/
  | bracketedVersion4
  /-- The text that should be a version 6 address is no address. -/
  | notAnAddress (host : Text)
  /-- The authority turns into another one when it is normalised. -/
  | compatibility (authority : Text)
  /-- The port is not a number. -/
  | portText (port : Text)
  /-- The port is not converted to a number. -/
  | portDigits (e : Literal.Error)
  /-- The port is past the last one. -/
  | portRange
  /-- There is no scheme, no authority or no host. -/
  | incomplete
  /-- Code points that do not count were left out in front of the path. -/
  | notVerbatim
deriving DecidableEq, Repr

/-- The line that reports why the URL text `source` was rejected. -/
def Rejection.message (source : Text) : Rejection → String
  | .brackets => s!"Unparsable URL {source.quoted}: Invalid IPv6 URL"
  | .futureAddress => s!"Unparsable URL {source.quoted}: IPvFuture address is invalid"
  | .bracketedVersion4 =>
    s!"Unparsable URL {source.quoted}: An IPv4 address cannot be in brackets"
  | .notAnAddress host =>
    s!"Unparsable URL {source.quoted}: {host.quoted} does not appear to be an IPv4 or IPv6 address"
  | .compatibility authority =>
    s!"Unparsable URL {source.quoted}: netloc '{authority.toString}' contains invalid characters "
      ++ "under NFKC normalization"
  | .portText port =>
    s!"Unparsable URL {source.quoted}: Port could not be cast to integer value as {port.quoted}"
  | .portDigits e => s!"Unparsable URL {source.quoted}: {e.message}"
  | .portRange => s!"Unparsable URL {source.quoted}: Port out of range 0-65535"
  | .incomplete => s!"URL {source.quoted} has no scheme or host"
  | .notVerbatim => s!"URL {source.quoted} does not round-trip through urlsplit"

/-- The code points that can stand in a scheme. -/
def isSchemePart (c : CodePoint) : Bool :=
  c.isBasicLetter || c.isBasicDigit || c = '+' || c = '.' || c = '-'

/-- The code points that end an authority. -/
def endsAuthority (c : CodePoint) : Bool :=
  c = '/' || c = '?' || c = '#'

/-- The code points that do not count anywhere in a URL. -/
def isIgnored (c : CodePoint) : Bool :=
  c = '\t' || c = '\r' || c = '\n'

/-- The scheme of a URL, in lower case, and its authority; either may be empty. -/
structure Split where
  scheme : Text
  authority : Text
deriving DecidableEq, Repr

/-- The scheme in front of the first colon, in lower case, and what follows it. -/
def cutScheme (t : Text) : Text × Text :=
  match t.cut? ':' with
  | none => ([], t)
  | some (scheme, rest) =>
    match scheme with
    | [] => ([], t)
    | c :: _ =>
      if c.isBasicLetter && scheme.all isSchemePart then (scheme.lower, rest) else ([], t)

/-- The authority after two slashes. -/
def cutAuthority : Text → Text
  | a :: b :: rest => if a = '/' ∧ b = '/' then rest.takeWhile fun c => !endsAuthority c else []
  | _ => []

/-- Splits a URL, leaving out controls in front of it and every tab and line end. -/
def Split.ofText (t : Text) : Split :=
  let kept := (t.dropWhile fun c => c.val ≤ 0x20).filter fun c => !isIgnored c
  let (scheme, rest) := cutScheme kept
  ⟨scheme, cutAuthority rest⟩

/-- The part of an authority after the last `@`. -/
def withoutUser (authority : Text) : Text :=
  match authority.cutLast? '@' with
  | some (_, rest) => rest
  | none => authority

/-- The text in front of the first `sep`, and the text behind it; all of it is in front when there
is no `sep`. -/
def partition (sep : CodePoint) (t : Text) : Text × Text :=
  (t.cut? sep).getD (t, [])

/-- The host and the port of an authority, as they are spelled; either may be empty. -/
structure HostPort where
  host : Text
  port : Text
deriving DecidableEq, Repr

/-- Splits an authority. A host between brackets may hold colons. -/
def HostPort.ofAuthority (authority : Text) : HostPort :=
  let t := withoutUser authority
  match t.cut? '[' with
  | some (_, bracketed) =>
    let (host, rest) := partition ']' bracketed
    ⟨host, (partition ':' rest).2⟩
  | none =>
    let (host, port) := partition ':' t
    ⟨host, port⟩

/-- Whether a text is a future kind of address: `v`, hexadecimal digits, a point, and more. -/
def isFutureAddress (t : Text) : Bool :=
  match t with
  | [] => false
  | _ :: rest =>
    let digits := rest.takeWhile CodePoint.isHexDigit
    match rest.dropWhile CodePoint.isHexDigit with
    | c :: _ :: _ => !digits.isEmpty && c = '.'
    | _ => false

/-- Checks the host of an authority that has brackets. -/
def checkBracketedHost (host : Text) : Except Rejection Unit :=
  if host.head? = some (CodePoint.ofChar 'v') then
    if isFutureAddress host then .ok () else .error .futureAddress
  else if Address.isVersion4 host then .error .bracketedVersion4
  else if Address.isVersion6 host then .ok ()
  else .error (.notAnAddress host)

/-- Checks the brackets of an authority, by the stricter rule of newer versions. -/
def checkBrackets (authority : Text) : Except Rejection Unit :=
  let opens := authority.any (· = '[')
  let closes := authority.any (· = ']')
  if opens ≠ closes then .error .brackets
  else if !opens then .ok ()
  else
    let t := withoutUser authority
    match t.cut? '[' with
    | some (before, bracketed) =>
      let (host, rest) := partition ']' bracketed
      if !before.isEmpty then .error .brackets
      else if !rest.isEmpty && rest.head? ≠ some (CodePoint.ofChar ':') then .error .brackets
      else checkBracketedHost host
    | none => checkBracketedHost (partition ':' t).1

/-- Checks that normalising an authority brings out no separator. -/
def checkCompatibility (authority : Text) : Except Rejection Unit :=
  if authority.any CodePoint.hidesSeparator then .error (.compatibility authority) else .ok ()

/-- Reads the port of an authority; an empty one counts as none. -/
def readPort (port : Text) : Except Rejection (Option Nat) :=
  if port.isEmpty then .ok none
  else if !port.all CodePoint.isBasicDigit then .error (.portText port)
  else match Literal.readInt 10 port with
    | .error e => .error (.portDigits e)
    | .ok n => if n > 65535 then .error .portRange else .ok (some n.toNat)

/-- The lower-case form of a host, of which the zone is put into lower case by itself. -/
def lowerHost (host : Text) : Text :=
  match host.cut? '%' with
  | none => host.lower.lower
  | some (name, zone) => (name.lower ++ CodePoint.ofChar '%' :: zone).lower

/-- Reads a URL text, blanks at its ends being ignored. -/
def parse (source : Text) : Except Rejection Url := do
  let raw := source.trim
  let split := Split.ofText raw
  checkBrackets split.authority
  checkCompatibility split.authority
  let hostPort := HostPort.ofAuthority split.authority
  let port ← readPort hostPort.port
  if split.scheme.isEmpty || split.authority.isEmpty || hostPort.host.isEmpty then
    throw .incomplete
  let opening := split.scheme ++ Text.ofChars [':', '/', '/'] ++ split.authority
  if !opening.lower.isPrefixOf raw.lower then
    throw .notVerbatim
  return {
    protocol := split.scheme.lower
    host := lowerHost hostPort.host
    port := port.orElse fun _ => Protocol.defaultPort? split.scheme.lower
    path := raw.drop opening.length
    explicitPort := port.isSome }

/-- The URL that a text spells, if it spells one. -/
def parse? (source : Text) : Option Url :=
  (parse source).toOption

end SiteRules.Url
