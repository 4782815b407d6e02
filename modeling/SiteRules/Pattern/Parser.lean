import SiteRules.Pattern.Basic
import SiteRules.Text.Blank
import SiteRules.Text.Digit
import SiteRules.Text.Lower
import SiteRules.Text.Quoted

/-!
# Reading patterns

A pattern text is first cut into its raw parts (`RawPattern.ofText?`) and the parts are then read
one by one (`RawPattern.read`). A text that gives no pattern is rejected for a stated reason.
-/

namespace SiteRules

/-- The parts of a pattern text, as they are spelled. -/
structure RawPattern where
  protocol : Text
  host : Text
  port : Option Text
  path : Option Text
deriving DecidableEq, Repr

/-- Why a text is not a pattern. -/
inductive Pattern.Rejection where
  /-- The text does not have the shape of a pattern. -/
  | unrecognised
  /-- A protocol other than `http` and `https` is marked as optional. -/
  | optionalProtocol (protocol : Text)
  /-- The domain after `*.` has an empty label. -/
  | wildcardDomain (host : Text)
  /-- The port is past the last one. -/
  | portRange (port : Nat)
deriving DecidableEq, Repr

/-- The line that reports why the pattern text `source` was rejected. -/
def Pattern.Rejection.message (source : Text) : Pattern.Rejection → String
  | .unrecognised => s!"Pattern {source.quoted} is not a recognised shape"
  | .optionalProtocol p =>
    s!"Pattern {source.quoted} rejected: unsupported optional protocol {p.quoted}"
  | .wildcardDomain h => s!"Pattern {source.quoted} rejected: bad wildcard domain {h.quoted}"
  | .portRange n => s!"Pattern {source.quoted} rejected: port {n} out of range"

namespace CodePoint

/-- The letters of a protocol: those of basic Latin and the four code points that differ from one
of them in case only (dotted and dotless I, long S, and the Kelvin sign). -/
def isProtocolLetter (c : CodePoint) : Bool :=
  c.isBasicLetter || c.val = 0x130 || c.val = 0x131 || c.val = 0x17f || c.val = 0x212a

/-- The code points that can follow the first letter of a protocol. -/
def isProtocolPart (c : CodePoint) : Bool :=
  c.isProtocolLetter || c.isBasicDigit || c = '+' || c = '.' || c = '-'

/-- The code points that can stand in a host without brackets. -/
def isHostPart (c : CodePoint) : Bool :=
  !(c = '/' || c = ':' || c = '?' || c = '#' || c = '*' || c = '[' || c = ']' || c.isBlank)

/-- The code points that can stand in a host between brackets. -/
def isBracketedPart (c : CodePoint) : Bool :=
  c.isHexDigit || c = ':' || c = '.'

/-- The code points that open the path part of a pattern. -/
def opensPath (c : CodePoint) : Bool :=
  c = '/' || c = '?' || c = '#'

end CodePoint

namespace RawPattern

/-- The pattern text `*`, which is also the spelling of an unrestricted part. -/
def star : Text := Text.ofChars ['*']

/-- What stands between the protocol and the host. -/
def separator : Text := Text.ofChars [':', '/', '/']

/-- Cuts the protocol off the front of a text. -/
def cutProtocol? : Text → Option (Text × Text)
  | [] => none
  | c :: rest =>
    if c = '*' then some ([c], rest)
    else if c.isProtocolLetter then
      let name := c :: rest.takeWhile CodePoint.isProtocolPart
      match rest.dropWhile CodePoint.isProtocolPart with
      | [] => some (name, [])
      | d :: rest' => if d = '?' then some (name ++ [d], rest') else some (name, d :: rest')
    else none

/-- Cuts the separator off the front of a text. -/
def cutSeparator? (t : Text) : Option Text :=
  if separator.isPrefixOf t then some (t.drop separator.length) else none

/-- Cuts a non-empty run of host code points off the front of a text. -/
def cutRun? (t : Text) : Option (Text × Text) :=
  match t.takeWhile CodePoint.isHostPart with
  | [] => none
  | run => some (run, t.dropWhile CodePoint.isHostPart)

/-- Cuts the host off the front of a text. -/
def cutHost? : Text → Option (Text × Text)
  | [] => none
  | c :: rest =>
    if c = '[' then
      match rest.takeWhile CodePoint.isBracketedPart,
        rest.dropWhile CodePoint.isBracketedPart with
      | [], _ => none
      | _, [] => none
      | inner, d :: rest' => if d = ']' then some (c :: inner ++ [d], rest') else none
    else if c = '*' then
      match rest with
      | [] => some ([c], [])
      | d :: rest' =>
        if d = '.' then (cutRun? rest').map fun parts => (c :: d :: parts.1, parts.2)
        else some ([c], d :: rest')
    else cutRun? (c :: rest)

/-- Cuts the port, if there is one, off the front of a text. -/
def cutPort? : Text → Option (Option Text × Text)
  | [] => some (none, [])
  | c :: rest =>
    if c = ':' then
      match rest with
      | [] => none
      | d :: rest' =>
        if d = '*' then some (some [d], rest')
        else
          let digits := rest.takeWhile CodePoint.isDigit
          if 1 ≤ digits.length && digits.length ≤ 5 then
            some (some digits, rest.dropWhile CodePoint.isDigit)
          else none
    else some (none, c :: rest)

/-- Reads what follows the port: nothing, or a path to the end of the text. -/
def cutPath? : Text → Option (Option Text)
  | [] => some none
  | c :: rest => if c.opensPath then some (some (c :: rest)) else none

/-- Cuts a text into the parts of a pattern. -/
def ofText? (t : Text) : Option RawPattern := do
  let (protocol, rest) ← cutProtocol? t
  let rest ← cutSeparator? rest
  let (host, rest) ← cutHost? rest
  let (port, rest) ← cutPort? rest
  let path ← cutPath? rest
  return ⟨protocol, host, port, path⟩

/-- Reads a protocol part, in lower case. -/
def readProtocol (t : Text) : Except Pattern.Rejection ProtocolRule :=
  if t = star then .ok .any
  else if t = Protocol.http ++ [CodePoint.ofChar '?'] ∨ t = Protocol.https ++ [CodePoint.ofChar '?']
  then .ok .httpOrHttps
  else if t.getLast? = some (CodePoint.ofChar '?') then .error (.optionalProtocol t)
  else .ok (.only t)

/-- Whether the domain after `*.` has an empty label in front of its last one. -/
def hasEmptyLabel (domain : Text) : Bool :=
  domain.isEmpty || domain.head? = some (CodePoint.ofChar '.')
    || (Text.ofChars ['.', '.']).occursIn domain

/-- Reads a host part, in lower case. -/
def readHost (t : Text) : Except Pattern.Rejection HostRule :=
  if t = star then .ok .any
  else match t with
    | [] => .ok (.exactly [])
    | c :: rest =>
      if c = '*' then
        let domain := rest.drop 1
        if hasEmptyLabel domain then .error (.wildcardDomain t) else .ok (.within domain)
      else if c = '[' then .ok (.exactly rest.dropLast)
      else .ok (.exactly t)

/-- Reads a port part. -/
def readPort : Option Text → Except Pattern.Rejection PortRule
  | none => .ok .omitted
  | some t =>
    if t = star then .ok .wildcard
    else if t.decimal > 65535 then .error (.portRange t.decimal)
    else .ok (.number t.decimal)

/-- Reads the parts of a pattern; protocol and host do not depend on case. -/
def read (raw : RawPattern) : Except Pattern.Rejection Pattern := do
  let protocols ← readProtocol raw.protocol.lower
  let hosts ← readHost raw.host.lower
  let port ← readPort raw.port
  return .site ⟨protocols, hosts, port, raw.path⟩

end RawPattern

namespace Pattern

/-- Reads a pattern text, blanks at its ends being ignored. -/
def parse (source : Text) : Except Rejection Pattern :=
  let t := source.trim
  if t = RawPattern.star then .ok .everything
  else match RawPattern.ofText? t with
    | none => .error .unrecognised
    | some raw => raw.read

/-- The pattern that a text spells, if it spells one. -/
def parse? (source : Text) : Option Pattern :=
  (parse source).toOption

end Pattern

end SiteRules
