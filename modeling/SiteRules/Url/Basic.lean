import SiteRules.Protocol

/-!
# URLs

A URL reduced to the parts that patterns compare, and the pattern that stands for its site.
-/

namespace SiteRules

/-- The parts of a URL. The port is the one in effect; the path is all that follows the authority,
as it is spelled. -/
structure Url where
  protocol : Text
  host : Text
  port : Option Nat
  path : Text
  explicitPort : Bool
deriving DecidableEq, Repr

namespace Url

/-- The host as a URL spells it: one that holds a colon stands between brackets. -/
def spelledHost (url : Url) : Text :=
  if url.host.any (· = ':') then
    CodePoint.ofChar '[' :: url.host ++ [CodePoint.ofChar ']']
  else url.host

/-- The pattern text that stands for the site of a URL. The port is left out when the URL does not
name it or names the default one. -/
def origin (url : Url) : Text :=
  let site := url.protocol ++ Text.ofChars [':', '/', '/'] ++ url.spelledHost
  match url.port with
  | some n =>
    if url.explicitPort && some n ≠ Protocol.defaultPort? url.protocol then
      site ++ CodePoint.ofChar ':' :: Text.ofNat n
    else site
  | none => site

end Url

end SiteRules
