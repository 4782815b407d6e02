import SiteRules.Pattern.Basic
import SiteRules.Url.Basic

/-!
# Matching

When a pattern applies to a URL.
-/

namespace SiteRules

/-- Whether a rule accepts the protocol, the host, the port and the path of a URL. -/
def SiteRule.accepts (rule : SiteRule) (url : Url) : Bool :=
  rule.protocols.accepts url.protocol
    && rule.hosts.accepts url.host
    && (rule.anyPort || rule.portFor? url.protocol = url.port)
    && (match rule.path with
      | none => true
      | some path => path = url.path)

/-- Whether a pattern applies to a URL. -/
def Pattern.accepts : Pattern → Url → Bool
  | .everything, _ => true
  | .site rule, url => rule.accepts url

end SiteRules
