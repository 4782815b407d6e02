import SiteRules.Pattern.Basic

/-!
# Coverage

The test by which a pattern counts as an ancestor of another one: every URL to which the inner
pattern applies is one to which the outer pattern applies.
-/

namespace SiteRules

/-- Whether `outer` accepts every protocol that `inner` does. -/
def ProtocolRule.covers (outer inner : ProtocolRule) : Bool :=
  match outer.names?, inner.names? with
  | none, _ => true
  | some _, none => false
  | some outerNames, some innerNames => innerNames.all fun name => outerNames.contains name

/-- Whether `outer` accepts every host that `inner` does. -/
def HostRule.covers (outer inner : HostRule) : Bool :=
  match outer, inner with
  | .any, _ => true
  | _, .any => false
  | .exactly host, .exactly other => other = host
  | .exactly _, .within _ => false
  | .within _, .within domain => outer.accepts domain
  | .within _, .exactly host => outer.accepts host

/-- Whether the one port of `outer`, for each protocol of `inner`, is that of `inner`. -/
def SiteRule.pinsPortOf (outer inner : SiteRule) : Bool :=
  !inner.anyPort &&
    match inner.protocols.names? with
    | none => inner.port = outer.port
    | some names => names.all fun name => outer.portFor? name = inner.portFor? name

/-- Whether `outer` is at least as broad as `inner` in every part. -/
def SiteRule.covers (outer inner : SiteRule) : Bool :=
  outer.protocols.covers inner.protocols
    && outer.hosts.covers inner.hosts
    && (outer.anyPort || outer.pinsPortOf inner)
    && (outer.path.isNone || outer.path = inner.path)

/-- Whether `outer` is at least as broad as `inner`. -/
def Pattern.covers : Pattern → Pattern → Bool
  | .everything, _ => true
  | .site _, .everything => false
  | .site outer, .site inner => outer.covers inner

end SiteRules
