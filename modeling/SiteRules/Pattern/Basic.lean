import SiteRules.Protocol

/-!
# Patterns

A pattern names a set of sites: all of them, or those whose protocol, host, port and path it
accepts.
-/

namespace SiteRules

/-- The protocols that a pattern accepts. -/
inductive ProtocolRule where
  | any
  | httpOrHttps
  | only (name : Text)
deriving DecidableEq, Repr

/-- The hosts that a pattern accepts: every one, a domain with all its subdomains, or one host. -/
inductive HostRule where
  | any
  | within (domain : Text)
  | exactly (host : Text)
deriving DecidableEq, Repr

/-- The port part of a pattern. -/
inductive PortRule where
  | omitted
  | wildcard
  | number (n : Nat)
deriving DecidableEq, Repr

/-- The parts of a pattern other than the one for every site. -/
structure SiteRule where
  protocols : ProtocolRule
  hosts : HostRule
  port : PortRule
  path : Option Text
deriving DecidableEq, Repr

/-- A pattern: `*`, which stands for every site, or a rule in parts. -/
inductive Pattern where
  | everything
  | site (rule : SiteRule)
deriving DecidableEq, Repr

/-- The shapes in which patterns are written. -/
inductive Pattern.Kind where
  | matchAll
  | protocolOnly
  | hostOnly
  | hostPort
  | hostWildcardPort
  | subdomainWildcard
  | exactUrl
deriving DecidableEq, Repr

namespace ProtocolRule

/-- Whether a protocol is accepted. -/
def accepts : ProtocolRule → Text → Bool
  | any, _ => true
  | httpOrHttps, protocol => protocol = Protocol.http || protocol = Protocol.https
  | only name, protocol => protocol = name

/-- The accepted protocols in alphabetical order, unless every one is accepted. -/
def names? : ProtocolRule → Option (List Text)
  | any => none
  | httpOrHttps => some [Protocol.http, Protocol.https]
  | only name => some [name]

end ProtocolRule

namespace HostRule

/-- Whether a host, in lower case, is accepted. -/
def accepts : HostRule → Text → Bool
  | any, _ => true
  | within domain, host => host = domain || List.isSuffixOf (CodePoint.ofChar '.' :: domain) host
  | exactly name, host => host = name

end HostRule

namespace SiteRule

/-- An omitted or wildcard port accepts every port, except that an omitted one in an exact URL
stands for the default port of its protocol. -/
def anyPort (rule : SiteRule) : Bool :=
  match rule.port with
  | .omitted => rule.path.isNone
  | .wildcard => true
  | .number _ => false

/-- The port that a URL of `protocol` has to use under a rule that does not accept every port. -/
def portFor? (rule : SiteRule) (protocol : Text) : Option Nat :=
  match rule.port with
  | .number n => some n
  | _ => Protocol.defaultPort? protocol

/-- The shape in which a rule is written. -/
def kind (rule : SiteRule) : Pattern.Kind :=
  match rule.path, rule.hosts, rule.port with
  | some _, _, _ => .exactUrl
  | none, .any, _ => .protocolOnly
  | none, .within _, _ => .subdomainWildcard
  | none, .exactly _, .omitted => .hostOnly
  | none, .exactly _, .wildcard => .hostWildcardPort
  | none, .exactly _, .number _ => .hostPort

end SiteRule

namespace Pattern

/-- The shape in which a pattern is written. -/
def kind : Pattern → Kind
  | everything => .matchAll
  | site rule => rule.kind

/-- The parts of a pattern; `*` is made of the broadest ones. -/
def rule : Pattern → SiteRule
  | everything => ⟨.any, .any, .omitted, none⟩
  | site rule => rule

/-- The name of a shape. -/
def Kind.name : Kind → String
  | matchAll => "match-all"
  | protocolOnly => "protocol-only"
  | hostOnly => "host-only"
  | hostPort => "host-port"
  | hostWildcardPort => "host-wildcard-port"
  | subdomainWildcard => "subdomain-wildcard"
  | exactUrl => "exact-url"

end Pattern

end SiteRules
