import SiteRules.Text.CodePoint

/-!
# Protocols with a default port

The protocols that the rules name themselves, and the ports that a URL of a protocol uses when it
names none.
-/

namespace SiteRules.Protocol

/-- The protocol `http`. -/
def http : Text := Text.ofChars ['h', 't', 't', 'p']

/-- The protocol `https`. -/
def https : Text := Text.ofChars ['h', 't', 't', 'p', 's']

/-- The port of each protocol that has a default one. -/
def defaultPorts : List (Text × Nat) :=
  [(http, 80), (https, 443), (Text.ofChars ['w', 's'], 80), (Text.ofChars ['w', 's', 's'], 443),
    (Text.ofChars ['f', 't', 'p'], 21)]

/-- The port that a URL of the protocol uses when it names none. -/
def defaultPort? (protocol : Text) : Option Nat :=
  defaultPorts.lookup protocol

end SiteRules.Protocol
