import SiteRules.Pattern.Basic

/-!
# Specificity

How narrow a pattern is. The parts count in this order: whether the pattern is not `*`, whether it
has a path, its host, its port and its protocols.
-/

namespace SiteRules

/-- The rank of a pattern, one digit for each part; larger digits are narrower. -/
structure Specificity where
  scope : Fin 2
  path : Fin 2
  host : Fin 3
  port : Fin 3
  protocol : Fin 3
deriving DecidableEq, Repr

namespace Specificity

/-- The digits read as one number, so that the order of numbers is the lexicographic order. -/
def weight (s : Specificity) : Nat :=
  (((s.scope.val * 2 + s.path.val) * 3 + s.host.val) * 3 + s.port.val) * 3 + s.protocol.val

/-- The digits in order of significance. -/
def digits (s : Specificity) : List Nat :=
  [s.scope.val, s.path.val, s.host.val, s.port.val, s.protocol.val]

instance : LE Specificity := ⟨fun a b => a.weight ≤ b.weight⟩

instance : LT Specificity := ⟨fun a b => a.weight < b.weight⟩

instance (a b : Specificity) : Decidable (a ≤ b) := Nat.decLe a.weight b.weight

instance (a b : Specificity) : Decidable (a < b) := Nat.decLt a.weight b.weight

/-- Ranks with the same weight are the same. -/
theorem weight_inj {a b : Specificity} (h : a.weight = b.weight) : a = b := by
  obtain ⟨a1, a2, a3, a4, a5⟩ := a
  obtain ⟨b1, b2, b3, b4, b5⟩ := b
  simp only [weight] at h
  simp only [mk.injEq, Fin.ext_iff]
  omega

end Specificity

/-- An exact host is narrower than a domain, and a domain than every host. -/
def HostRule.rank : HostRule → Fin 3
  | any => 0
  | within _ => 1
  | exactly _ => 2

/-- A numbered port is narrower than an omitted one, and an omitted one than `*`. -/
def PortRule.rank : PortRule → Fin 3
  | wildcard => 0
  | omitted => 1
  | number _ => 2

/-- One protocol is narrower than two, and two than every one. -/
def ProtocolRule.rank : ProtocolRule → Fin 3
  | any => 0
  | httpOrHttps => 1
  | only _ => 2

/-- The rank of a pattern. -/
def Pattern.specificity : Pattern → Specificity
  | everything => ⟨0, 0, 0, 0, 0⟩
  | site rule =>
    ⟨1, if rule.path.isSome then 1 else 0, rule.hosts.rank, rule.port.rank, rule.protocols.rank⟩

end SiteRules
