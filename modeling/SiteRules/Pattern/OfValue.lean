import SiteRules.Pattern.Parser
import SiteRules.Value.Basic

/-!
# Patterns given as values

A pattern is looked up by the value that spells it. Only texts spell patterns, and a value that
can change cannot be looked up at all.
-/

namespace SiteRules

/-- A value of a kind that cannot be looked up. -/
structure Unhashable where
  kind : String
deriving DecidableEq, Repr

/-- The wording of the refusal to look a value up. -/
def Unhashable.message (e : Unhashable) : String :=
  s!"unhashable type: '{e.kind}'"

/-- The pattern that a value spells, if it spells one. -/
def Pattern.ofValue (v : Value) : Except Unhashable (Option Pattern) :=
  match v.mutablePart? with
  | some part => .error ⟨part.kindName⟩
  | none => match v.content with
    | .text t => .ok (parse? t)
    | _ => .ok none

end SiteRules
