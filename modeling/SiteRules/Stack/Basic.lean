import SiteRules.Value.Basic

/-!
# Stacks

Copying, reading and writing go down into what is nested, and the stack of the program bounds how
far they get. Where the bound lies depends on what the program runs on, on how deep the call is
already, and on what is nested in what. A stack is therefore given by the values and the texts for
which it suffices. Showing and comparing values take up less of it than copying them, and what is in
a store has been copied; for that work it is taken to suffice.
-/

namespace SiteRules

/-- The work that goes down into what is nested. -/
inductive Recursion where
  | copying
  | readingJson
  | writingJson
  | readingYaml
  | writingYaml
deriving DecidableEq, Repr

/-- The wording of the failure of some work for which the stack does not suffice. -/
def Recursion.message : Recursion → String
  | copying | writingJson => "maximum recursion depth exceeded while calling a Python object"
  | readingJson => "maximum recursion depth exceeded while decoding a JSON array from a unicode string"
  | readingYaml | writingYaml => "maximum recursion depth exceeded"

/-- What the stack of the program suffices for. -/
structure Stack where
  copies : Value → Bool
  readsJson : Text → Bool
  writesJson : Value → Bool
  readsYaml : Text → Bool
  writesYaml : Value → Bool

/-- The stack that suffices for everything. -/
def Stack.boundless : Stack :=
  ⟨fun _ => true, fun _ => true, fun _ => true, fun _ => true, fun _ => true⟩

namespace Value

mutual

/-- How many collections of a value are inside one another. -/
def depth : Value → Nat
  | list items => depthOfAll items + 1
  | tuple items => depthOfAll items + 1
  | set items => depthOfAll items + 1
  | map entries => depthOfEntries entries + 1
  | shared _ v => depth v
  | _ => 0

/-- The greatest depth of the values of a list. -/
def depthOfAll : List Value → Nat
  | [] => 0
  | v :: rest => max (depth v) (depthOfAll rest)

/-- The greatest depth of the keys and values of some entries. -/
def depthOfEntries : List (Value × Value) → Nat
  | [] => 0
  | (k, v) :: rest => max (max (depth k) (depth v)) (depthOfEntries rest)

end

end Value

end SiteRules
