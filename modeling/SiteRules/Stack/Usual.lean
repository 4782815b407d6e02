import SiteRules.Stack.Basic
import SiteRules.Yaml.Token.Lexer

/-!
# The usual stack

The bounds that the program meets if it is called without much around it: so many collections
inside one another are copied, read and written.
-/

namespace SiteRules

/-- How many brackets are open at most at a place of a text in JSON. Those between quotes do not
count; `quoted` tells that the text begins between quotes. -/
def Json.nesting (quoted : Bool) (here : Nat) : List Char → Nat
  | [] => here
  | c :: rest =>
    if quoted then
      match c, rest with
      | '\\', _ :: rest => max here (nesting true here rest)
      | '"', rest => max here (nesting false here rest)
      | _, rest => max here (nesting true here rest)
    else if c = '"' then max here (nesting true here rest)
    else if c = '[' || c = '\x7b' then max here (nesting false (here + 1) rest)
    else if c = ']' || c = '\x7d' then max here (nesting false (here - 1) rest)
    else max here (nesting false here rest)

/-- How many collections are open at most at a place of some tokens. -/
def Yaml.Token.nesting (here : Nat) : List Yaml.Token → Nat
  | [] => here
  | .blockSequenceStart :: rest | .blockMappingStart :: rest | .flowSequenceStart :: rest
  | .flowMappingStart :: rest => max here (nesting (here + 1) rest)
  | .blockEnd :: rest | .flowSequenceEnd :: rest | .flowMappingEnd :: rest =>
    max here (nesting (here - 1) rest)
  | _ :: rest => max here (nesting here rest)

/-- The usual stack. Writing YAML takes up more of it for each collection than the other work, and
JSON the least. -/
def Stack.usual : Stack where
  copies v := v.depth ≤ 490
  readsJson t := Json.nesting false 0 (t.map CodePoint.toChar) ≤ 980
  writesJson v := v.depth ≤ 980
  readsYaml t := t.any CodePoint.isSurrogate ||
    Yaml.Token.nesting 0 (Yaml.Token.scan (t.map CodePoint.toChar)).1 ≤ 480
  writesYaml v := v.depth ≤ 320

end SiteRules
