import SiteRules.Yaml.Graph.OfTokens
import SiteRules.Yaml.Graph.ToValue

/-!
# Reading YAML

The reader of texts that hold one document: characters become tokens, tokens a graph of nodes, and
the graph a value. A text without a document reads as null.
-/

namespace SiteRules.Yaml

/-- Reads a text that holds one document at most, of which the outer mappings are laid open down to
a level. -/
def read (levels : Nat) (cs : List Char) : Except Fault Value := do
  if !cs.all isAllowed then throw .malformed
  let (tokens, fault) := Token.scan cs
  match ← Graph.ofTokens tokens fault with
  | none => return .null
  | some (root, graph) =>
    let graph ← graph.check root
    return graph.toValue levels root

/-- Reads a text in which code points need not be characters. A surrogate is not allowed in YAML. -/
def readText (levels : Nat) (t : Text) : Except Fault Value :=
  if t.any CodePoint.isSurrogate then .error .malformed
  else read levels (t.map CodePoint.toChar)

end SiteRules.Yaml
