import SiteRules.Yaml.Tag

/-!
# Node graphs

What a document says before its scalars are read: nodes of a kind, numbered in the order in which
they begin, with their children given by number. A node that is named and referred to again is a
child of several nodes, and it can be its own descendant.
-/

namespace SiteRules.Yaml

/-- A node: its kind, and its content or its children. -/
inductive Node where
  | scalar (tag : Tag) (content : Text)
  | sequence (tag : Tag) (items : List Nat)
  | mapping (tag : Tag) (entries : List (Nat × Nat))
deriving Repr

/-- The kind of a node. -/
def Node.tag : Node → Tag
  | scalar tag _ => tag
  | sequence tag _ => tag
  | mapping tag _ => tag

/-- The node with another kind. -/
def Node.withTag (tag : Tag) : Node → Node
  | scalar _ content => scalar tag content
  | sequence _ items => sequence tag items
  | mapping _ entries => mapping tag entries

/-- The children of a node. -/
def Node.children : Node → List Nat
  | scalar _ _ => []
  | sequence _ items => items
  | mapping _ entries => entries.flatMap fun entry => [entry.1, entry.2]

/-- The nodes of a document by number. -/
structure Graph where
  nodes : Array Node

namespace Graph

/-- The graph without nodes. -/
def empty : Graph := ⟨#[]⟩

/-- The node with a number. -/
def get (g : Graph) (n : Nat) : Node := g.nodes[n]?.getD (.scalar .null [])

/-- The graph with another node in the place of one. -/
def set (g : Graph) (n : Nat) (node : Node) : Graph := ⟨g.nodes.setIfInBounds n node⟩

/-- The graph with one more node, and the number of that node. -/
def push (g : Graph) (node : Node) : Nat × Graph := (g.nodes.size, ⟨g.nodes.push node⟩)

/-- The number of nodes. -/
def size (g : Graph) : Nat := g.nodes.size

end Graph

end SiteRules.Yaml
