import SiteRules.Yaml.Graph.Merge
import SiteRules.Yaml.Scalar
import Std.Data.HashSet

/-!
# Checking a graph

Every node has to spell a value of its kind. Nodes are checked level by level from the root, keys
together with all that is under them, and the first fault in that order is the one that is told.
-/

namespace SiteRules.Yaml

/-- The state of the check: the graph, with the merge keys of the mappings met taken out, the nodes
checked, those whose content is being checked, and the collections left for the next level. -/
structure Checker where
  graph : Graph
  checked : Std.HashSet Nat
  open_ : List Nat
  next : List Nat

namespace Checker

/-- Whether the values of a kind have other values inside. -/
def isCollection : Tag → Bool
  | .seq | .map | .set | .omap | .pairs => true
  | _ => false

/-- The scalar content of a node; a mapping stands for the scalar under its value key. -/
def content (g : Graph) : Nat → Nat → Except Fault Text
  | 0, _ => .error .endless
  | fuel + 1, n =>
    match g.get n with
    | .scalar _ t => .ok t
    | .sequence _ _ => .error .malformed
    | .mapping _ entries =>
      match entries.find? fun entry => (g.get entry.1).tag = .value with
      | some entry => content g fuel entry.2
      | none => .error .malformed

/-- The value of a node that is no collection. -/
def scalarValue (g : Graph) (n : Nat) : Except Fault Value := do
  match (g.get n).tag with
  | .unknown _ => throw .malformed
  | .merge => throw .malformed
  | .value => throw .malformed
  | tag =>
    let t ← content g (g.size + 1) n
    if tag = .timestamp && g.isMapping n then throw .timeMapping
    Scalar.read tag n t

mutual

/-- Checks a node. A collection is left for the next level, or checked at once where `deep`. -/
def visit (deep : Bool) : Nat → Nat → Checker → Except Fault Checker
  | 0, _, _ => .error .malformed
  | fuel + 1, n, s =>
    if s.checked.contains n then .ok s
    else if s.open_.contains n then .error .malformed
    else if isCollection (s.graph.get n).tag then
      if deep then do
        let s ← visitContent true fuel n { s with open_ := n :: s.open_ }
        return { s with checked := s.checked.insert n, open_ := s.open_.erase n }
      else .ok { s with checked := s.checked.insert n, next := n :: s.next }
    else do
      let _ ← scalarValue s.graph n
      return { s with checked := s.checked.insert n }

/-- Checks what is inside a collection, which has to be written as its kind asks. A key cannot be a
collection, and a pair is a mapping of one entry. -/
def visitContent (deep : Bool) : Nat → Nat → Checker → Except Fault Checker
  | 0, _, _ => .error .malformed
  | fuel + 1, n, s => do
    match (s.graph.get n).tag, s.graph.get n with
    | .seq, .sequence _ items => items.foldlM (fun s m => visit deep fuel m s) s
    | .map, .mapping _ _ | .set, .mapping _ _ =>
      let graph ← s.graph.flatten n
      (graph.entries n).foldlM (fun s (key, value) => do
        let s ← visit true fuel key s
        if isCollection (s.graph.get key).tag then throw .malformed
        visit deep fuel value s) { s with graph }
    | .omap, .sequence _ items | .pairs, .sequence _ items =>
      items.foldlM (fun s m => match s.graph.get m with
        | .mapping _ [(key, value)] => do
          let s ← visit deep fuel key s
          visit deep fuel value s
        | _ => throw .malformed) s
    | _, _ => throw .malformed

end

/-- Checks the collections of a level in order, and so each level after it. -/
def visitLevels (fuel : Nat) : Nat → Checker → Except Fault Checker
  | 0, _ => .error .malformed
  | levels + 1, s =>
    if s.next.isEmpty then .ok s
    else do
      let level := s.next.reverse
      let s ← level.foldlM (fun s n => visitContent false fuel n s) { s with next := [] }
      visitLevels fuel levels s

end Checker

/-- The graph of a document with its merge keys taken out, if every node spells a value. -/
def Graph.check (g : Graph) (root : Nat) : Except Fault Graph := do
  let fuel := 2 * g.size + 2
  let s ← Checker.visit false fuel root ⟨g, ∅, [], []⟩
  let s ← s.visitLevels fuel (g.size + 2)
  return s.graph

end SiteRules.Yaml
