import SiteRules.Value.Entries
import SiteRules.Yaml.Graph.Check
import Std.Data.HashMap

/-!
# Values of graphs

The value of a checked graph. Collections, tuples and points in time are marked with the numbers of
their nodes, and a place inside a collection that stands for the collection holds the mark alone.

The outer mappings of a document can be laid open: each value below them is read as a copy by
itself, which shares no part with the others but those tuples that a copy leaves as they are.
-/

namespace SiteRules.Yaml.Graph

/-- The numbers of a copy: `own` for the parts that are its own, and `kept` for the tuples that it
has in common with other copies. -/
structure Copy where
  own : Nat
  kept : Nat

/-- The value of a node among the nodes around it. The outermost of these for which a place in the
value stands, if there is one, is given by its depth. -/
structure Unfolded where
  value : Value
  reach : Option Nat

/-- The values of closed nodes that are known already. A node is closed if no place in its value
stands for a collection around it. -/
abbrev Known := Std.HashMap Nat Value

/-- The lesser of two depths. -/
def outer : Option Nat → Option Nat → Option Nat
  | some a, some b => some (min a b)
  | none, b => b
  | a, none => a

/-- The least of the depths of several values. -/
def outermost (parts : List Unfolded) : Option Nat :=
  parts.foldl (fun depth part => outer depth part.reach) none

/-- Whether a copy of a value is the value itself. -/
def isKept : Value → Bool
  | .null | .bool _ | .int _ | .float _ | .text _ | .bytes _ => true
  | _ => false

/-- A tuple, marked with a number; one of which all items are kept is kept itself. -/
def markedTuple (copy : Copy) (part : Nat) (items : List Value) : Value :=
  .shared ⟨if items.all isKept then copy.kept else copy.own, part⟩ (.tuple items)

/-- Whether a value can be told apart from an equal one. -/
def hasIdentity : Value → Bool
  | .list _ | .set _ | .map _ | .date _ | .moment _ => true
  | _ => false

/-- The value of the node `n`, `path` being the nodes around it. -/
def valueAt (g : Graph) (copy : Copy) : Nat → List Nat → Nat → StateM Known Unfolded
  | 0, _, _ => return ⟨.null, none⟩
  | fuel + 1, path, n => do
    if let some v := (← getThe Known)[n]? then return ⟨v, none⟩
    if let some inner := path.idxOf? n then
      return ⟨.cycle ⟨copy.own, n⟩, some (path.length - 1 - inner)⟩
    let below (m : Nat) : StateM Known Unfolded := valueAt g copy fuel (n :: path) m
    let belowAll (ms : List Nat) : StateM Known (List Value × Option Nat) := do
      let parts ← ms.mapM below
      return (parts.map Unfolded.value, outermost parts)
    let (value, reach) ← match (g.get n).tag, g.get n with
      | .seq, .sequence _ items => do
        let (values, reach) ← belowAll items
        pure (Value.list values, reach)
      | .map, .mapping _ entries => do
        let (keys, _) ← belowAll (entries.map Prod.fst)
        let (values, reach) ← belowAll (entries.map Prod.snd)
        pure (Value.ofEntries (keys.zip values), reach)
      | .set, .mapping _ entries => do
        let (keys, reach) ← belowAll (entries.map Prod.fst)
        pure (Value.ofMembers keys, reach)
      | .omap, .sequence _ items | .pairs, .sequence _ items => do
        let pairs ← items.zipIdx.mapM fun (m, i) => do
          let (values, reach) ← belowAll ((g.entries m).flatMap fun entry => [entry.1, entry.2])
          pure (Unfolded.mk (markedTuple copy (g.size * (i + 1) + n) values) reach)
        pure (Value.list (pairs.map Unfolded.value), outermost pairs)
      | _, _ => pure (((Checker.scalarValue g n).toOption).getD .null, none)
    let value := if hasIdentity value then .shared ⟨copy.own, n⟩ value else value
    if reach.any (· < path.length) then return ⟨value, reach⟩
    modifyThe Known (·.insert n value)
    return ⟨value, none⟩

/-- The value of the node `n` as a copy by itself. -/
def unfold (g : Graph) (copy : Copy) (n : Nat) : Value :=
  ((g.valueAt copy (g.size + 1) [] n).run ∅).1.value

/-- The value of the node `n` with `levels` mappings laid open, of which none has `width` entries or
more; `number` tells the copies inside it from those at other places. -/
def layOpen (g : Graph) (width : Nat) : Nat → Nat → Nat → Value
  | 0, number, n => g.unfold ⟨number, 0⟩ n
  | levels + 1, number, n =>
    match (g.get n).tag, g.get n with
    | .map, .mapping _ entries =>
      Value.ofEntries (entries.zipIdx.map fun (entry, i) =>
        (g.unfold ⟨number, 0⟩ entry.1, g.layOpen width levels (number * width + i + 1) entry.2))
    | _, _ => g.unfold ⟨number, 0⟩ n

/-- The value of the node `root` as one copy, or with so many levels of mappings laid open. -/
def toValue (g : Graph) (levels root : Nat) : Value :=
  if levels = 0 then g.unfold ⟨1, 1⟩ root else g.layOpen (g.entryCount + 1) levels 1 root

end SiteRules.Yaml.Graph
