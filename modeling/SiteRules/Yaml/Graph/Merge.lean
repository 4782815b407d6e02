import SiteRules.Yaml.Fault
import SiteRules.Yaml.Graph

/-!
# Merge keys

A mapping takes over the entries of the mappings under its merge keys: they come in front of its
own, so that its own win.
-/

namespace SiteRules.Yaml.Graph

/-- The entries of a mapping. -/
def entries (g : Graph) (n : Nat) : List (Nat × Nat) :=
  match g.get n with
  | .mapping _ entries => entries
  | _ => []

/-- Whether a node is a mapping. -/
def isMapping (g : Graph) (n : Nat) : Bool :=
  match g.get n with
  | .mapping _ _ => true
  | _ => false

/-- The graph with other entries in a mapping. -/
def setEntries (g : Graph) (n : Nat) (entries : List (Nat × Nat)) : Graph :=
  g.set n (.mapping (g.get n).tag entries)

/-- Whether an entry of a mapping is a merge key with its value. -/
def isMerge (g : Graph) (entry : Nat × Nat) : Bool :=
  (g.get entry.1).tag = .merge

/-- The graph in which a key that stands for the value of its mapping is an ordinary one. -/
def plainKey (g : Graph) (key : Nat) : Graph :=
  if (g.get key).tag = .value then g.set key ((g.get key).withTag .str) else g

mutual

/-- Takes over the entries of merged mappings, from the entry numbered `index` of the mapping `n`
on; `merged` holds those taken over so far. The fuel is spent on merge keys. -/
def flattenFrom : Nat → Nat → Nat → List (Nat × Nat) → Graph → Except Fault Graph
  | 0, _, _, _, _ => .error .malformed
  | fuel + 1, n, index, merged, g =>
    let behind := (g.entries n).drop index
    let ordinary := behind.takeWhile fun entry => !g.isMerge entry
    let index := index + ordinary.length
    let g := ordinary.foldl (fun g entry => g.plainKey entry.1) g
    match behind.drop ordinary.length with
    | [] => .ok (if merged.isEmpty then g else g.setEntries n (merged ++ g.entries n))
    | (_, value) :: _ => do
      let g := g.setEntries n ((g.entries n).eraseIdx index)
      match g.get value with
      | .mapping _ _ =>
        let g ← flattenFrom fuel value 0 [] g
        flattenFrom fuel n index (merged ++ g.entries value) g
      | .sequence _ items =>
        let (groups, g) ← flattenAll fuel items g
        flattenFrom fuel n index (merged ++ groups.reverse.flatten) g
      | .scalar _ _ => throw .malformed

/-- Flattens the mappings of a list, one after the other, and gives the entries of each. -/
def flattenAll : Nat → List Nat → Graph → Except Fault (List (List (Nat × Nat)) × Graph)
  | 0, _, _ => .error .malformed
  | _ + 1, [], g => .ok ([], g)
  | fuel + 1, n :: rest, g => do
    if !g.isMapping n then throw .malformed
    let g ← flattenFrom fuel n 0 [] g
    let own := g.entries n
    let (groups, g) ← flattenAll fuel rest g
    return (own :: groups, g)

end

/-- The number of entries of all mappings. -/
def entryCount (g : Graph) : Nat :=
  (g.nodes.toList.map fun node => node.children.length).foldl (· + ·) 0

/-- The graph in which a mapping has taken over the entries of its merge keys. -/
def flatten (g : Graph) (n : Nat) : Except Fault Graph :=
  if (g.entries n).any g.isMerge then flattenFrom (100 * (g.entryCount + g.size + 1)) n 0 [] g
  else .ok ((g.entries n).foldl (fun g entry => g.plainKey entry.1) g)

end SiteRules.Yaml.Graph
