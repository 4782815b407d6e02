import SiteRules.Value.Basic

/-!
# Rebuilding

A value is rebuilt before it is saved: its containers are made anew, so that each place where one
of them stood gets a container of its own, and points in time stay what they are. A container that
stands inside itself is not made anew there, nor is one that is nested too deep; it stays as it is,
with all that is in it.
-/

namespace SiteRules.Value

mutual

/-- A value with what stands for the collections around it filled in; `inside` are the marks of the
collections that belong to the value. -/
def fill (around : Mark → Value) (inside : List Mark) : Value → Value
  | .shared mark v => .shared mark (fill around (mark :: inside) v)
  | .cycle mark => if inside.contains mark then .cycle mark else around mark
  | .list items => .list (fillAll around inside items)
  | .tuple items => .tuple (fillAll around inside items)
  | .map entries => .map (fillEntries around inside entries)
  | v => v

/-- The values of a list, each filled in. -/
def fillAll (around : Mark → Value) (inside : List Mark) : List Value → List Value
  | [] => []
  | v :: rest => fill around inside v :: fillAll around inside rest

/-- The entries of a list with their values filled in. -/
def fillEntries (around : Mark → Value) (inside : List Mark) :
    List (Value × Value) → List (Value × Value)
  | [] => []
  | (k, v) :: rest => (k, fill around inside v) :: fillEntries around inside rest

end

/-- The collection with a mark, as a whole, among those around a place, which are given from the
innermost to the outermost. -/
def enclosing : List (Mark × Value) → Mark → Value
  | [], mark => .cycle mark
  | (m, v) :: outer, mark =>
    if m = mark then .shared m (fill (enclosing outer) [m] v) else enclosing outer mark

mutual

/-- A value with its containers made anew, down to a depth; `around` are the collections that the
value is in. -/
def rebuildIn (around : List (Mark × Value)) (depth : Nat) : Value → Value
  | .shared mark v =>
    if depth = 0 || v.isTime then fill (enclosing around) [] (.shared mark v)
    else rebuildIn ((mark, v) :: around) depth v
  | .cycle mark => enclosing around mark
  | .list items =>
    if depth = 0 then fill (enclosing around) [] (.list items)
    else .list (rebuildAll around (depth - 1) items)
  | .tuple items =>
    if depth = 0 then fill (enclosing around) [] (.tuple items)
    else .tuple (rebuildAll around (depth - 1) items)
  | .set items =>
    if depth = 0 then .set items else .set (rebuildAll around (depth - 1) items)
  | .map entries =>
    if depth = 0 then fill (enclosing around) [] (.map entries)
    else .map (rebuildEntries around (depth - 1) entries)
  | v => v

/-- The values of a list, each with its containers made anew. -/
def rebuildAll (around : List (Mark × Value)) (depth : Nat) : List Value → List Value
  | [] => []
  | v :: rest => rebuildIn around depth v :: rebuildAll around depth rest

/-- The entries of a list, each value with its containers made anew. -/
def rebuildEntries (around : List (Mark × Value)) (depth : Nat) :
    List (Value × Value) → List (Value × Value)
  | [] => []
  | (k, v) :: rest => (k, rebuildIn around depth v) :: rebuildEntries around depth rest

end

/-- How many containers inside one another are made anew. -/
def maxRebuilt : Nat := 254

/-- A value with its containers made anew. -/
def rebuild (v : Value) : Value :=
  v.rebuildIn [] maxRebuilt

end SiteRules.Value
