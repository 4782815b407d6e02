import SiteRules.Calendar
import SiteRules.Number.Binary64
import SiteRules.Text.CodePoint

/-!
# Values

The values of settings and documents. A part that a document may name and refer to again carries a
mark, so that equal parts can be told from one part that stands at several places. A place inside a
collection that stands for the collection itself holds the mark alone.
-/

namespace SiteRules

/-- The mark of a part. Parts with the same mark are one and the same; those of two copies of a
value differ in the number of the copy. -/
structure Mark where
  copy : Nat
  part : Nat
deriving DecidableEq, Repr, Inhabited

/-- A value of a setting or a document. The entries of a mapping are in order. -/
inductive Value where
  | null
  | bool (b : Bool)
  | int (n : Int)
  | float (x : Binary64)
  | text (t : Text)
  | bytes (bs : List UInt8)
  | date (d : Date)
  | moment (m : Moment)
  | list (items : List Value)
  | tuple (items : List Value)
  | set (items : List Value)
  | map (entries : List (Value × Value))
  | shared (mark : Mark) (v : Value)
  | cycle (mark : Mark)
deriving Inhabited, Repr

namespace Value

/-- The value under its mark. -/
def content : Value → Value
  | shared _ v => v.content
  | v => v

/-- The text value spelled by a string. -/
def ofString (s : String) : Value :=
  .text (Text.ofString s)

/-- The short name of the kind of a value. What stands for a collection around it counts as a list,
since it is not told of which kind that is. -/
def kindName : Value → String
  | null => "NoneType"
  | bool _ => "bool"
  | int _ => "int"
  | float _ => "float"
  | text _ => "str"
  | bytes _ => "bytes"
  | date _ => "date"
  | moment _ => "datetime"
  | list _ => "list"
  | tuple _ => "tuple"
  | set _ => "set"
  | map _ => "dict"
  | shared _ v => v.kindName
  | cycle _ => "list"

/-- The name of the kind of a value with the family it belongs to. -/
def qualifiedKindName (v : Value) : String :=
  match v.content with
  | date _ => "datetime.date"
  | moment _ => "datetime.datetime"
  | v => v.kindName

mutual

/-- The first part of a value that can change and so keeps it from being looked up: the value
itself, or one inside a tuple. -/
def mutablePart? : Value → Option Value
  | list items => some (list items)
  | set items => some (set items)
  | map entries => some (map entries)
  | tuple items => mutableAmong? items
  | shared _ v => mutablePart? v
  | _ => none

/-- The first such part of the values of a list. -/
def mutableAmong? : List Value → Option Value
  | [] => none
  | v :: rest => (mutablePart? v).orElse fun _ => mutableAmong? rest

end

/-- Whether a value is a point in time. -/
def isTime : Value → Bool
  | date _ => true
  | moment _ => true
  | _ => false

/-- Whether a value counts as absent: null, false, zero, or empty. -/
def isEmpty (v : Value) : Bool :=
  match v.content with
  | null => true
  | bool b => !b
  | int n => n = 0
  | float x => x.units? = some 0
  | text t => t.isEmpty
  | bytes bs => bs.isEmpty
  | list items => items.isEmpty
  | tuple items => items.isEmpty
  | set items => items.isEmpty
  | map entries => entries.isEmpty
  | _ => false

end Value

end SiteRules
