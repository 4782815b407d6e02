import SiteRules.Number.Literal
import SiteRules.Number.Shortest
import SiteRules.Text.Base64
import SiteRules.Value.Basic
import SiteRules.Yaml.Tag

/-!
# Drafts

A value laid out for writing: scalars with their text, and names where something occurs again.
-/

namespace SiteRules.Yaml

/-- A node to be written. A name is a number from one on. -/
inductive Draft where
  | alias (name : Nat)
  | scalar (name : Option Nat) (tag : Tag) (content : Text) (asLines : Bool)
  | sequence (name : Option Nat) (items : List Draft)
  | mapping (name : Option Nat) (isSet : Bool) (entries : List (Draft × Draft))

namespace Draft

/-- What is known of the marks on the way through a value: those met, and the names given to those
that were met again, the latest first. -/
structure Names where
  met : List Mark
  named : List (Mark × Nat)

/-- The name that a mark was given. -/
def Names.name? (names : Names) (mark : Mark) : Option Nat :=
  names.named.lookup mark

/-- Gives a mark that is met again its name. -/
def Names.meetAgain (names : Names) (mark : Mark) : Names :=
  if (names.name? mark).isSome then names
  else { names with named := (mark, names.named.length + 1) :: names.named }

mutual

/-- Names the marks that occur again, in the order in which they do. -/
def gather : Value → Names → Names
  | .shared mark v, names =>
    if names.met.contains mark then names.meetAgain mark
    else gather v { names with met := mark :: names.met }
  | .cycle mark, names => names.meetAgain mark
  | .list items, names => gatherAll items names
  | .tuple items, names => gatherAll items names
  | .set items, names => gatherAll items names
  | .map entries, names => gatherEntries entries names
  | _, names => names

/-- Names the marks that occur again in a list of values. -/
def gatherAll : List Value → Names → Names
  | [], names => names
  | v :: rest, names => gatherAll rest (gather v names)

/-- Names the marks that occur again in a list of entries. -/
def gatherEntries : List (Value × Value) → Names → Names
  | [], names => names
  | (k, v) :: rest, names => gatherEntries rest (gather v (gather k names))

end

/-- The spelling of a floating-point number, which always has a point. -/
def floatText (x : Binary64) : Text :=
  match x with
  | .nan _ => Text.ofString ".nan"
  | .infinite negative => Text.ofString (if negative then "-.inf" else ".inf")
  | x =>
    let t := Text.ofString x.text
    match t.cut? 'e' with
    | some (digits, exponent) =>
      if digits.any (· = '.') then t
      else digits ++ Text.ofString ".0e" ++ exponent
    | none => t

/-- A scalar without lines of its own. -/
def line (name : Option Nat) (tag : Tag) (content : Text) : Draft :=
  .scalar name tag content false

mutual

/-- The draft of a value under the names given to its marks; `name` is the name that the value
takes on here, and the marks met so far are threaded through. -/
def ofValueNamed (names : Names) (name : Option Nat) :
    Value → List Mark → Draft × List Mark
  | .shared mark v, met =>
    match names.name? mark with
    | none => ofValueNamed names name v met
    | some n =>
      if met.contains mark then (.alias n, met)
      else ofValueNamed names (some n) v (mark :: met)
  | .cycle mark, met => (.alias ((names.name? mark).getD 0), met)
  | .null, met => (line name .null (Text.ofString "null"), met)
  | .bool b, met => (line name .bool (Text.ofString (if b then "true" else "false")), met)
  | .int n, met => (line name .int (Text.ofString (toString n)), met)
  | .float x, met => (line name .float (floatText x), met)
  | .text t, met => (line name .str t, met)
  | .bytes bs, met => (.scalar name .binary (Text.ofChars (Base64.encodeLines bs)) true, met)
  | .date d, met => (line name .timestamp (Text.ofString d.text), met)
  | .moment m, met => (line name .timestamp (Text.ofString (m.text " ")), met)
  | .list items, met =>
    let (drafts, met) := ofValues names items met
    (.sequence name drafts, met)
  | .tuple items, met =>
    let (drafts, met) := ofValues names items met
    (.sequence name drafts, met)
  | .set items, met =>
    let (drafts, met) := ofValues names items met
    (.mapping name true (drafts.map fun d => (d, line none .null (Text.ofString "null"))), met)
  | .map entries, met =>
    let (drafts, met) := ofEntries names entries met
    (.mapping name false drafts, met)

/-- The drafts of a list of values. -/
def ofValues (names : Names) : List Value → List Mark → List Draft × List Mark
  | [], met => ([], met)
  | v :: rest, met =>
    let (draft, met) := ofValueNamed names none v met
    let (drafts, met) := ofValues names rest met
    (draft :: drafts, met)

/-- The drafts of a list of entries. -/
def ofEntries (names : Names) :
    List (Value × Value) → List Mark → List (Draft × Draft) × List Mark
  | [], met => ([], met)
  | (k, v) :: rest, met =>
    let (key, met) := ofValueNamed names none k met
    let (value, met) := ofValueNamed names none v met
    let (drafts, met) := ofEntries names rest met
    ((key, value) :: drafts, met)

end

/-- The draft of a value. -/
def ofValue (v : Value) : Draft :=
  (ofValueNamed (gather v ⟨[], []⟩) none v []).1

end Draft

end SiteRules.Yaml
