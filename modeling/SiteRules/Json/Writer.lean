import SiteRules.Number.Literal
import SiteRules.Number.Shortest
import SiteRules.Text.Quoted
import SiteRules.Value.Basic

/-!
# Writing JSON

The writer of JSON texts, which puts every item on a line of its own, indented by two blanks for
each container around it. Code points past basic Latin are written as they are.
-/

namespace SiteRules.Json

/-- Why a value cannot be written. -/
inductive Unwritable where
  /-- A value of this kind has no form in JSON. -/
  | value (kind : String)
  /-- A value of this kind cannot be the name of an entry. -/
  | name (kind : String)
  /-- An integer is not written. -/
  | number (e : Literal.Error)
  /-- A container holds itself. -/
  | circular
deriving DecidableEq, Repr

/-- The wording of the refusal to write a value. -/
def Unwritable.message : Unwritable → String
  | value kind => s!"Object of type {kind} is not JSON serializable"
  | name kind => s!"keys must be str, int, float, bool or None, not {kind}"
  | number e => e.message
  | circular => "Circular reference detected"

/-- The form of a code point between double quotes. -/
def escape (c : CodePoint) : Text :=
  if c = '"' then ['\\', '"']
  else if c = '\\' then ['\\', '\\']
  else if c = '\n' then ['\\', 'n']
  else if c = '\r' then ['\\', 'r']
  else if c = '\t' then ['\\', 't']
  else if c = '\x08' then ['\\', 'b']
  else if c = '\x0c' then ['\\', 'f']
  else if c.val < 0x20 then Text.ofString ("\\u" ++ hexDigits 4 c.val)
  else [c]

/-- A text between double quotes. -/
def quote (t : Text) : Text :=
  CodePoint.ofChar '"' :: (t.flatMap escape ++ [CodePoint.ofChar '"'])

/-- The spelling of a number. -/
def numberText : Binary64 → String
  | .nan _ => "NaN"
  | .infinite negative => if negative then "-Infinity" else "Infinity"
  | x => x.text

/-- The spelling of an integer. -/
def integerText (n : Int) : Except Unwritable String :=
  if Literal.isSpellable n then .ok (toString n) else .error (.number .tooLong)

/-- The name of an entry: a text, or the spelling of a number, a truth value or null. -/
def writeName (key : Value) : Except Unwritable Text :=
  match key.content with
  | .text t => .ok (quote t)
  | .null => .ok (quote (Text.ofString "null"))
  | .bool b => .ok (quote (Text.ofString (if b then "true" else "false")))
  | .int n => return quote (Text.ofString (← integerText n))
  | .float x => .ok (quote (Text.ofString (numberText x)))
  | v => .error (.name v.kindName)

/-- A line end, with the indentation of the line after it. -/
def lineEnd (level : Nat) : Text :=
  CodePoint.ofChar '\n' :: List.replicate (2 * level) (CodePoint.ofChar ' ')

/-- The lines of a container between its brackets, which stand at `level`. -/
def bracketed (opening closing : Char) (level : Nat) : List Text → Text
  | [] => [CodePoint.ofChar opening, CodePoint.ofChar closing]
  | line :: lines =>
    CodePoint.ofChar opening :: lineEnd (level + 1) ++ line
      ++ lines.flatMap (fun line => CodePoint.ofChar ',' :: lineEnd (level + 1) ++ line)
      ++ lineEnd level ++ [CodePoint.ofChar closing]

mutual

/-- The form of a value at a level of indentation, `around` being the marks of what it is in. -/
def writeAt (around : List Mark) (level : Nat) : Value → Except Unwritable Text
  | .text t => .ok (quote t)
  | .list items => return bracketed '[' ']' level (← writeItems around (level + 1) items)
  | .tuple items => return bracketed '[' ']' level (← writeItems around (level + 1) items)
  | .map entries =>
    return bracketed '\x7b' '\x7d' level (← writeEntries around (level + 1) entries)
  | .shared mark v =>
    if around.contains mark then .error .circular else writeAt (mark :: around) level v
  | .cycle _ => .error .circular
  | .null => .ok (Text.ofString "null")
  | .bool b => .ok (Text.ofString (if b then "true" else "false"))
  | .int n => return Text.ofString (← integerText n)
  | .float x => .ok (Text.ofString (numberText x))
  | v => .error (.value v.kindName)

/-- The forms of the items of a list. -/
def writeItems (around : List Mark) (level : Nat) : List Value → Except Unwritable (List Text)
  | [] => .ok []
  | v :: rest => do
    let line ← writeAt around level v
    return line :: (← writeItems around level rest)

/-- The forms of the entries of a mapping. -/
def writeEntries (around : List Mark) (level : Nat) :
    List (Value × Value) → Except Unwritable (List Text)
  | [] => .ok []
  | (k, v) :: rest => do
    let name ← writeName k
    let value ← writeAt around level v
    return (name ++ Text.ofChars [':', ' '] ++ value) :: (← writeEntries around level rest)

end

/-- The text of a value, which ends its last line. -/
def write (v : Value) : Except Unwritable Text :=
  (writeAt [] 0 v).map (· ++ [CodePoint.ofChar '\n'])

end SiteRules.Json
