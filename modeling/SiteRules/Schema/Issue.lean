import SiteRules.Value.Show

/-!
# Issues

What can be wrong with the parts of a document or a configuration: a reason, and the place of the
part to which it applies.
-/

namespace SiteRules

/-- One step on the way to a part: the name or the number that leads to it. -/
inductive Issue.Step where
  | name (t : Text)
  | number (n : Int)
deriving DecidableEq, Repr

/-- Why a part is refused. -/
inductive Issue.Reason where
  /-- The whole is no mapping; `schema` names what it should be. -/
  | notAnInstance (schema : String)
  | notAMapping
  | notAText
  | notUtf8
  | notAnInteger
  | fractional
  | notFinite
  | integerText
  | integerSize
  | above (bound : Int)
  | below (bound : Int)
  | notABoolean
  | booleanText
  | notAPath
  /-- The value is none of the choices. -/
  | notAChoice (choices : String)
  | unknownName
  | nameNotText
  /-- The value is refused for a reason of its own. -/
  | refused (message : String)
deriving DecidableEq, Repr

/-- A reason with the place to which it applies. -/
structure Issue where
  place : List Issue.Step
  reason : Issue.Reason
deriving DecidableEq, Repr

namespace Issue

/-- The code of a reason. -/
def Reason.code : Reason → String
  | notAnInstance _ => "model_type"
  | notAMapping => "dict_type"
  | notAText => "string_type"
  | notUtf8 => "string_unicode"
  | notAnInteger => "int_type"
  | fractional => "int_from_float"
  | notFinite => "finite_number"
  | integerText => "int_parsing"
  | integerSize => "int_parsing_size"
  | above _ => "less_than_equal"
  | below _ => "greater_than_equal"
  | notABoolean => "bool_type"
  | booleanText => "bool_parsing"
  | notAPath => "path_type"
  | notAChoice _ => "literal_error"
  | unknownName => "extra_forbidden"
  | nameNotText => "invalid_key"
  | refused _ => "value_error"

/-- The wording of a reason. -/
def Reason.message : Reason → String
  | notAnInstance schema => s!"Input should be a valid dictionary or instance of {schema}"
  | notAMapping => "Input should be a valid dictionary"
  | notAText => "Input should be a valid string"
  | notUtf8 => "Input should be a valid string, unable to parse raw data as a unicode string"
  | notAnInteger => "Input should be a valid integer"
  | fractional => "Input should be a valid integer, got a number with a fractional part"
  | notFinite => "Input should be a finite number"
  | integerText => "Input should be a valid integer, unable to parse string as an integer"
  | integerSize => "Unable to parse input string as an integer, exceeded maximum size"
  | above bound => s!"Input should be less than or equal to {bound}"
  | below bound => s!"Input should be greater than or equal to {bound}"
  | notABoolean => "Input should be a valid boolean"
  | booleanText => "Input should be a valid boolean, unable to interpret input"
  | notAPath => "Input is not a valid path for <class 'pathlib.Path'>"
  | notAChoice choices => s!"Input should be {choices}"
  | unknownName => "Extra inputs are not permitted"
  | nameNotText => "Keys should be strings"
  | refused message => s!"Value error, {message}"

/-- A text in which every surrogate is replaced by one replacement character for each of the three
bytes that would encode it. -/
def Step.printable (t : Text) : Text :=
  t.flatMap fun c => if c.isSurrogate then List.replicate 3 (CodePoint.ofNat 0xfffd) else [c]

/-- What stands for the spelling of a value that has none. -/
def Step.unprintable (v : Value) : String :=
  s!"<unprintable {v.kindName} object>"

/-- The step to the part under a key: its text, its number if it is a small one, or its spelling. -/
def Step.ofKey (key : Value) : Step :=
  match key.content with
  | .text t => .name (printable t)
  | .bool b => .number b.toNat
  | .int n =>
    if -0x8000000000000000 ≤ n && n < 0x8000000000000000 then .number n
    else .name (Text.ofString (if Literal.isSpellable n then toString n else unprintable (.int n)))
  | v => .name (Text.ofString (if v.isSpellable then v.shown else unprintable v))

/-- The issue seen from one step further out. -/
def under (step : Step) (issue : Issue) : Issue :=
  { issue with place := step :: issue.place }

/-- The text of a step. -/
def Step.text : Step → String
  | name t => t.toString
  | number n => toString n

/-- The line that reports an issue. -/
def line (issue : Issue) : String :=
  ".".intercalate (issue.place.map Step.text) ++ ": " ++ issue.reason.message

/-- The step by which a key itself is named, as opposed to the value under it. -/
def Step.theKey : Step :=
  .name (Text.ofChars ['[', 'k', 'e', 'y', ']'])

end Issue

/-- The outcome of a check: the value read, or all that is wrong. -/
abbrev Checked (α : Type) := Except (List Issue) α

namespace Checked

/-- The outcome of a check of one part, which has at most one reason to be refused. -/
def ofReason {α : Type} : Except Issue.Reason α → Checked α
  | .ok a => .ok a
  | .error reason => .error [⟨[], reason⟩]

/-- The outcome seen from one step further out. -/
def under {α : Type} (step : Issue.Step) : Checked α → Checked α
  | .ok a => .ok a
  | .error issues => .error (issues.map (Issue.under step))

/-- What is wrong, if anything. -/
def issues {α : Type} : Checked α → List Issue
  | .ok _ => []
  | .error issues => issues

/-- Both values, or all that is wrong with either. -/
def both {α β : Type} : Checked α → Checked β → Checked (α × β)
  | .ok a, .ok b => .ok (a, b)
  | a, b => .error (a.issues ++ b.issues)

/-- All the values, or all that is wrong with any. -/
def all {α : Type} : List (Checked α) → Checked (List α)
  | [] => .ok []
  | a :: rest => match both a (all rest) with
    | .ok (a, rest) => .ok (a :: rest)
    | .error issues => .error issues

end Checked

end SiteRules
