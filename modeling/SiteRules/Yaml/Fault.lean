import SiteRules.Calendar
import SiteRules.Number.Literal

/-!
# Faults of YAML texts

Why a YAML text has no value. A text can break the rules of the format, or it can ask for a scalar
to be read as a kind of value that it does not spell.
-/

namespace SiteRules.Yaml

/-- Why a text has no value. -/
inductive Fault where
  /-- The text breaks the rules of the format or of the values it may hold. -/
  | malformed
  /-- An escape names a number past the last code point. -/
  | codePointRange
  /-- An escape names a number that is no 32-bit integer. -/
  | codePointOverflow
  /-- A scalar marked as a truth value spells none; the word is in lower case. -/
  | notABoolean (word : Text)
  /-- A scalar marked as a number has no digits at all. -/
  | noDigits
  /-- A scalar marked as a point in time spells none. -/
  | notATime
  /-- A mapping is marked as a point in time. -/
  | timeMapping
  /-- A mapping stands for a scalar, and the scalar is looked for in the mapping itself. -/
  | endless
  /-- A scalar marked as a number does not spell one. -/
  | number (e : Literal.Error)
  /-- A floating-point number in sixtieths has a place that is too large for one. -/
  | placeOverflow
  /-- A point in time has a field out of range. -/
  | calendar (e : CalendarError)
deriving DecidableEq, Repr

/-- The wording of a fault other than `malformed`, of which only the kind is told. -/
def Fault.message : Fault → String
  | malformed => ""
  | codePointRange => "chr() arg not in range(0x110000)"
  | codePointOverflow => "Python int too large to convert to C int"
  | notABoolean word => word.quoted
  | noDigits => "string index out of range"
  | notATime => "'NoneType' object has no attribute 'groupdict'"
  | timeMapping => "expected string or bytes-like object, got 'list'"
  | endless => "maximum recursion depth exceeded"
  | number e => e.message
  | placeOverflow => "int too large to convert to float"
  | calendar e => e.message

end SiteRules.Yaml
