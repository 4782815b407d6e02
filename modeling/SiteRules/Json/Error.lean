import SiteRules.Number.Literal

/-!
# Errors of JSON texts

Why a text is not JSON, and at which character.
-/

namespace SiteRules.Json

/-- What was expected or found wrong. -/
inductive Expected where
  | value
  | name
  | colon
  | comma
  | nothingMore
  | closingQuote
  | plainCharacter
  | escape
  | hexEscape
  | noByteOrderMark
deriving DecidableEq, Repr

/-- The wording of what was expected. -/
def Expected.message : Expected → String
  | value => "Expecting value"
  | name => "Expecting property name enclosed in double quotes"
  | colon => "Expecting ':' delimiter"
  | comma => "Expecting ',' delimiter"
  | nothingMore => "Extra data"
  | closingQuote => "Unterminated string starting at"
  | plainCharacter => "Invalid control character at"
  | escape => "Invalid \\escape"
  | hexEscape => "Invalid \\uXXXX escape"
  | noByteOrderMark => "Unexpected UTF-8 BOM (decode using utf-8-sig)"

/-- Why a text cannot be read: it is not JSON from some character on, or it holds a number that is
not converted. -/
inductive Error where
  | malformed (expected : Expected) (text : List Char) (position : Nat)
  | number (e : Literal.Error)
deriving DecidableEq, Repr

/-- The line and the column, from one on, of a position in a text. -/
def lineAndColumn (text : List Char) (position : Nat) : Nat × Nat :=
  let before := text.take position
  (before.count '\n' + 1, (before.reverse.takeWhile (· ≠ '\n')).length + 1)

/-- The wording of an error, with the line, the column and the position. -/
def Error.message : Error → String
  | malformed expected text position =>
    let (line, column) := lineAndColumn text position
    expected.message ++ s!": line {line} column {column} (char {position})"
  | number e => e.message

end SiteRules.Json
