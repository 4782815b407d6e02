import SiteRules.Text.CodePoint

/-!
# Logs

Lines about what a run does, each with a level. Only lines from some level on are told.
-/

namespace SiteRules

/-- How much a line matters, from least to most. -/
inductive LogLevel where
  | debug
  | info
  | warning
  | error
deriving DecidableEq, Repr

namespace LogLevel

/-- The levels from least to most. -/
def all : List LogLevel := [debug, info, warning, error]

/-- The name of a level. -/
def name : LogLevel → String
  | debug => "DEBUG"
  | info => "INFO"
  | warning => "WARNING"
  | error => "ERROR"

/-- The number of a level. -/
def number : LogLevel → Nat
  | debug => 10
  | info => 20
  | warning => 30
  | error => 40

/-- The capital of a letter of basic Latin. The dotless I has the same capital as the dotted one;
no other code point has a letter of basic Latin as its capital that occurs in a name. -/
def capital (c : CodePoint) : CodePoint :=
  if 0x61 ≤ c.val && c.val ≤ 0x7a then CodePoint.ofNat (c.val - 0x20)
  else if c.val = 0x131 then CodePoint.ofChar 'I'
  else c

/-- The level that a text names, in either case. -/
def ofText? (t : Text) : Option LogLevel :=
  all.find? fun level => Text.ofString level.name = t.map capital

end LogLevel

/-- A line of a log. -/
structure LogLine where
  level : LogLevel
  message : String
deriving DecidableEq, Repr

namespace LogLine

/-- The text of a line, with its level in brackets. -/
def text (line : LogLine) : String :=
  "[" ++ line.level.name ++ "] " ++ line.message

/-- The lines that are told from a level on. -/
def told (threshold : LogLevel) (lines : List LogLine) : List LogLine :=
  lines.filter fun line => threshold.number ≤ line.level.number

end LogLine

end SiteRules
