import SiteRules.Yaml.Tag

/-!
# Styles of scalars

How a scalar is written: plain where its spelling and its place allow it, between single quotes
where these can hold it, and between double quotes, with escapes, elsewhere.
-/

namespace SiteRules.Yaml

/-- The styles in which scalars are written. -/
inductive Style where
  | plain
  | singleQuoted
  | doubleQuoted
  | literal
deriving DecidableEq, Repr

namespace Style

/-- The code points that end a line in a scalar that is written. -/
def isBreak (c : CodePoint) : Bool :=
  c = '\n' || c = '\x85' || c = '\u2028' || c = '\u2029'

/-- Whether a blank or a line end, or the end of the text, is here. -/
def isGap (c : Option CodePoint) : Bool :=
  match c with
  | none => true
  | some c => c.val = 0 || c = ' ' || c = '\t' || c = '\r' || isBreak c

/-- Whether a code point is one of some characters. -/
def isOneOf (cs : String) (c : CodePoint) : Bool :=
  cs.toList.any fun d => c = CodePoint.ofChar d

/-- The code points that only an escape can show. -/
def isSpecial (c : CodePoint) : Bool :=
  !(c = '\n' || (0x20 ≤ c.val && c.val ≤ 0x7e)
    || ((c = '\x85' || (0xa0 ≤ c.val && c.val ≤ 0xd7ff) || (0xe000 ≤ c.val && c.val ≤ 0xfffd)
      || (0x10000 ≤ c.val && c.val < 0x10ffff)) && c.val ≠ 0xfeff))

/-- Whether the first code point of a text keeps it from being plain in a block. -/
def opensMarked (t : Text) : Bool :=
  match t with
  | [] => false
  | c :: rest =>
    isOneOf "#,[]\x7b\x7d&*!|>'\"%@\x60" c || (isOneOf "?:-" c && isGap rest.head?)

/-- Whether a colon that ends a word, or a number sign that begins one, stands behind the first
code point. -/
def holdsMark (previous : CodePoint) : Text → Bool
  | [] => false
  | c :: rest =>
    (c = ':' && isGap rest.head?) || (c = '#' && isGap (some previous)) || holdsMark c rest

/-- Whether a text keeps from being plain in a block by the marks that it holds. -/
def hasMarks (t : Text) : Bool :=
  match t with
  | [] => false
  | c :: rest =>
    (Text.ofString "---").isPrefixOf t || (Text.ofString "...").isPrefixOf t || opensMarked t
      || holdsMark c rest

/-- Whether a text holds a code point of the first kind with one of the second kind behind it. -/
def holdsPair (first second : CodePoint → Bool) : Text → Bool
  | a :: b :: rest => (first a && second b) || holdsPair first second (b :: rest)
  | _ => false

/-- Whether a code point is a blank. -/
def isBlank (c : CodePoint) : Bool := c = ' '

/-- Whether a text has several lines. -/
def isMultiline (t : Text) : Bool := t.any isBreak

/-- Whether a text has a blank or a line end at one of its ends. -/
def hasLooseEnds (t : Text) : Bool :=
  (t.head?.any fun c => isBlank c || isBreak c) || (t.getLast?.any fun c => isBlank c || isBreak c)

/-- Whether a text can be read back only from between double quotes. -/
def needsEscapes (t : Text) : Bool :=
  t.any isSpecial || holdsPair isBlank isBreak t

/-- Whether a text can be written plain in a block. -/
def allowsPlain (t : Text) : Bool :=
  !(needsEscapes t || isMultiline t || hasLooseEnds t || hasMarks t)

/-- Whether a text can be written between single quotes. -/
def allowsSingleQuoted (t : Text) : Bool :=
  !(needsEscapes t || holdsPair isBreak isBlank t)

/-- Whether a text can be written as lines of its own. -/
def allowsLiteral (t : Text) : Bool :=
  !(t.isEmpty || needsEscapes t || t.getLast?.any isBlank)

/-- The style of a scalar. One that a reader would take for another kind is not plain; `asLines`
tells that it should have lines of its own, and `asKey` that it stands in front of a colon. -/
def choose (tag : Tag) (t : Text) (asLines asKey : Bool) : Style :=
  if !asLines && Tag.ofPlain t = tag && !(asKey && (t.isEmpty || isMultiline t)) && allowsPlain t
  then plain
  else if asLines && !asKey && allowsLiteral t then literal
  else if !asLines && allowsSingleQuoted t && !(asKey && isMultiline t) then singleQuoted
  else doubleQuoted

end Style

end SiteRules.Yaml
