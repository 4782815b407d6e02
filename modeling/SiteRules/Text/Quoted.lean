import SiteRules.Text.Printable

/-!
# Quoted texts

The form in which messages show a text: between quotes, with escapes for the quote, the backslash
and everything that does not print. Single quotes are used unless the text holds one and holds no
double quote.
-/

namespace SiteRules

/-- The hexadecimal digits of `n`, padded with zeros on the left to `width`. -/
def hexDigits (width n : Nat) : String :=
  let digits := Nat.toDigits 16 n
  String.ofList (List.replicate (width - digits.length) '0' ++ digits)

/-- The escape of a code point by number, in the shortest of the three widths that holds it. -/
def CodePoint.numericEscape (c : CodePoint) : String :=
  if c.val < 0x100 then "\\x" ++ hexDigits 2 c.val
  else if c.val < 0x10000 then "\\u" ++ hexDigits 4 c.val
  else "\\U" ++ hexDigits 8 c.val

/-- The form of a code point between quotes of the kind `quote`. -/
def CodePoint.quoted (quote : Char) (c : CodePoint) : String :=
  if c = quote || c = '\\' then String.ofList ['\\', c.toChar]
  else if c = '\t' then "\\t"
  else if c = '\n' then "\\n"
  else if c = '\r' then "\\r"
  else if c.isPrintable then String.singleton c.toChar
  else c.numericEscape

/-- A text as it is told where surrogates cannot be written: they are spelled by their numbers. -/
def Text.told (t : Text) : String :=
  String.join (t.map fun c => if c.isSurrogate then c.numericEscape else String.singleton c.toChar)

/-- The quote in which a text is shown. -/
def Text.quoteMark (t : Text) : Char :=
  if t.any (· = '\'') && !t.any (· = '"') then '"' else '\''

/-- A text as messages show it, between quotes. -/
def Text.quoted (t : Text) : String :=
  let mark := t.quoteMark
  String.singleton mark ++ String.join (t.map (CodePoint.quoted mark)) ++ String.singleton mark

/-- A string as messages show it, between quotes. -/
def quoteString (s : String) : String :=
  (Text.ofString s).quoted

end SiteRules
