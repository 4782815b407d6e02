import SiteRules.Yaml.Time

/-!
# Tags

The kinds of nodes, and the kind that a plain scalar has by its spelling alone.
-/

namespace SiteRules.Yaml

/-- The kind of a node. -/
inductive Tag where
  | null
  | bool
  | int
  | float
  | binary
  | timestamp
  | omap
  | pairs
  | set
  | str
  | seq
  | map
  /-- The key of entries that are taken over from other mappings. -/
  | merge
  /-- The key of the scalar that a mapping stands for. -/
  | value
  | unknown (uri : Text)
deriving DecidableEq, Repr

namespace Tag

/-- The common beginning of the known tags. -/
def family : Text := Text.ofString "tag:yaml.org,2002:"

/-- The known tags by the end of their names. -/
def known : List (Text × Tag) :=
  [(Text.ofString "null", null), (Text.ofString "bool", bool), (Text.ofString "int", int),
    (Text.ofString "float", float), (Text.ofString "binary", binary),
    (Text.ofString "timestamp", timestamp), (Text.ofString "omap", omap),
    (Text.ofString "pairs", pairs), (Text.ofString "set", set), (Text.ofString "str", str),
    (Text.ofString "seq", seq), (Text.ofString "map", map), (Text.ofString "merge", merge),
    (Text.ofString "value", value)]

/-- The tag with a full name. -/
def ofUri (uri : Text) : Tag :=
  if family.isPrefixOf uri then (known.lookup (uri.drop family.length)).getD (unknown uri)
  else unknown uri

/-- Whether a text is one of some words. -/
def isOneOf (words : List String) (t : Text) : Bool :=
  words.any fun word => t = Text.ofString word

/-- The spellings of truth values. -/
def isBoolean (t : Text) : Bool :=
  isOneOf ["yes", "Yes", "YES", "no", "No", "NO", "true", "True", "TRUE", "false", "False",
    "FALSE", "on", "On", "ON", "off", "Off", "OFF"] t

/-- The spellings of null. -/
def isNull (t : Text) : Bool :=
  t.isEmpty || isOneOf ["~", "null", "Null", "NULL"] t

/-- Whether a code point is a digit of basic Latin or an underscore. -/
def isDigitPart (c : CodePoint) : Bool := c.isBasicDigit || c = '_'

/-- A text without the sign in front. -/
def unsigned (t : Text) : Text :=
  match t with
  | [] => []
  | c :: rest => if c = '-' || c = '+' then rest else t

/-- Whether a text is one digit, or two of which the first is at most five. -/
def isSixtieth (t : Text) : Bool :=
  match t with
  | [a] => a.isBasicDigit
  | [a, b] => a.isBasicDigit && a.val ≤ 0x35 && b.isBasicDigit
  | _ => false

/-- The parts between colons, if there is a first part and another one, and all parts but the first
are numbers below sixty. -/
def sixtieths? (t : Text) : Option Text :=
  match t.splitAt ':' with
  | first :: second :: rest => if (second :: rest).all isSixtieth then some first else none
  | _ => none

/-- Whether a text begins with a digit and goes on with digits and underscores. -/
def isDigits (t : Text) : Bool :=
  match t with
  | [] => false
  | c :: rest => c.isBasicDigit && rest.all isDigitPart

/-- Whether a text is digits of which the first is no zero. -/
def isPositive (t : Text) : Bool :=
  isDigits t && t.head? ≠ some (CodePoint.ofChar '0')

/-- Whether a text without sign spells an integer. -/
def isUnsignedInteger (t : Text) : Bool :=
  match t with
  | [] => false
  | z :: rest =>
    if z = '0' then
      match rest with
      | [] => true
      | m :: digits =>
        if m = 'b' then !digits.isEmpty && digits.all fun c => c = '0' || c = '1' || c = '_'
        else if m = 'x' then !digits.isEmpty && digits.all fun c => c.isHexDigit || c = '_'
        else rest.all fun c => (c.isBasicDigit && c.val ≤ 0x37) || c = '_'
    else isPositive t || (sixtieths? t).any isPositive

/-- The spellings of integers: decimal, binary, octal, hexadecimal, and in sixtieths. -/
def isInteger (t : Text) : Bool := isUnsignedInteger (unsigned t)

/-- Whether a text is empty or an exponent with its sign. -/
def isExponent (t : Text) : Bool :=
  match t with
  | [] => true
  | e :: sign :: digits =>
    (e = 'e' || e = 'E') && (sign = '-' || sign = '+') && !digits.isEmpty
      && digits.all CodePoint.isBasicDigit
  | _ => false

/-- Whether a text without sign spells a decimal: digits, a point, and more. -/
def isUnsignedDecimal (t : Text) : Bool :=
  match t.cut? '.' with
  | none => false
  | some (whole, rest) =>
    (isDigits whole && isExponent (rest.dropWhile isDigitPart))
      || ((sixtieths? whole).any isDigits && rest.all isDigitPart)

/-- The spellings of floating-point numbers. -/
def isFloat (t : Text) : Bool :=
  isUnsignedDecimal (unsigned t)
    || (match t with
      | [] => false
      | c :: rest =>
        c = '.' && (rest.head?.any CodePoint.isBasicDigit)
          && isExponent (rest.dropWhile isDigitPart))
    || isOneOf [".inf", ".Inf", ".INF"] (unsigned t)
    || isOneOf [".nan", ".NaN", ".NAN"] t

/-- The spellings of points in time. -/
def isTime (t : Text) : Bool :=
  (SpelledTime.read? t).any SpelledTime.isPlain

/-- A text without a line feed at its end, which the spellings pass over. -/
def withoutFinalBreak (t : Text) : Text :=
  if t.getLast? = some (CodePoint.ofChar '\n') then t.dropLast else t

/-- The kind that a plain scalar has by its spelling. -/
def ofPlain (content : Text) : Tag :=
  let t := withoutFinalBreak content
  if content.isEmpty then null
  else if t.isEmpty then str
  else if isBoolean t then bool
  else if isFloat t then float
  else if isInteger t then int
  else if isOneOf ["<<"] t then merge
  else if isNull t then null
  else if isTime t then timestamp
  else if isOneOf ["="] t then value
  else if isOneOf ["!", "&", "*"] t then unknown (family ++ Text.ofString "yaml")
  else str

end Tag

end SiteRules.Yaml
