import SiteRules.Number.Binary64
import SiteRules.Text.Blank
import SiteRules.Text.Digit
import SiteRules.Text.Lower
import SiteRules.Text.Quoted

/-!
# Number literals

The readers of integers and of floating-point numbers from a text that should hold nothing else.
Digits of every script count as decimal digits, blanks at the ends are ignored, and an underscore
may stand between two digits.
-/

namespace SiteRules.Literal

/-- Why a text is not a number. -/
inductive Error where
  /-- The text is no integer in this base. -/
  | notInteger (base : Nat) (source : Text)
  /-- The text has more digits than are converted. -/
  | tooManyDigits (count : Nat)
  /-- The integer has more digits than are written. -/
  | tooLong
  /-- The text is no floating-point number. -/
  | notFloat (source : Text)
deriving DecidableEq, Repr

/-- The greatest number of digits that are converted to or from an integer. -/
def maxDigits : Nat := 4300

/-- Whether an integer has few enough digits to be written. -/
def isSpellable (n : Int) : Bool :=
  n.natAbs < Nat.pow 10 maxDigits

/-- How much of the form of a text that is no integer is shown. -/
def maxShown : Nat := 200

/-- The wording of a failed conversion. -/
def Error.message : Error → String
  | notInteger base source =>
    s!"invalid literal for int() with base {base}: " ++ (source.quoted.take maxShown).toString
  | tooManyDigits count =>
    s!"Exceeds the limit ({maxDigits} digits) for integer string conversion: value has "
      ++ s!"{count} digits; use sys.set_int_max_str_digits() to increase the limit"
  | tooLong =>
    s!"Exceeds the limit ({maxDigits} digits) for integer string conversion; "
      ++ "use sys.set_int_max_str_digits() to increase the limit"
  | notFloat source => s!"could not convert string to float: {source.quoted}"

/-- Blanks that may surround a number; the information separators are not among them. -/
def isPadding (c : CodePoint) : Bool :=
  c.isBlank && !(0x1c ≤ c.val && c.val ≤ 0x1f)

/-- A text without the padding at its two ends. -/
def unpad (t : Text) : Text :=
  ((t.dropWhile isPadding).reverse.dropWhile isPadding).reverse

/-- The sign in front of a text, and what follows it. -/
def cutSign : Text → Bool × Text
  | [] => (false, [])
  | c :: rest => if c = '-' then (true, rest) else if c = '+' then (false, rest) else (false, c :: rest)

/-- The value of a digit in bases up to sixteen. -/
def digitValue? (c : CodePoint) : Option Nat :=
  if 0x41 ≤ c.val && c.val ≤ 0x46 then some (c.val - 0x37)
  else if 0x61 ≤ c.val && c.val ≤ 0x66 then some (c.val - 0x57)
  else c.digit?

/-- The values of the digits of a text in which single underscores may stand between digits. -/
def digitValues? (base : Nat) : Text → Option (List Nat)
  | [] => none
  | c :: rest =>
    match digitValue? c with
    | none => none
    | some d =>
      if base ≤ d then none
      else match rest with
        | [] => some [d]
        | u :: rest' =>
          if u = '_' then (digitValues? base rest').map (d :: ·)
          else (digitValues? base (u :: rest')).map (d :: ·)

/-- The number whose digits are given, the first being the most significant. -/
def ofDigits (base : Nat) (digits : List Nat) : Nat :=
  digits.foldl (fun n d => base * n + d) 0

/-- The digits after the mark of a base (`0b`, `0o` or `0x`), an underscore being allowed between
them; a text without the mark is its own digits. -/
def cutMark (base : Nat) : Text → Text
  | z :: m :: rest =>
    let marked :=
      (base = 2 && (m = 'b' || m = 'B')) || (base = 8 && (m = 'o' || m = 'O'))
        || (base = 16 && (m = 'x' || m = 'X'))
    if z = '0' && marked then
      match rest with
      | u :: rest' => if u = '_' then rest' else rest
      | [] => rest
    else z :: m :: rest
  | t => t

/-- Reads an integer in base 2, 8, 10 or 16. -/
def readInt (base : Nat) (source : Text) : Except Error Int :=
  let (negative, t) := cutSign (unpad source)
  match digitValues? base (cutMark base t) with
  | none => .error (.notInteger base source)
  | some digits =>
    if base = 10 && digits.length > maxDigits then .error (.tooManyDigits digits.length)
    else
      let n : Int := ofDigits base digits
      .ok (if negative then -n else n)

/-- The digits at the front of a text, in which single underscores may stand between digits, and
what follows them. -/
def cutDigitsAfter (digitBefore : Bool) : Text → Text × Text
  | [] => ([], [])
  | c :: rest =>
    if c.isDigit then
      let (digits, rest') := cutDigitsAfter true rest
      (c :: digits, rest')
    else if digitBefore && c = '_' && rest.head?.any CodePoint.isDigit then
      cutDigitsAfter false rest
    else ([], c :: rest)

/-- The digits at the front of a text and what follows them. -/
def cutDigits (t : Text) : Text × Text :=
  cutDigitsAfter false t

/-- The exponent at the front of a text, and what follows it. -/
def cutExponent? : Text → Option (Int × Text)
  | [] => some (0, [])
  | c :: rest =>
    if c = 'e' ∨ c = 'E' then
      let (negative, t) := cutSign rest
      let (digits, rest') := cutDigits t
      if digits.isEmpty then none
      else some ((if negative then -1 else 1) * (digits.decimal : Int), rest')
    else some (0, c :: rest)

/-- Reads a decimal without sign that fills the text. -/
def readDecimal? (negative : Bool) (t : Text) : Option Binary64 := do
  let (whole, rest) := cutDigits t
  let (places, rest) := match rest with
    | c :: rest' => if c = '.' then cutDigits rest' else ([], c :: rest')
    | [] => ([], [])
  if whole.isEmpty && places.isEmpty then none
  let (exponent, rest) ← cutExponent? rest
  if !rest.isEmpty then none
  return .ofDecimal negative (whole ++ places).decimal (exponent - places.length)

/-- Reads a floating-point number: a decimal, or the name of an infinity or of NaN. -/
def readFloat (source : Text) : Except Error Binary64 :=
  let (negative, t) := cutSign (unpad source)
  let name := t.lower
  if name = Text.ofString "inf" ∨ name = Text.ofString "infinity" then .ok (.infinite negative)
  else if name = Text.ofString "nan" then .ok (.nan 1)
  else match readDecimal? negative t with
    | some x => .ok x
    | none => .error (.notFloat source)

end SiteRules.Literal
