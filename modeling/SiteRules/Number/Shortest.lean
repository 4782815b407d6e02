import SiteRules.Number.Binary64

/-!
# Shortest decimals

A finite number is written with the fewest digits that read back as the same number; of two
candidates of that length, the nearer one is taken.
-/

namespace SiteRules.Binary64

/-- The magnitude of a finite number as a quotient of natural numbers. -/
structure Magnitude where
  num : Nat
  den : Nat

/-- The exponent of the leading decimal digit of a positive magnitude. -/
def Magnitude.leadingExponent (v : Magnitude) : Int :=
  if v.den ≤ v.num then (decimalLength (v.num / v.den) : Int) - 1
  else -(decimalLength ((v.den - 1) / v.num) : Int)

/-- A decimal `digits * 10 ^ exponent`. -/
structure Decimal where
  digits : Nat
  exponent : Int
deriving DecidableEq, Repr

/-- Whether a decimal reads as the number with this significand and power. -/
def readsBack (significand power : Nat) (d : Decimal) : Bool :=
  ofDecimal false d.digits d.exponent = .finite false significand power

/-- The decimal on the grid `10 ^ exponent` that reads back, if one of the two neighbours of the
magnitude on that grid does; of two, the nearer. -/
def onGrid? (significand power : Nat) (v : Magnitude) (exponent : Int) : Option Decimal :=
  let num := if 0 ≤ exponent then v.num else v.num * Nat.pow 10 (-exponent).toNat
  let den := if 0 ≤ exponent then v.den * Nat.pow 10 exponent.toNat else v.den
  let below : Decimal := ⟨num / den, exponent⟩
  let above : Decimal := ⟨num / den + 1, exponent⟩
  let twice := 2 * (num % den)
  let nearer := if twice < den || (twice = den && below.digits % 2 = 0) then below else above
  let farther := if nearer = below then above else below
  if readsBack significand power nearer then some nearer
  else if readsBack significand power farther then some farther
  else none

/-- Tries the grids from `count` digits on, `fuel` of them. -/
def shortestFrom (significand power : Nat) (v : Magnitude) (leading : Int) (count : Nat) :
    Nat → Decimal
  | 0 => ⟨0, 0⟩
  | fuel + 1 =>
    match onGrid? significand power v (leading + 1 - count) with
    | some d => d
    | none => shortestFrom significand power v leading (count + 1) fuel

/-- The shortest decimal of a positive finite number; seventeen digits always suffice. -/
def shortest (significand power : Nat) : Decimal :=
  let v : Magnitude := ⟨significand * Nat.pow 2 power, one⟩
  shortestFrom significand power v v.leadingExponent 1 17

/-- The decimal without zeros at its end: its digits, and the exponent of the first of them. -/
def Decimal.normal (d : Decimal) : List Char × Int :=
  let digits := Nat.toDigits 10 d.digits
  ((digits.reverse.dropWhile (· = '0')).reverse, d.exponent + digits.length - 1)

/-- The exponent after the `e`, with its sign and at least two digits. -/
def exponentText (e : Int) : String :=
  let digits := Nat.toDigits 10 e.natAbs
  (if e < 0 then "e-" else "e+") ++ String.ofList (if digits.length < 2 then '0' :: digits else digits)

/-- The text of a decimal: positional from `10 ^ -4` up to `10 ^ 16`, with an exponent elsewhere. -/
def Decimal.text (d : Decimal) : String :=
  let (digits, leading) := d.normal
  if leading < -4 || 16 ≤ leading then
    match digits with
    | [] => ""
    | [c] => String.singleton c ++ exponentText leading
    | c :: rest => String.ofList (c :: '.' :: rest) ++ exponentText leading
  else if leading < 0 then
    "0." ++ String.ofList (List.replicate (-leading - 1).toNat '0' ++ digits)
  else
    let whole := leading.toNat + 1
    let padded := digits ++ List.replicate (whole - digits.length) '0'
    let places := padded.drop whole
    String.ofList (padded.take whole) ++ "." ++ (if places.isEmpty then "0" else String.ofList places)

/-- The text of a number: its shortest decimal, or the name of what is no finite number. -/
def text : Binary64 → String
  | nan _ => "nan"
  | infinite negative => if negative then "-inf" else "inf"
  | finite negative significand power =>
    (if negative then "-" else "")
      ++ (if significand = 0 then "0.0" else (shortest significand power).text)

end SiteRules.Binary64
