/-!
# Binary floating point

The numbers of the binary64 format in exact terms: a finite one is a whole number of units of
`2 ^ -1074`, written as a significand and a power of two. Each operation is exact arithmetic
followed by one rounding (`ofRatio`), to the nearest number and from a tie to the even one.
-/

namespace SiteRules

/-- A binary64 number. A finite one has the magnitude `significand * 2 ^ power` in units of
`2 ^ -1074`. A NaN carries a label, as the format's NaNs carry payloads. -/
inductive Binary64 where
  | nan (label : Nat)
  | infinite (negative : Bool)
  | finite (negative : Bool) (significand power : Nat)
deriving DecidableEq, Repr

namespace Binary64

/-- The number of units of `2 ^ -1074` in one. -/
def one : Nat := Nat.pow 2 1074

/-- The quotient rounded to the nearest whole number, a tie going to the even one. -/
def roundQuotient (num den : Nat) : Nat :=
  let q := num / den
  let twice := 2 * (num % den)
  if twice < den then q
  else if twice = den then q + q % 2
  else q + 1

/-- The number nearest to `num / den`. -/
def ofRatio (negative : Bool) (num den : Nat) : Binary64 :=
  if num = 0 then .finite negative 0 0
  else
    let units := num * one
    let power := Nat.log2 (units / den) - 52
    let significand := roundQuotient units (den * Nat.pow 2 power)
    let (significand, power) :=
      if significand = Nat.pow 2 53 then (Nat.pow 2 52, power + 1) else (significand, power)
    if power > 2045 then .infinite negative else .finite negative significand power

/-- The zero of each sign. -/
def zero (negative : Bool) : Binary64 := .finite negative 0 0

/-- The number of decimal digits of a natural number. -/
def decimalLength (n : Nat) : Nat :=
  (Nat.toDigits 10 n).length

/-- The number nearest to `digits * 10 ^ exponent`. Exponents far outside the range of the format
are settled without computing the power. -/
def ofDecimal (negative : Bool) (digits : Nat) (exponent : Int) : Binary64 :=
  if digits = 0 then zero negative
  else
    let size : Int := decimalLength digits + exponent
    if size > 310 then .infinite negative
    else if size < -330 then zero negative
    else if 0 ≤ exponent then ofRatio negative (digits * Nat.pow 10 exponent.toNat) 1
    else ofRatio negative digits (Nat.pow 10 (-exponent).toNat)

/-- The number nearest to an integer. -/
def ofInt (n : Int) : Binary64 :=
  ofRatio (n < 0) n.natAbs 1

/-- The units of a finite number, with their sign. -/
def units? : Binary64 → Option Int
  | finite true significand power => some (-(significand * Nat.pow 2 power : Nat))
  | finite false significand power => some (significand * Nat.pow 2 power : Nat)
  | _ => none

/-- Whether the sign is minus. -/
def isNegative : Binary64 → Bool
  | nan _ => false
  | infinite negative => negative
  | finite negative _ _ => negative

/-- The number with the other sign. -/
def neg : Binary64 → Binary64
  | nan label => nan label
  | infinite negative => infinite !negative
  | finite negative significand power => finite (!negative) significand power

/-- The product with a natural number other than zero, which is first rounded to the format; there
is none if that number is too large. -/
def scale? (x : Binary64) (n : Nat) : Option Binary64 :=
  match x, ofRatio false n 1 with
  | _, infinite _ => none
  | finite negative a p, finite _ b q =>
    some (ofRatio negative (a * Nat.pow 2 p * (b * Nat.pow 2 q)) (one * one))
  | x, _ => some x

/-- The number with another label, if it is a NaN. -/
def relabel (label : Nat) : Binary64 → Binary64
  | nan _ => nan label
  | x => x

/-- The sum of two numbers. -/
def add : Binary64 → Binary64 → Binary64
  | nan label, _ => nan label
  | _, nan label => nan label
  | infinite a, infinite b => if a = b then infinite a else nan 0
  | infinite a, _ => infinite a
  | _, infinite b => infinite b
  | finite a m p, finite b n q =>
    let left : Int := (if a then -1 else 1) * (m * Nat.pow 2 p : Nat)
    let right : Int := (if b then -1 else 1) * (n * Nat.pow 2 q : Nat)
    let sum := left + right
    if sum = 0 then zero (a && b) else ofRatio (sum < 0) sum.natAbs one

/-- Whether two numbers are equal as numbers. The zeros are equal, and a NaN is equal to the NaN
with the same label only. -/
def same : Binary64 → Binary64 → Bool
  | nan a, nan b => a = b
  | infinite a, infinite b => a = b
  | x@(finite ..), y@(finite ..) => x.units? = y.units?
  | _, _ => false

/-- The integer that a number is, if it is one. -/
def toInt? (x : Binary64) : Option Int :=
  match x.units? with
  | some n => if n % one = 0 then some (n / one) else none
  | none => none

/-- Whether a number is less than another one; a NaN never is. -/
def less : Binary64 → Binary64 → Bool
  | nan _, _ => false
  | _, nan _ => false
  | infinite a, infinite b => a && !b
  | infinite a, _ => a
  | _, infinite b => !b
  | x, y => (x.units?.getD 0) < (y.units?.getD 0)

end Binary64

end SiteRules
