import SiteRules.Text.Base64
import SiteRules.Value.Basic
import SiteRules.Yaml.Fault
import SiteRules.Yaml.Tag

/-!
# Values of scalars

The value that a scalar of a given kind spells.
-/

namespace SiteRules.Yaml.Scalar

/-- The words for the truth values, in lower case. -/
def booleans : List (Text × Bool) :=
  [(Text.ofString "yes", true), (Text.ofString "no", false), (Text.ofString "true", true),
    (Text.ofString "false", false), (Text.ofString "on", true), (Text.ofString "off", false)]

/-- Reads a truth value. -/
def readBoolean (t : Text) : Except Fault Value :=
  match booleans.lookup t.lower with
  | some b => .ok (.bool b)
  | none => .error (.notABoolean t.lower)

/-- Reads an integer in a base. -/
def integer (base : Nat) (t : Text) : Except Fault Int :=
  (Literal.readInt base t).mapError Fault.number

/-- Reads an integer in sixtieths, part by part. -/
def readSixtieths (t : Text) : Except Fault Int := do
  let parts ← (t.splitAt ':').mapM (integer 10)
  return parts.foldl (fun n part => 60 * n + part) 0

/-- A text without its underscores. -/
def dropUnderscores (t : Text) : Text :=
  t.filter fun (c : CodePoint) => c ≠ '_'

/-- The sign in front of a number without underscores, which must not be empty, and what follows
it. -/
def cutSign (t : Text) : Except Fault (Bool × Text) :=
  match t with
  | [] => .error .noDigits
  | c :: rest =>
    if c = '-' then .ok (true, rest) else if c = '+' then .ok (false, rest) else .ok (false, t)

/-- Reads an integer without sign. -/
def readUnsigned (t : Text) : Except Fault Int :=
  match t with
  | [] => .error .noDigits
  | z :: rest =>
    if z = '0' then
      match rest with
      | [] => .ok 0
      | m :: digits =>
        if m = 'b' then integer 2 digits
        else if m = 'x' then integer 16 digits
        else integer 8 t
    else if t.any (· = ':') then readSixtieths t
    else integer 10 t

/-- Reads an integer. -/
def readInteger (content : Text) : Except Fault Value := do
  let (negative, t) ← cutSign (dropUnderscores content)
  let n ← readUnsigned t
  return .int (if negative then -n else n)

/-- The label of the NaN that `.nan` names; every other spelling gives a NaN of its own. -/
def nanLabel : Nat := 1

/-- Adds up parts in sixtieths, from the least to the greatest, `place` being what the first of
them is multiplied with. -/
def addSixtieths (place : Nat) : List Binary64 → Binary64 → Except Fault Binary64
  | [], sum => .ok sum
  | x :: rest, sum => match x.scale? place with
    | none => .error .placeOverflow
    | some weighted => addSixtieths (60 * place) rest (sum.add weighted)

/-- Reads a floating-point number without sign. A NaN that is no constant takes the label `own`. -/
def readUnsignedFloat (own : Nat) (t : Text) : Except Fault Binary64 := do
  if t = Text.ofString ".inf" then return .infinite false
  if t = Text.ofString ".nan" then return .nan nanLabel
  let read (part : Text) : Except Fault Binary64 :=
    (Literal.readFloat part).mapError Fault.number
  let x ← if t.any (· = ':') then do
      addSixtieths 1 (← (t.splitAt ':').mapM read).reverse (.zero false)
    else read t
  return x.relabel own

/-- Reads a floating-point number. -/
def readFloat (own : Nat) (content : Text) : Except Fault Value := do
  let (negative, t) ← cutSign (dropUnderscores content).lower
  let x ← readUnsignedFloat own t
  return .float (if negative then x.neg else x)

/-- Reads bytes. -/
def readBytes (t : Text) : Except Fault Value :=
  if t.all CodePoint.isBasicLatin then
    match Base64.decode? t with
    | some bytes => .ok (.bytes bytes)
    | none => .error .malformed
  else .error .malformed

/-- Reads a point in time. -/
def readTime (t : Text) : Except Fault Value :=
  match SpelledTime.read? (Tag.withoutFinalBreak t) with
  | none => .error .notATime
  | some spelled => match spelled.toTime with
    | .error e => .error (.calendar e)
    | .ok (.date d) => .ok (.date d)
    | .ok (.moment m) => .ok (.moment m)

/-- Reads a scalar of a kind; a kind that has no scalars is a fault. The number of the scalar in
its document tells NaNs apart. -/
def read (tag : Tag) (number : Nat) (content : Text) : Except Fault Value :=
  match tag with
  | .null => .ok .null
  | .bool => readBoolean content
  | .int => readInteger content
  | .float => readFloat (number + nanLabel + 1) content
  | .binary => readBytes content
  | .timestamp => readTime content
  | .str => .ok (.text content)
  | _ => .error .malformed

end SiteRules.Yaml.Scalar
