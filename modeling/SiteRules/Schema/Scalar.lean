import SiteRules.Number.Literal
import SiteRules.Schema.Issue
import SiteRules.Text.Utf8

/-!
# Scalars of a schema

The readers of integers, truth values and names. Each takes the values of its own kind and those
of other kinds that stand for one, such as a text that spells a number.
-/

namespace SiteRules.Schema

/-- The integer in its plainest form in front of a text, and what follows it: a minus or none, then
a zero alone or digits that do not begin with one. -/
def cutPlain? (t : Text) : Option (Text × Text) :=
  let (negative, digits) := match t with
    | c :: rest => if c = '-' then (true, rest) else (false, c :: rest)
    | [] => (false, [])
  let sign : Text := if negative then [CodePoint.ofChar '-'] else []
  match digits with
  | [] => none
  | c :: rest =>
    if c = '0' then some (sign ++ [c], rest)
    else if c.isBasicDigit then
      some (sign ++ digits.takeWhile CodePoint.isBasicDigit, digits.dropWhile CodePoint.isBasicDigit)
    else none

/-- Reads a text that holds an integer in its plainest form and nothing else. -/
def readPlain (t : Text) : Except Issue.Reason Int :=
  match cutPlain? t with
  | none => .error .integerText
  | some (spelling, rest) =>
    if Literal.maxDigits < spelling.length then .error .integerSize
    else if !rest.isEmpty then .error .integerText
    else
      let (negative, digits) := Literal.cutSign spelling
      let n : Int := digits.decimal
      .ok (if negative then -n else n)

/-- A text that begins with a digit other than zero, or with a minus, or would do so without the
zeros and underscores in front. One that holds nothing else is its last code point, and in front of
a point one is kept. -/
def dropZeros? : Text → Option Text
  | [] => none
  | c :: rest =>
    if c = '0' then
      let isLeading (d : CodePoint) : Bool := d = '0' || d = '_'
      let last := ((c :: rest.takeWhile isLeading).getLast (by simp))
      match rest.dropWhile isLeading with
      | [] => some [last]
      | d :: rest' =>
        if d = '.' then some (last :: d :: rest')
        else if d.isBasicDigit then some (d :: rest')
        else none
    else if c.isBasicDigit || c = '-' then some (c :: rest)
    else none

/-- A text without a point that is followed by zeros and nothing else. -/
def dropPlaces (t : Text) : Text :=
  match t.cut? '.' with
  | some (whole, places) => if !places.isEmpty && places.all (· = '0') then whole else t
  | none => t

/-- A text without the underscores between its digits. -/
def dropUnderscores? (t : Text) : Option Text :=
  if t.head? = some (CodePoint.ofChar '_') || t.getLast? = some (CodePoint.ofChar '_')
    || (Text.ofChars ['_', '_']).occursIn t then none
  else some (t.filter (· ≠ '_'))

/-- A text without a plus in front, which no minus may follow. -/
def dropPlus? (t : Text) : Option Text :=
  match t with
  | c :: rest =>
    if c ≠ '+' then some t
    else if rest.head? = some (CodePoint.ofChar '-') then none
    else some rest
  | [] => some t

/-- A text without what may surround the plainest form of an integer. -/
def clean? (t : Text) : Option Text := do
  let unsigned ← dropPlus? (Literal.unpad t)
  let digits ← dropZeros? unsigned
  dropUnderscores? (dropPlaces digits)

/-- The integer that a text spells. Only one that is in its plainest form can be too long. -/
def integerOfText (t : Text) : Except Issue.Reason Int :=
  match readPlain t with
  | .error .integerText => match (clean? t).map readPlain with
    | some (.ok n) => .ok n
    | _ => .error .integerText
  | result => result

/-- The text that a sequence of bytes encodes. -/
def textOfBytes? (bs : List UInt8) : Option Text :=
  match Utf8.decode bs with
  | .ok cs => some (Text.ofChars cs)
  | .error _ => none

/-- Reads an integer. -/
def readInteger (v : Value) : Except Issue.Reason Int :=
  match v.content with
  | .int n => .ok n
  | .bool b => .ok b.toNat
  | .float x =>
    match x.units? with
    | none => .error .notFinite
    | some _ => match x.toInt? with
      | none => .error .fractional
      | some n => if n.natAbs < 0x8000000000000000 then .ok n else .error .integerSize
  | .text t => if t.any CodePoint.isSurrogate then .error .notUtf8 else integerOfText t
  | .bytes bs => match textOfBytes? bs with
    | some t => integerOfText t
    | none => .error .integerText
  | _ => .error .notAnInteger

/-- The spellings of the truth values, in lower case. -/
def booleanSpellings : List (String × Bool) :=
  [("0", false), ("off", false), ("f", false), ("false", false), ("n", false), ("no", false),
    ("1", true), ("on", true), ("t", true), ("true", true), ("y", true), ("yes", true)]

/-- The truth value that a text spells, in either case. -/
def booleanOfText? (t : Text) : Option Bool :=
  let basicLower (c : CodePoint) : CodePoint :=
    if 0x41 ≤ c.val && c.val ≤ 0x5a then CodePoint.ofNat (c.val + 0x20) else c
  (booleanSpellings.find? fun spelling => Text.ofString spelling.1 = t.map basicLower).map Prod.snd

/-- Reads a truth value. -/
def readBoolean (v : Value) : Except Issue.Reason Bool :=
  let ofInt (n : Int) : Except Issue.Reason Bool :=
    if n < -0x8000000000000000 || 0x8000000000000000 ≤ n then .error .notABoolean
    else if n = 0 then .ok false
    else if n = 1 then .ok true
    else .error .booleanText
  let ofText (t : Text) : Except Issue.Reason Bool := match booleanOfText? t with
    | some b => .ok b
    | none => .error .booleanText
  match v.content with
  | .bool b => .ok b
  | .int n => ofInt n
  | .float x => match x.toInt? with
    | some n => if n = -0x8000000000000000 then .error .notABoolean else ofInt n
    | none => .error .notABoolean
  | .text t => if t.any CodePoint.isSurrogate then .error .notUtf8 else ofText t
  | .bytes bs => match textOfBytes? bs with
    | some t => ofText t
    | none => .error .booleanText
  | _ => .error .notABoolean

/-- Reads a name, which is a text or bytes that encode one. -/
def readName (v : Value) : Except Issue.Reason Text :=
  match v.content with
  | .text t => .ok t
  | .bytes bs => match textOfBytes? bs with
    | some t => .ok t
    | none => .error .notUtf8
  | _ => .error .notAText

/-- The entries of a mapping. -/
def readMapping (v : Value) : Except Issue.Reason (List (Value × Value)) :=
  match v.content with
  | .map entries => .ok entries
  | _ => .error .notAMapping

/-- The value of a name in the entries of a mapping. -/
def field? (name : String) (entries : List (Value × Value)) : Option Value :=
  (entries.find? fun entry => match entry.1.content with
    | .text t => t = Text.ofString name
    | _ => false).map Prod.snd

end SiteRules.Schema
