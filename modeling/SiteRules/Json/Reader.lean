import SiteRules.Json.Error
import SiteRules.Value.Entries

/-!
# Reading JSON

The reader of JSON texts. Besides what the format allows it takes the names `NaN`, `Infinity` and
`-Infinity` for numbers, and escapes that spell lone surrogates.
-/

namespace SiteRules.Json

/-- Where reading stopped, as the characters that were left. -/
inductive Stop where
  | at (expected : Expected) (rest : List Char)
  | number (e : Literal.Error)

/-- The blanks between the parts of a text. -/
def isBlank (c : Char) : Bool :=
  c = ' ' || c = '\t' || c = '\n' || c = '\r'

/-- The characters from the first that is not blank. -/
def skipBlanks (cs : List Char) : List Char :=
  cs.dropWhile isBlank

/-- The value of a hexadecimal digit. -/
def hexValue? (c : Char) : Option Nat :=
  if '0' ≤ c && c ≤ '9' then some (c.toNat - 48)
  else if 'a' ≤ c && c ≤ 'f' then some (c.toNat - 87)
  else if 'A' ≤ c && c ≤ 'F' then some (c.toNat - 55)
  else none

/-- The number spelled by four hexadecimal digits in front of a text, which must go on. -/
def fourDigits? : List Char → Option (Nat × List Char)
  | a :: b :: c :: d :: e :: rest => do
    let n := (((← hexValue? a) * 16 + (← hexValue? b)) * 16 + (← hexValue? c)) * 16 + (← hexValue? d)
    return (n, e :: rest)
  | _ => none

/-- The code point of an escape other than one by number. -/
def simpleEscape? : Char → Option Char
  | '"' => some '"'
  | '\\' => some '\\'
  | '/' => some '/'
  | 'b' => some '\x08'
  | 'f' => some '\x0c'
  | 'n' => some '\n'
  | 'r' => some '\r'
  | 't' => some '\t'
  | _ => none

/-- The code point that two surrogates encode together. -/
def joinSurrogates (high low : Nat) : Nat :=
  0x10000 + (high - 0xd800) * 0x400 + (low - 0xdc00)

/-- Reads an escape by number, `cs` being what follows the `u`. An escape for a high surrogate
takes an escape for a low one that follows it along. -/
def scanHexEscape (cs : List Char) : Except Stop (CodePoint × List Char) :=
  match fourDigits? cs with
  | none => .error (.at .hexEscape ('u' :: cs))
  | some (high, rest) =>
    if 0xd800 ≤ high && high ≤ 0xdbff then
      match rest with
      | '\\' :: 'u' :: more =>
        if more.length ≤ 4 then .ok (CodePoint.ofNat high, rest)
        else match fourDigits? more with
          | none => .error (.at .hexEscape ('u' :: more))
          | some (low, rest') =>
            if 0xdc00 ≤ low && low ≤ 0xdfff then
              .ok (CodePoint.ofNat (joinSurrogates high low), rest')
            else .ok (CodePoint.ofNat high, rest)
      | _ => .ok (CodePoint.ofNat high, rest)
    else .ok (CodePoint.ofNat high, rest)

/-- Reads a text up to its closing quote; `opening` is where it was opened. -/
def scanText (opening : List Char) : Nat → List Char → Except Stop (Text × List Char)
  | 0, _ => .error (.at .closingQuote opening)
  | fuel + 1, cs =>
    match cs with
    | [] => .error (.at .closingQuote opening)
    | '"' :: rest => .ok ([], rest)
    | '\\' :: [] => .error (.at .closingQuote opening)
    | '\\' :: 'u' :: rest => do
      let (c, rest) ← scanHexEscape rest
      let (t, rest) ← scanText opening fuel rest
      return (c :: t, rest)
    | '\\' :: e :: rest =>
      match simpleEscape? e with
      | none => .error (.at .escape ('\\' :: e :: rest))
      | some c => do
        let (t, rest) ← scanText opening fuel rest
        return (CodePoint.ofChar c :: t, rest)
    | c :: rest =>
      if c.toNat < 0x20 then .error (.at .plainCharacter (c :: rest))
      else do
        let (t, rest) ← scanText opening fuel rest
        return (CodePoint.ofChar c :: t, rest)

/-- The digits in front of a text and what follows them. -/
def cutDigits (cs : List Char) : List Char × List Char :=
  (cs.takeWhile Char.isDigit, cs.dropWhile Char.isDigit)

/-- The whole part of a number: a zero, or digits that do not begin with one. -/
def cutWhole? : List Char → Option (List Char × List Char)
  | '0' :: rest => some (['0'], rest)
  | cs => match cutDigits cs with
    | ([], _) => none
    | parts => some parts

/-- The places after the point, if a digit follows it. -/
def cutPlaces? : List Char → Option (List Char × List Char)
  | '.' :: cs => match cutDigits cs with
    | ([], _) => none
    | parts => some parts
  | _ => none

/-- The exponent, if it has a digit. -/
def cutExponent? : List Char → Option (Int × List Char)
  | e :: cs =>
    if e = 'e' || e = 'E' then
      let (negative, cs) := match cs with
        | '-' :: cs => (true, cs)
        | '+' :: cs => (false, cs)
        | cs => (false, cs)
      match cutDigits cs with
      | ([], _) => none
      | (digits, rest) =>
        let n : Int := (Text.ofChars digits).decimal
        some (if negative then -n else n, rest)
    else none
  | [] => none

/-- The sign in front of a number and what follows it. -/
def cutSign : List Char → Bool × List Char
  | '-' :: rest => (true, rest)
  | cs => (false, cs)

/-- Reads a number. -/
def scanNumber (cs : List Char) : Except Stop (Value × List Char) :=
  let (negative, unsigned) := cutSign cs
  match cutWhole? unsigned with
  | none => .error (.at .value cs)
  | some (whole, rest) =>
    let places := cutPlaces? rest
    let rest := (places.map Prod.snd).getD rest
    let exponent := cutExponent? rest
    let rest := (exponent.map Prod.snd).getD rest
    if places.isSome || exponent.isSome then
      let digits := whole ++ (places.map Prod.fst).getD []
      let shift : Int := ((places.map Prod.fst).getD []).length
      let x := Binary64.ofDecimal negative (Text.ofChars digits).decimal
        ((exponent.map Prod.fst).getD 0 - shift)
      .ok (.float x, rest)
    else match Literal.readInt 10 (Text.ofChars whole) with
      | .ok n => .ok (.int (if negative then -n else n), rest)
      | .error e => .error (.number e)

/-- The values that are spelled by a name. -/
def names : List (List Char × Value) :=
  [("null".toList, .null), ("true".toList, .bool true), ("false".toList, .bool false),
    ("NaN".toList, .float (.nan 0)), ("Infinity".toList, .float (.infinite false)),
    ("-Infinity".toList, .float (.infinite true))]

/-- Reads a value that is neither a text nor a container. -/
def scanAtom (cs : List Char) : Except Stop (Value × List Char) :=
  match names.find? fun name => name.1.isPrefixOf cs with
  | some (name, v) => .ok (v, cs.drop name.length)
  | none => scanNumber cs

mutual

/-- Reads a value. -/
def scanValue : Nat → List Char → Except Stop (Value × List Char)
  | 0, cs => .error (.at .value cs)
  | fuel + 1, cs =>
    match cs with
    | [] => .error (.at .value [])
    | '"' :: rest => do
      let (t, rest) ← scanText cs (rest.length + 1) rest
      return (.text t, rest)
    | '\x7b' :: rest => do
      let (entries, rest) ← match skipBlanks rest with
        | '\x7d' :: rest => .ok ([], rest)
        | rest => scanEntries fuel rest
      return (Value.ofEntries entries, rest)
    | '[' :: rest => do
      let (items, rest) ← match skipBlanks rest with
        | ']' :: rest => .ok ([], rest)
        | rest => scanItems fuel rest
      return (.list items, rest)
    | cs => scanAtom cs

/-- Reads the items of a list up to its closing bracket. -/
def scanItems : Nat → List Char → Except Stop (List Value × List Char)
  | 0, cs => .error (.at .value cs)
  | fuel + 1, cs => do
    let (v, rest) ← scanValue fuel cs
    match skipBlanks rest with
    | ']' :: rest => return ([v], rest)
    | ',' :: rest =>
      let (vs, rest) ← scanItems fuel (skipBlanks rest)
      return (v :: vs, rest)
    | rest => throw (.at .comma rest)

/-- Reads the entries of a mapping up to its closing brace. -/
def scanEntries : Nat → List Char → Except Stop (List (Value × Value) × List Char)
  | 0, cs => .error (.at .value cs)
  | fuel + 1, cs =>
    match cs with
    | '"' :: rest => do
      let (name, rest) ← scanText cs (rest.length + 1) rest
      match skipBlanks rest with
      | ':' :: rest =>
        let (v, rest) ← scanValue fuel (skipBlanks rest)
        match skipBlanks rest with
        | '\x7d' :: rest => return ([(.text name, v)], rest)
        | ',' :: rest =>
          let (entries, rest) ← scanEntries fuel (skipBlanks rest)
          return ((.text name, v) :: entries, rest)
        | rest => throw (.at .comma rest)
      | rest => throw (.at .colon rest)
    | cs => .error (.at .name cs)

end

/-- Reads a text that holds one value. -/
def read (cs : List Char) : Except Error Value :=
  let stopped : Stop → Error
    | .at expected rest => .malformed expected cs (cs.length - rest.length)
    | .number e => .number e
  match cs with
  | '\uFEFF' :: _ => .error (.malformed .noByteOrderMark cs 0)
  | _ => match scanValue (2 * cs.length + 2) (skipBlanks cs) with
    | .error stop => .error (stopped stop)
    | .ok (v, rest) => match skipBlanks rest with
      | [] => .ok v
      | rest => .error (stopped (.at .nothingMore rest))

end SiteRules.Json
