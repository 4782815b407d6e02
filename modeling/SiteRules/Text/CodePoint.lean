/-!
# Code points and texts

A text is a list of Unicode code points. Code points are used rather than `Char` because escapes
in documents can name a lone surrogate, which is a code point but no character.
-/

namespace SiteRules

/-- A Unicode code point, surrogates included. -/
structure CodePoint where
  val : Nat
  isLt : val < 0x110000
deriving DecidableEq, Repr

namespace CodePoint

/-- Two code points with the same number are the same. -/
@[ext] theorem ext {a b : CodePoint} (h : a.val = b.val) : a = b := by
  cases a; cases b; simp_all

/-- The code point of a character. -/
def ofChar (c : Char) : CodePoint :=
  ⟨c.toNat, by
    have h := c.valid
    simp only [Char.toNat]
    rcases h with h | h
    · have h2 : c.val.toNat < 0xd800 := h
      omega
    · have h2 : c.val.toNat < 0x110000 := h.2
      exact h2⟩

instance : Coe Char CodePoint := ⟨ofChar⟩

/-- The code point numbered `n`; a number past the last one gives the replacement character. -/
def ofNat (n : Nat) : CodePoint :=
  if h : n < 0x110000 then ⟨n, h⟩ else ofChar '\uFFFD'

instance : Inhabited CodePoint := ⟨ofChar '\u0000'⟩

/-- Surrogates are the code points that encode no character. -/
def isSurrogate (c : CodePoint) : Bool :=
  0xd800 ≤ c.val && c.val ≤ 0xdfff

/-- The character of a code point, the replacement character standing for a surrogate. -/
def toChar (c : CodePoint) : Char :=
  if c.isSurrogate then '\uFFFD' else Char.ofNat c.val

/-- Whether the code point lies in one of the closed ranges of a table. -/
def isIn (c : CodePoint) (table : List (Nat × Nat)) : Bool :=
  table.any fun range => range.1 ≤ c.val && c.val ≤ range.2

/-- The basic Latin block is the first 128 code points. -/
def isBasicLatin (c : CodePoint) : Bool :=
  c.val < 0x80

/-- A letter of basic Latin, in either case. -/
def isBasicLetter (c : CodePoint) : Bool :=
  (0x41 ≤ c.val && c.val ≤ 0x5a) || (0x61 ≤ c.val && c.val ≤ 0x7a)

/-- A digit of basic Latin. -/
def isBasicDigit (c : CodePoint) : Bool :=
  0x30 ≤ c.val && c.val ≤ 0x39

/-- A hexadecimal digit of basic Latin, in either case. -/
def isHexDigit (c : CodePoint) : Bool :=
  c.isBasicDigit || (0x41 ≤ c.val && c.val ≤ 0x46) || (0x61 ≤ c.val && c.val ≤ 0x66)

end CodePoint

/-- A sequence of code points. -/
abbrev Text := List CodePoint

namespace Text

/-- The text spelled by a list of characters. -/
def ofChars (cs : List Char) : Text :=
  cs.map CodePoint.ofChar

/-- The text of a string. -/
def ofString (s : String) : Text :=
  ofChars s.toList

instance : Coe String Text := ⟨ofString⟩

/-- The string of a text, the replacement character standing for each surrogate. -/
def toString (t : Text) : String :=
  String.ofList (t.map CodePoint.toChar)

/-- The code points before and after the first `sep`, if it occurs. -/
def cut? (sep : CodePoint) : Text → Option (Text × Text)
  | [] => none
  | c :: rest =>
    if c = sep then some ([], rest)
    else (cut? sep rest).map fun parts => (c :: parts.1, parts.2)

/-- The code points before and after the last `sep`, if it occurs. -/
def cutLast? (sep : CodePoint) (t : Text) : Option (Text × Text) :=
  (cut? sep t.reverse).map fun parts => (parts.2.reverse, parts.1.reverse)

/-- The pieces of a text between the occurrences of `sep`; there is always at least one. -/
def splitAt (sep : CodePoint) : Text → List Text
  | [] => [[]]
  | c :: rest =>
    if c = sep then [] :: splitAt sep rest
    else match splitAt sep rest with
      | [] => [[c]]
      | piece :: pieces => (c :: piece) :: pieces

/-- Whether `part` occurs in a text as consecutive code points. -/
def occursIn (part : Text) : Text → Bool
  | [] => part.isEmpty
  | c :: rest => part.isPrefixOf (c :: rest) || occursIn part rest

/-- The digits of a natural number in base ten. -/
def ofNat (n : Nat) : Text :=
  ofChars (Nat.toDigits 10 n)

/-- Whether `a` comes before `b` in the order of code points. -/
def precedes : Text → Text → Bool
  | [], [] => false
  | [], _ :: _ => true
  | _ :: _, [] => false
  | a :: as, b :: bs => a.val < b.val || (a = b && precedes as bs)

end Text

end SiteRules
