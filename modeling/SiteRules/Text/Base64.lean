import SiteRules.Text.CodePoint

/-!
# Base 64

Bytes as text, six bits to a character. Reading passes over what is no character of the alphabet
and stops at padding that completes a group.
-/

namespace SiteRules.Base64

/-- The characters of the alphabet in the order of their values. -/
def alphabet : List Char :=
  "ABCDEFGHIJKLMNOPQRSTUVWXYZabcdefghijklmnopqrstuvwxyz0123456789+/".toList

/-- The value of a character of the alphabet. -/
def value? (c : CodePoint) : Option Nat :=
  alphabet.findIdx? fun d => c = CodePoint.ofChar d

/-- The character with a value below 64. -/
def digit (n : Nat) : Char :=
  alphabet[n % 64]?.getD '='

/-- Reads a text. `place` is the place in the group of four, `left` the bits that are left over
from the character before, and `pads` the number of padding characters just read. -/
def decodeFrom (place left pads : Nat) : Text → Option (List UInt8)
  | [] => if place = 0 then some [] else none
  | c :: rest =>
    if c = '=' then
      if 2 ≤ place && 4 ≤ place + pads + 1 then some []
      else decodeFrom place left (if 2 ≤ place then pads + 1 else pads) rest
    else match value? c with
      | none => decodeFrom place left pads rest
      | some n =>
        match place with
        | 0 => decodeFrom 1 n 0 rest
        | 1 => (decodeFrom 2 (n % 16) 0 rest).map (UInt8.ofNat (left * 4 + n / 16) :: ·)
        | 2 => (decodeFrom 3 (n % 4) 0 rest).map (UInt8.ofNat (left * 16 + n / 4) :: ·)
        | _ => (decodeFrom 0 0 0 rest).map (UInt8.ofNat (left * 64 + n) :: ·)

/-- The bytes that a text spells, if its last group is complete. -/
def decode? (t : Text) : Option (List UInt8) :=
  decodeFrom 0 0 0 t

/-- The characters of bytes, three at a time. -/
def encode : List UInt8 → List Char
  | [] => []
  | [a] => [digit (a.toNat / 4), digit (a.toNat % 4 * 16), '=', '=']
  | [a, b] =>
    [digit (a.toNat / 4), digit (a.toNat % 4 * 16 + b.toNat / 16), digit (b.toNat % 16 * 4), '=']
  | a :: b :: c :: rest =>
    digit (a.toNat / 4) :: digit (a.toNat % 4 * 16 + b.toNat / 16)
      :: digit (b.toNat % 16 * 4 + c.toNat / 64) :: digit c.toNat :: encode rest

/-- The characters in lines of `width`, each with its line end. -/
def lines (width : Nat) : Nat → List Char → List Char
  | 0, _ => []
  | fuel + 1, cs =>
    if cs.isEmpty then [] else cs.take width ++ '\n' :: lines width fuel (cs.drop width)

/-- The characters of bytes in lines of 76. -/
def encodeLines (bytes : List UInt8) : List Char :=
  let cs := encode bytes
  lines 76 (cs.length + 1) cs

end SiteRules.Base64
