import SiteRules.Text.CodePoint

/-!
# Internet addresses

The texts that spell an address of version 4 (four numbers) or of version 6 (eight groups of
hexadecimal digits, of which one run of zero groups may be left out, with an optional zone).
-/

namespace SiteRules.Address

/-- The value of a run of basic Latin digits. -/
def decimalValue (t : Text) : Nat :=
  t.foldl (fun n c => 10 * n + (c.val - 0x30)) 0

/-- Whether a text spells one of the four numbers of a version 4 address: one to three digits, no
leading zero, at most 255. -/
def isOctet (t : Text) : Bool :=
  1 ≤ t.length && t.length ≤ 3 && t.all CodePoint.isBasicDigit
    && (t.length = 1 || t.head? ≠ some (CodePoint.ofChar '0')) && decimalValue t ≤ 255

/-- Whether a text spells a version 4 address. -/
def isVersion4 (t : Text) : Bool :=
  let parts := t.splitAt '.'
  parts.length = 4 && parts.all isOctet

/-- Whether a text spells a group of a version 6 address. -/
def isGroup (t : Text) : Bool :=
  1 ≤ t.length && t.length ≤ 4 && t.all CodePoint.isHexDigit

/-- Whether the parts between colons spell a version 6 address. An empty part between two others
stands for the groups left out; an empty part at an end is only allowed beside it. -/
def areGroups (parts : List Text) : Bool :=
  if parts.length > 9 then false
  else
    let inner := (parts.drop 1).dropLast
    match inner.countP List.isEmpty with
    | 0 => parts.length = 8 && parts.all isGroup
    | 1 =>
      let front := parts.take (1 + (inner.takeWhile fun p => !p.isEmpty).length)
      let back := parts.drop (front.length + 1)
      let front := if front = [[]] then [] else front
      let back := if back = [[]] then [] else back
      front.all isGroup && back.all isGroup && front.length + back.length < 8
    | _ => false

/-- Whether a text without zone spells a version 6 address; its last two groups may be spelled as
a version 4 address. -/
def isVersion6Unscoped (t : Text) : Bool :=
  let parts := t.splitAt ':'
  match parts.getLast? with
  | none => false
  | some last =>
    if parts.length < 3 then false
    else if last.any (· = '.') then
      isVersion4 last && areGroups (parts.dropLast ++ [Text.ofChars ['0'], Text.ofChars ['0']])
    else areGroups parts

/-- Whether a text spells a version 6 address, a zone after `%` being allowed. -/
def isVersion6 (t : Text) : Bool :=
  if t.any (· = '/') then false
  else match t.cut? '%' with
    | none => isVersion6Unscoped t
    | some (address, zone) => !zone.isEmpty && !zone.any (· = '%') && isVersion6Unscoped address

end SiteRules.Address
