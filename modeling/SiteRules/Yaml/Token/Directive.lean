import SiteRules.Number.Literal
import SiteRules.Text.Utf8
import SiteRules.Yaml.Cursor
import SiteRules.Yaml.Fault
import SiteRules.Yaml.Token

/-!
# Directives, anchors and tags

The readers of the tokens that are made of names.
-/

namespace SiteRules.Yaml

/-- Reads the name of an anchor or an alias; the cursor is at its mark. -/
def scanAnchor (c : Cursor) : Except Fault (List Char × Cursor) :=
  let (name, c) := c.step.span isNamePart
  let ended := match c.peek 0 with
    | none => true
    | some d => isSpace d || isBreak d || "?:,]\x7d%@\x60".toList.contains d
  if name.isEmpty || !ended then .error .malformed else .ok (name, c)

/-- Reads the bytes that a run of escapes spells. -/
def scanEscapes : Nat → Cursor → Except Fault (List UInt8 × Cursor)
  | 0, c => .ok ([], c)
  | fuel + 1, c =>
    match c.rest with
    | '%' :: a :: b :: _ =>
      match hexValue? a, hexValue? b with
      | some x, some y => do
        let (bytes, c) ← scanEscapes fuel (c.advance 3)
        return (UInt8.ofNat (16 * x + y) :: bytes, c)
      | _, _ => .error .malformed
    | '%' :: _ => .error .malformed
    | _ => .ok ([], c)

/-- Reads the characters of a tag in which escapes stand for bytes. -/
def scanUriFrom : Nat → Cursor → Except Fault (List Char × Cursor)
  | 0, c => .ok ([], c)
  | fuel + 1, c =>
    match c.peek 0 with
    | none => .ok ([], c)
    | some d =>
      if d = '%' then do
        let (bytes, c) ← scanEscapes c.rest.length c
        match Utf8.decode bytes with
        | .error _ => throw .malformed
        | .ok part =>
          let (rest, c) ← scanUriFrom fuel c
          return (part ++ rest, c)
      else if isUriPart d then do
        let (rest, c) ← scanUriFrom fuel c.step
        return (d :: rest, c)
      else .ok ([], c)

/-- Reads the suffix of a tag, which is not empty. -/
def scanUri (c : Cursor) : Except Fault (Text × Cursor) := do
  if !(match c.peek 0 with
    | none => false
    | some d => isUriPart d) then throw .malformed
  let (cs, c) ← scanUriFrom (c.rest.length + 1) c
  return (Text.ofChars cs, c)

/-- Reads a handle: `!`, or a name between two of them. -/
def scanHandle (c : Cursor) : Except Fault (Text × Cursor) :=
  if c.peek 0 ≠ some '!' then .error .malformed
  else if c.peek 1 = some ' ' then .ok (Text.ofChars ['!'], c.step)
  else
    let (name, c) := c.step.span isNamePart
    if c.peek 0 = some '!' then .ok (Text.ofChars ('!' :: name ++ ['!']), c.step)
    else .error .malformed

/-- Whether the word from the second character on holds another `!`. -/
def hasHandle (c : Cursor) : Bool :=
  ((c.rest.drop 1).takeWhile fun d => d ≠ ' ' && !isBreak d).contains '!'

/-- Reads a tag. -/
def scanTag (c : Cursor) : Except Fault (SpelledTag × Cursor) := do
  let (tag, c) ←
    if c.peek 1 = some '<' then do
      let (suffix, c) ← scanUri (c.advance 2)
      if c.peek 0 ≠ some '>' then throw .malformed
      pure (⟨none, suffix⟩, c.step)
    else if endsToken (c.peek 1) then
      pure (⟨none, Text.ofChars ['!']⟩, c.step)
    else if hasHandle c then do
      let (handle, c) ← scanHandle c
      let (suffix, c) ← scanUri c
      pure (⟨some handle, suffix⟩, c)
    else do
      let (suffix, c) ← scanUri c.step
      pure (⟨some (Text.ofChars ['!']), suffix⟩, c)
  if endsWord (c.peek 0) then return (tag, c) else throw .malformed

/-- Reads a number of a version. -/
def scanVersionNumber (c : Cursor) : Except Fault (Nat × Cursor) :=
  let (digits, c) := c.span Char.isDigit
  if digits.isEmpty then .error .malformed
  else match Literal.readInt 10 (Text.ofChars digits) with
    | .ok n => .ok (n.toNat, c)
    | .error e => .error (.number e)

/-- Reads what follows the name of a directive. -/
def scanDirectiveValue (name : List Char) (c : Cursor) : Except Fault (Directive × Cursor) := do
  if name = ['Y', 'A', 'M', 'L'] then
    let (major, c) ← scanVersionNumber (c.skip (· = ' '))
    if c.peek 0 ≠ some '.' then throw .malformed
    let (minor, c) ← scanVersionNumber c.step
    if !endsWord (c.peek 0) then throw .malformed
    return (.version major minor, c)
  else if name = ['T', 'A', 'G'] then
    let (handle, c) ← scanHandle (c.skip (· = ' '))
    if c.peek 0 ≠ some ' ' then throw .malformed
    let (expansion, c) ← scanUri (c.skip (· = ' '))
    if !endsWord (c.peek 0) then throw .malformed
    return (.tagHandle handle expansion, c)
  else return (.other, c.skip fun d => !isBreak d)

/-- Reads the rest of a line that may hold a comment only. -/
def scanLineRest (c : Cursor) : Except Fault Cursor :=
  let c := (c.skip (· = ' ')).skipComment
  if endsLine (c.peek 0) then .ok c.skipLineBreak else .error .malformed

/-- Reads a directive with its line. -/
def scanDirective (c : Cursor) : Except Fault (Directive × Cursor) := do
  let (name, c) := c.step.span isNamePart
  if name.isEmpty || !endsWord (c.peek 0) then throw .malformed
  let (directive, c) ← scanDirectiveValue name c
  let c ← scanLineRest c
  return (directive, c)

end SiteRules.Yaml
