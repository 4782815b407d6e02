import SiteRules.Yaml.Character

/-!
# Cursors

A place in a text: the characters from there on, their position, and the line and column, which
decide how a text is nested.
-/

namespace SiteRules.Yaml

/-- A place in a text. -/
structure Cursor where
  rest : List Char
  index : Nat
  line : Nat
  column : Nat
deriving Repr

namespace Cursor

/-- The beginning of a text. -/
def start (cs : List Char) : Cursor := ⟨cs, 0, 0, 0⟩

/-- The character `k` places further on. -/
def peek (c : Cursor) (k : Nat) : Option Char := c.rest[k]?

/-- The place behind the next character. A byte order mark takes up no column, and a carriage
return in front of a line feed does not end the line. -/
def step (c : Cursor) : Cursor :=
  match c.rest with
  | [] => c
  | d :: rest =>
    if d = '\n' || d = '\x85' || d = '\u2028' || d = '\u2029'
      || (d = '\r' && rest.head? ≠ some '\n') then ⟨rest, c.index + 1, c.line + 1, 0⟩
    else if d = '\uFEFF' then ⟨rest, c.index + 1, c.line, c.column⟩
    else ⟨rest, c.index + 1, c.line, c.column + 1⟩

/-- The place `n` characters further on. -/
def advance : Nat → Cursor → Cursor
  | 0, c => c
  | n + 1, c => advance n c.step

/-- The characters up to the first that does not satisfy `p`, and the place in front of it. -/
def span (c : Cursor) (p : Char → Bool) : List Char × Cursor :=
  let taken := c.rest.takeWhile p
  (taken, c.advance taken.length)

/-- The place behind the characters that satisfy `p`. -/
def skip (c : Cursor) (p : Char → Bool) : Cursor :=
  (c.span p).2

/-- The line end here, if there is one, as the character that stands for it in a scalar. -/
def lineBreak? (c : Cursor) : Option (Char × Cursor) :=
  match c.rest with
  | '\r' :: '\n' :: _ => some ('\n', c.advance 2)
  | d :: _ =>
    if d = '\r' || d = '\n' || d = '\x85' then some ('\n', c.step)
    else if d = '\u2028' || d = '\u2029' then some (d, c.step)
    else none
  | [] => none

/-- The place behind the line end here, if there is one. -/
def skipLineBreak (c : Cursor) : Cursor :=
  (c.lineBreak?.map Prod.snd).getD c

/-- The place at the end of a comment, if one begins here. -/
def skipComment (c : Cursor) : Cursor :=
  if c.peek 0 = some '#' then c.skip fun d => !isBreak d else c

/-- Whether one of the marks between documents is here, wherever on the line. -/
def atDocumentMark (c : Cursor) : Bool :=
  match c.rest with
  | '-' :: '-' :: '-' :: rest => endsToken rest.head?
  | '.' :: '.' :: '.' :: rest => endsToken rest.head?
  | _ => false

end Cursor

end SiteRules.Yaml
