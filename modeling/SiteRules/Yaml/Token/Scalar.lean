import SiteRules.Yaml.Token.Directive

/-!
# Scalars

The readers of scalars in their five styles: between single quotes, between double quotes, plain,
literal and folded. Line ends inside a quoted or plain scalar fold: one becomes a blank, and of
several the first is dropped.
-/

namespace SiteRules.Yaml

/-- The characters of escapes other than those by number, in double quotes. -/
def escapes : List (Char × Char) :=
  [('0', '\x00'), ('a', '\x07'), ('b', '\x08'), ('t', '\t'), ('\t', '\t'), ('n', '\n'),
    ('v', '\x0b'), ('f', '\x0c'), ('r', '\r'), ('e', '\x1b'), (' ', ' '), ('"', '"'),
    ('\\', '\\'), ('/', '/'), ('N', '\x85'), ('_', '\xa0'), ('L', '\u2028'), ('P', '\u2029')]

/-- The number of digits of each kind of escape by number. -/
def numericEscapes : List (Char × Nat) :=
  [('x', 2), ('u', 4), ('U', 8)]

/-- The number that hexadecimal digits spell. -/
def hexNumber? (digits : List Char) : Option Nat :=
  digits.foldlM (fun n d => (hexValue? d).map (16 * n + ·)) 0

/-- The code point of an escape by number. -/
def codePointOf (n : Nat) : Except Fault CodePoint :=
  if h : n < 0x110000 then .ok ⟨n, h⟩
  else if n < 0x80000000 then .error .codePointRange
  else .error .codePointOverflow

/-- Reads the line ends, with blanks around them, inside a quoted scalar. -/
def scanQuotedBreaks : Nat → Cursor → Except Fault (List Char × Cursor)
  | 0, c => .ok ([], c)
  | fuel + 1, c =>
    if c.atDocumentMark then .error .malformed
    else
      let c := c.skip isSpace
      match c.lineBreak? with
      | none => .ok ([], c)
      | some (b, c) => do
        let (breaks, c) ← scanQuotedBreaks fuel c
        return (b :: breaks, c)

/-- Reads an escape behind its backslash. -/
def scanEscape (c : Cursor) : Except Fault (Text × Cursor) :=
  match c.peek 0 with
  | none => .error .malformed
  | some d =>
    match escapes.lookup d, numericEscapes.lookup d with
    | some e, _ => .ok ([CodePoint.ofChar e], c.step)
    | none, some width =>
      let digits := c.step.rest.take width
      if digits.length < width then .error .malformed
      else match hexNumber? digits with
        | none => .error .malformed
        | some n => do
          let p ← codePointOf n
          return ([p], c.step.advance width)
    | none, none =>
      if isBreak d then do
        let c := c.skipLineBreak
        let (breaks, c) ← scanQuotedBreaks (c.rest.length + 1) c
        return (Text.ofChars breaks, c)
      else .error .malformed

/-- The line ends of a fold as they stand in the scalar: the first is dropped when others follow
it, stands for a blank when none does, and stays when it is no ordinary one. -/
def folded (first : Char) (others : List Char) : Text :=
  Text.ofChars ((if first ≠ '\n' then [first] else if others.isEmpty then [' '] else []) ++ others)

/-- Reads a quoted scalar up to its closing quote. -/
def scanQuotedFrom (double : Bool) : Nat → Cursor → Except Fault (Text × Cursor)
  | 0, _ => .error .malformed
  | fuel + 1, c =>
    match c.rest with
    | [] => .error .malformed
    | d :: _ =>
      if !double && d = '\'' && c.peek 1 = some '\'' then do
        let (t, c) ← scanQuotedFrom double fuel (c.advance 2)
        return (CodePoint.ofChar '\'' :: t, c)
      else if d = (if double then '"' else '\'') then .ok ([], c.step)
      else if double && d = '\\' then do
        let (part, c) ← scanEscape c.step
        let (t, c) ← scanQuotedFrom double fuel c
        return (part ++ t, c)
      else if isSpace d || isBreak d then do
        let (blanks, c) := c.span isSpace
        match c.lineBreak? with
        | some (b, c) =>
          let (breaks, c) ← scanQuotedBreaks (c.rest.length + 1) c
          let (t, c) ← scanQuotedFrom double fuel c
          return (folded b breaks ++ t, c)
        | none =>
          if c.rest.isEmpty then throw .malformed
          let (t, c) ← scanQuotedFrom double fuel c
          return (Text.ofChars blanks ++ t, c)
      else do
        let (t, c) ← scanQuotedFrom double fuel c.step
        return (CodePoint.ofChar d :: t, c)

/-- Reads a quoted scalar; the cursor is at its opening quote. -/
def scanQuoted (double : Bool) (c : Cursor) : Except Fault (Text × Cursor) :=
  scanQuotedFrom double (c.rest.length + 1) c.step

/-- Whether a plain scalar stops at the character here, which another one follows. -/
def endsPlain (inFlow : Bool) (d : Char) (next : Option Char) : Bool :=
  isSpace d || isBreak d
    || (d = ':' && (endsToken next || (inFlow && ",[]\x7b\x7d".toList.any (some · = next))))
    || (inFlow && ",?[]\x7b\x7d".toList.contains d)

/-- The run of characters in front of which a plain scalar does not stop. -/
def plainRun (inFlow : Bool) : List Char → List Char
  | [] => []
  | d :: rest => if endsPlain inFlow d rest.head? then [] else d :: plainRun inFlow rest

/-- The line ends and blanks between two runs of a plain scalar; `none` at a mark between
documents. -/
def plainBreaks : Nat → Cursor → Option (List Char) × Cursor
  | 0, c => (some [], c)
  | fuel + 1, c =>
    match c.peek 0 with
    | some ' ' => plainBreaks fuel c.step
    | _ =>
      match c.lineBreak? with
      | none => (some [], c)
      | some (b, c) =>
        if c.atDocumentMark then (none, c)
        else
          let (breaks, c) := plainBreaks fuel c
          (breaks.map (b :: ·), c)

/-- What stands between two runs of a plain scalar, and whether a line ended there; the text is
empty where the scalar ends. -/
def scanPlainSpaces (c : Cursor) : Text × Bool × Cursor :=
  let (blanks, c) := c.span (· = ' ')
  match c.lineBreak? with
  | none => (Text.ofChars blanks, false, c)
  | some (b, c) =>
    if c.atDocumentMark then ([], true, c)
    else
      let (breaks, c) := plainBreaks (c.rest.length + 1) c
      match breaks with
      | none => ([], true, c)
      | some breaks => (folded b breaks, true, c)

/-- Reads a plain scalar whose lines are indented by at least `indent`. The last part of the answer
tells whether a line ended behind the last run, so that a key may follow. -/
def scanPlainFrom (inFlow : Bool) (indent : Int) : Nat → Cursor → Text × Bool × Cursor
  | 0, c => ([], false, c)
  | fuel + 1, c =>
    let run := plainRun inFlow c.rest
    let part := Text.ofChars run
    let (spaces, ended, c) := scanPlainSpaces (c.advance run.length)
    if spaces.isEmpty || c.peek 0 = some '#' || (!inFlow && (c.column : Int) < indent) then
      (part, ended, c)
    else if (plainRun inFlow c.rest).isEmpty then (part, ended, c)
    else
      let (t, ended, c) := scanPlainFrom inFlow indent fuel c
      (part ++ spaces ++ t, ended, c)

/-- Reads a plain scalar. -/
def scanPlain (inFlow : Bool) (indent : Int) (c : Cursor) : Text × Bool × Cursor :=
  scanPlainFrom inFlow indent (c.rest.length + 1) c

/-- What a block scalar keeps of the line ends behind its last line. -/
inductive Chomping where
  | one
  | none
  | all
deriving DecidableEq, Repr

/-- The chomping that a sign asks for. -/
def Chomping.ofSign? : Option Char → Option Chomping
  | some '+' => some .all
  | some '-' => some .none
  | _ => Option.none

/-- The indentation that a digit asks for. -/
def indentation? : Option Char → Option Nat
  | some d => if d.isDigit then some (d.toNat - 48) else none
  | none => none

/-- Reads the sign and the digit behind the mark of a block scalar, in either order. -/
def scanBlockHeader (c : Cursor) : Except Fault (Chomping × Option Nat × Cursor) := do
  let (chomping, indent, c) :=
    match Chomping.ofSign? (c.peek 0) with
    | some chomping =>
      match indentation? (c.peek 1) with
      | some n => (chomping, some n, c.advance 2)
      | none => (chomping, none, c.step)
    | none =>
      match indentation? (c.peek 0) with
      | some n =>
        match Chomping.ofSign? (c.peek 1) with
        | some chomping => (chomping, some n, c.advance 2)
        | none => (.one, some n, c.step)
      | none => (.one, none, c)
  if indent = some 0 || !endsWord (c.peek 0) then throw .malformed
  return (chomping, indent, c)

/-- The line ends in front of the first line of a block scalar, and the greatest indentation met. -/
def scanBlockIndentation : Nat → Nat → Cursor → List Char × Nat × Cursor
  | 0, greatest, c => ([], greatest, c)
  | fuel + 1, greatest, c =>
    match c.peek 0 with
    | some ' ' => scanBlockIndentation fuel (max greatest c.step.column) c.step
    | _ =>
      match c.lineBreak? with
      | none => ([], greatest, c)
      | some (b, c) =>
        let (breaks, greatest, c) := scanBlockIndentation fuel greatest c
        (b :: breaks, greatest, c)

/-- The place behind the blanks in front of column `indent`. -/
def skipIndent (indent : Nat) : Nat → Cursor → Cursor
  | 0, c => c
  | fuel + 1, c =>
    if c.column < indent && c.peek 0 = some ' ' then skipIndent indent fuel c.step else c

/-- The line ends of empty lines in a block scalar. -/
def scanBlockBreaks (indent : Nat) : Nat → Cursor → List Char × Cursor
  | 0, c => ([], c)
  | fuel + 1, c =>
    let c := skipIndent indent indent c
    match c.lineBreak? with
    | none => ([], c)
    | some (b, c) =>
      let (breaks, c) := scanBlockBreaks indent fuel c
      (b :: breaks, c)

/-- The lines of a block scalar: its text without the line ends at the end, the line end of its
last line, and those of the empty lines behind. -/
structure BlockLines where
  content : List Char
  last : List Char
  breaks : List Char
  cursor : Cursor

/-- Reads the lines of a block scalar, `breaks` being the line ends in front of the next one. In a
folded scalar one line end between two lines that do not begin with a blank becomes a blank. -/
def scanBlockLines (fold : Bool) (indent : Nat) (breaks last : List Char) :
    Nat → Cursor → BlockLines
  | 0, c => ⟨[], last, breaks, c⟩
  | fuel + 1, c =>
    if c.column = indent && !c.rest.isEmpty then
      let opensPlain := !(c.peek 0).any isSpace
      let (line, c) := c.span fun d => !isBreak d
      let (last, c) := match c.lineBreak? with
        | some (b, c) => ([b], c)
        | none => ([], c)
      let front := breaks ++ line
      let (breaks, c) := scanBlockBreaks indent (c.rest.length + 1) c
      if c.column = indent && !c.rest.isEmpty then
        let joint :=
          if fold && last = ['\n'] && opensPlain && !(c.peek 0).any isSpace then
            if breaks.isEmpty then [' '] else []
          else last
        let lines := scanBlockLines fold indent breaks last fuel c
        { lines with content := front ++ joint ++ lines.content }
      else ⟨front, last, breaks, c⟩
    else ⟨[], last, breaks, c⟩

/-- Reads a block scalar inside a block indented by `outer`; the cursor is at its mark. -/
def scanBlock (fold : Bool) (outer : Int) (c : Cursor) : Except Fault (Text × Cursor) := do
  let (chomping, increment, c) ← scanBlockHeader c.step
  let c ← scanLineRest c
  let least := max 1 (outer + 1).toNat
  let fuel := c.rest.length + 1
  let (breaks, indent, c) := match increment with
    | none =>
      let (breaks, greatest, c) := scanBlockIndentation fuel 0 c
      (breaks, max least greatest, c)
    | some n =>
      let indent := least + n - 1
      let (breaks, c) := scanBlockBreaks indent fuel c
      (breaks, indent, c)
  let lines := scanBlockLines fold indent breaks [] fuel c
  let tail := match chomping with
    | .none => []
    | .one => lines.last
    | .all => lines.last ++ lines.breaks
  return (Text.ofChars (lines.content ++ tail), lines.cursor)

end SiteRules.Yaml
