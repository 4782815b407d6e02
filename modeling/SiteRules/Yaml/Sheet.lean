import SiteRules.Text.Quoted
import SiteRules.Yaml.Style

/-!
# Sheets

What has been written so far, with the column and the two things that decide whether the next mark
needs a blank or a line end in front of it. Lines are broken at blanks past column 80.
-/

namespace SiteRules.Yaml

/-- The characters written so far, in reverse order, and where the next one goes. -/
structure Sheet where
  written : List Char
  column : Nat
  /-- Whether a blank was written last, or nothing on this line. -/
  spaced : Bool
  /-- Whether only indentation and marks of items were written on this line. -/
  indented : Bool

namespace Sheet

/-- The sheet on which nothing is written. -/
def blank : Sheet := ⟨[], 0, true, true⟩

/-- The column past which lines are broken. -/
def width : Nat := 80

/-- Writes characters of a line. -/
def put (s : Sheet) (cs : List Char) : Sheet :=
  { s with written := cs.reverse ++ s.written, column := s.column + cs.length }

/-- Writes code points of a line. -/
def putText (s : Sheet) (t : Text) : Sheet :=
  s.put (t.map CodePoint.toChar)

/-- Writes a mark, after a blank where it needs one; `spaced` and `indented` tell how the mark
counts. -/
def mark (s : Sheet) (cs : List Char) (needsBlank : Bool) (spaced indented : Bool := false) :
    Sheet :=
  { s.put (if s.spaced || !needsBlank then cs else ' ' :: cs) with
    spaced, indented := s.indented && indented }

/-- Ends the line with a character. -/
def breakWith (s : Sheet) (c : Char) : Sheet :=
  ⟨c :: s.written, 0, true, true⟩

/-- Goes to column `indent`, on the same line if nothing but indentation is in front of it. -/
def indentTo (s : Sheet) (indent : Nat) : Sheet :=
  let s :=
    if !s.indented || indent < s.column || (s.column = indent && !s.spaced) then s.breakWith '\n'
    else s
  if s.column < indent then
    { s.put (List.replicate (indent - s.column) ' ') with spaced := true }
  else s

/-- The sheet inside a scalar, where nothing counts as indentation. -/
def inScalar (s : Sheet) : Sheet := { s with spaced := false, indented := false }

/-- The kinds of code points between which a scalar can be broken. -/
inductive Run where
  | blanks
  | breaks
  | words
deriving DecidableEq

/-- The kind of a code point. -/
def Run.of (c : CodePoint) : Run :=
  if c = ' ' then blanks else if Style.isBreak c then breaks else words

/-- A text as runs of code points of one kind. -/
def runs : Text → List (Run × Text)
  | [] => []
  | c :: rest =>
    match runs rest with
    | [] => [(Run.of c, [c])]
    | (kind, run) :: more =>
      if kind = Run.of c then (kind, c :: run) :: more else (Run.of c, [c]) :: (kind, run) :: more

/-- Writes the line ends of a run. -/
def putBreaks (s : Sheet) (run : Text) : Sheet :=
  run.foldl (fun s c => s.breakWith c.toChar) s

/-- Writes a plain scalar; a line is broken at a blank that stands alone. -/
def putPlainRuns (indent : Nat) (split : Bool) : List (Run × Text) → Sheet → Sheet
  | [], s => s
  | (kind, run) :: rest, s =>
    let s :=
      if kind = .blanks && run.length = 1 && width < s.column && split then
        (s.indentTo indent).inScalar
      else s.putText run
    putPlainRuns indent split rest s

/-- Writes a plain scalar. -/
def putPlain (s : Sheet) (indent : Nat) (split : Bool) (t : Text) : Sheet :=
  if t.isEmpty then s
  else putPlainRuns indent split (runs t) (if s.spaced then s else s.put [' ']).inScalar

/-- The code points of a run with every quote doubled. -/
def doubleQuotes (run : Text) : Text :=
  run.flatMap fun (c : CodePoint) => if c = '\'' then [c, c] else [c]

/-- Writes the runs of a scalar between single quotes. A line end is written twice where a reader
would fold it, and a line is broken at a blank that stands alone inside. -/
def putSingleQuotedRuns (indent : Nat) (split : Bool) (first : Bool) :
    List (Run × Text) → Sheet → Sheet
  | [], s => s
  | (kind, run) :: rest, s =>
    let s := match kind with
      | .blanks =>
        if run.length = 1 && width < s.column && split && !first && !rest.isEmpty then
          s.indentTo indent
        else s.putText run
      | .breaks =>
        let s := if run.head? = some (CodePoint.ofChar '\n') then s.breakWith '\n' else s
        (s.putBreaks run).indentTo indent
      | .words => s.putText (doubleQuotes run)
    putSingleQuotedRuns indent split false rest s

/-- Writes a scalar between single quotes. -/
def putSingleQuoted (s : Sheet) (indent : Nat) (split : Bool) (t : Text) : Sheet :=
  (putSingleQuotedRuns indent split true (runs t) (s.mark ['\''] true)).mark ['\''] false

/-- The letters of the escapes that have one. -/
def escapeLetters : List (Nat × Char) :=
  [(0x0, '0'), (0x7, 'a'), (0x8, 'b'), (0x9, 't'), (0xa, 'n'), (0xb, 'v'), (0xc, 'f'), (0xd, 'r'),
    (0x1b, 'e'), (0x22, '"'), (0x5c, '\\'), (0x85, 'N'), (0xa0, '_'), (0x2028, 'L'), (0x2029, 'P')]

/-- Whether a code point is written as an escape between double quotes. -/
def isEscaped (c : CodePoint) : Bool :=
  c = '"' || c = '\\' || c = '\x85' || c = '\u2028' || c = '\u2029' || c.val = 0xfeff
    || !((0x20 ≤ c.val && c.val ≤ 0x7e) || (0xa0 ≤ c.val && c.val ≤ 0xd7ff)
      || (0xe000 ≤ c.val && c.val ≤ 0xfffd))

/-- The capital hexadecimal digits of a number. -/
def capitalHex (width n : Nat) : List Char :=
  (hexDigits width n).toList.map Char.toUpper

/-- The escape of a code point. -/
def escape (c : CodePoint) : List Char :=
  match escapeLetters.lookup c.val with
  | some letter => ['\\', letter]
  | none =>
    if c.val ≤ 0xff then '\\' :: 'x' :: capitalHex 2 c.val
    else if c.val ≤ 0xffff then '\\' :: 'u' :: capitalHex 4 c.val
    else '\\' :: 'U' :: capitalHex 8 c.val

/-- Breaks a line inside double quotes, `next` being what follows; a blank there is escaped. -/
def breakQuoted (s : Sheet) (indent : Nat) (next : Option CodePoint) : Sheet :=
  let s := ((s.put ['\\']).indentTo indent).inScalar
  if next = some (CodePoint.ofChar ' ') then s.put ['\\'] else s

/-- Writes the code points of a scalar between double quotes from the one numbered `place` on.
`held` are those, in reverse order, that wait to be written with the next. -/
def putDoubleQuotedFrom (indent : Nat) (split : Bool) (total place : Nat) (held : Text) :
    Text → Sheet → Sheet
  | [], s => s.putText held.reverse
  | c :: rest, s =>
    let inside := 0 < place && place + 1 < total && split
    if isEscaped c then
      let s := (s.putText held.reverse).put (escape c)
      let s := if inside && width + 1 < s.column then s.breakQuoted indent rest.head? else s
      putDoubleQuotedFrom indent split total (place + 1) [] rest s
    else if inside && (c = ' ' || held.isEmpty) && width < s.column + held.length then
      putDoubleQuotedFrom indent split total (place + 1) [c] rest
        ((s.putText held.reverse).breakQuoted indent (some c))
    else putDoubleQuotedFrom indent split total (place + 1) (c :: held) rest s

/-- Writes a scalar between double quotes. -/
def putDoubleQuoted (s : Sheet) (indent : Nat) (split : Bool) (t : Text) : Sheet :=
  (putDoubleQuotedFrom indent split t.length 0 [] t (s.mark ['"'] true)).mark ['"'] false

/-- What is told about a scalar with lines of its own: its indentation if it begins with a blank,
and how its last line ends if not with one line end. -/
def literalHints (t : Text) : List Char :=
  let indentation := if t.head?.any fun (c : CodePoint) => c = ' ' || Style.isBreak c then ['2'] else []
  let ending := match t.reverse with
    | [] => []
    | c :: rest =>
      if !Style.isBreak c then ['-']
      else if rest.isEmpty || rest.head?.any Style.isBreak then ['+'] else []
  indentation ++ ending

/-- Writes the runs of a scalar with lines of its own. -/
def putLiteralRuns (indent : Nat) : List (Run × Text) → Sheet → Sheet
  | [], s => s
  | (kind, run) :: rest, s =>
    let s := match kind with
      | .breaks => s.putBreaks run
      | _ => (if s.column = 0 then s.indentTo indent else s).putText run
    putLiteralRuns indent rest s

/-- Writes a scalar with lines of its own. -/
def putLiteral (s : Sheet) (indent : Nat) (t : Text) : Sheet :=
  let s := (s.mark ('|' :: literalHints t) true).breakWith '\n'
  let s := putLiteralRuns indent (runs t) s
  if t.getLast?.any Style.isBreak then s else s.breakWith '\n'

end Sheet

end SiteRules.Yaml
