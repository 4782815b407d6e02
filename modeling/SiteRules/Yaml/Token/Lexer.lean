import SiteRules.Yaml.Token.Scalar

/-!
# Tokens of a text

`Token.scan` cuts a text into tokens. A key needs no mark of its own: whether a token was the
beginning of a key shows only at the colon behind it, within its line and within 1024 characters.
The lexer remembers where such a key may have begun and puts the tokens for it there.
-/

namespace SiteRules.Yaml

/-- A place where a key may have begun. -/
structure KeyCandidate where
  /-- The number of the token that follows. -/
  number : Nat
  /-- Whether the token cannot be anything but a key. -/
  required : Bool
  index : Nat
  line : Nat
  column : Nat

/-- The state of the lexer: the tokens found so far, in reverse order, and how deep the cursor is
nested in flow collections and in blocks. -/
structure Lexer where
  cursor : Cursor
  found : List Token
  count : Nat
  flowLevel : Nat
  indent : Int
  indents : List Int
  keyAllowed : Bool
  /-- The candidates by flow level, the innermost first. -/
  candidates : List (Nat × KeyCandidate)
  done : Bool

namespace Lexer

/-- The state in front of a text. -/
def start (cs : List Char) : Lexer :=
  ⟨Cursor.start cs, [], 0, 0, -1, [], true, [], false⟩

/-- Adds a token. -/
def push (s : Lexer) (t : Token) : Lexer :=
  { s with found := t :: s.found, count := s.count + 1 }

/-- Adds a token in front of the one numbered `number`. -/
def insertAt (s : Lexer) (number : Nat) (t : Token) : Lexer :=
  let behind := s.count - number
  { s with
    found := s.found.take behind ++ t :: s.found.drop behind
    count := s.count + 1 }

/-- Whether the cursor is inside a flow collection. -/
def inFlow (s : Lexer) : Bool := s.flowLevel ≠ 0

/-- Whether a candidate is too far back to be the key of a colon here. -/
def isStale (s : Lexer) (k : KeyCandidate) : Bool :=
  k.line ≠ s.cursor.line || 1024 < s.cursor.index - k.index

/-- Drops the candidates that are too far back; one that had to be a key is a fault. -/
def dropStale (s : Lexer) : Except Fault Lexer :=
  if s.candidates.any fun entry => s.isStale entry.2 && entry.2.required then .error .malformed
  else .ok { s with candidates := s.candidates.filter fun entry => !s.isStale entry.2 }

/-- Drops the candidate of this flow level; one that had to be a key is a fault. -/
def dropCandidate (s : Lexer) : Except Fault Lexer :=
  match s.candidates.lookup s.flowLevel with
  | none => .ok s
  | some k =>
    if k.required then .error .malformed
    else .ok { s with candidates := s.candidates.filter fun entry => entry.1 ≠ s.flowLevel }

/-- Remembers that the next token may begin a key. -/
def saveCandidate (s : Lexer) : Except Fault Lexer :=
  if s.keyAllowed then do
    let required := !s.inFlow && s.indent = s.cursor.column
    let s ← s.dropCandidate
    let k : KeyCandidate := ⟨s.count, required, s.cursor.index, s.cursor.line, s.cursor.column⟩
    return { s with candidates := (s.flowLevel, k) :: s.candidates }
  else .ok s

/-- Closes the blocks that are indented further than a column. -/
def unwindFrom (column : Int) : List Int → Lexer → Lexer
  | [], s => s
  | outer :: rest, s =>
    if column < s.indent then
      unwindFrom column rest { s.push .blockEnd with indent := outer, indents := rest }
    else s

/-- Closes the blocks that are indented further than a column, outside of flow collections. -/
def unwind (s : Lexer) (column : Int) : Lexer :=
  if s.inFlow then s else unwindFrom column s.indents s

/-- Whether a block that begins at a column is nested deeper than the one around it. -/
def isDeeper (s : Lexer) (column : Nat) : Bool := s.indent < column

/-- Opens a block at a column. -/
def indentTo (s : Lexer) (column : Nat) : Lexer :=
  { s with indents := s.indent :: s.indents, indent := column }

/-- Adds a token and goes past the characters that spell it. -/
def take (s : Lexer) (width : Nat) (t : Token) : Lexer :=
  { s.push t with cursor := s.cursor.advance width }

/-- Goes on to the next token. A line end outside of flow collections allows a key to follow. -/
def skipToToken : Nat → Lexer → Lexer
  | 0, s => s
  | fuel + 1, s =>
    let c := (s.cursor.skip (· = ' ')).skipComment
    match c.lineBreak? with
    | none => { s with cursor := c }
    | some (_, c) =>
      skipToToken fuel { s with cursor := c, keyAllowed := s.keyAllowed || !s.inFlow }

/-- Ends the text. -/
def fetchEnd (s : Lexer) : Except Fault Lexer := do
  let s ← (s.unwind (-1)).dropCandidate
  return { s.push .streamEnd with done := true, keyAllowed := false, candidates := [] }

/-- Reads a directive. -/
def fetchDirective (s : Lexer) : Except Fault Lexer := do
  let s ← (s.unwind (-1)).dropCandidate
  let (directive, c) ← scanDirective s.cursor
  return { s.push (.directive directive) with cursor := c, keyAllowed := false }

/-- Reads a mark between documents. -/
def fetchDocumentMark (t : Token) (s : Lexer) : Except Fault Lexer := do
  let s ← (s.unwind (-1)).dropCandidate
  return { s.take 3 t with keyAllowed := false }

/-- Opens a flow collection. -/
def fetchFlowStart (t : Token) (s : Lexer) : Except Fault Lexer := do
  let s ← s.saveCandidate
  return { s.take 1 t with flowLevel := s.flowLevel + 1, keyAllowed := true }

/-- Closes a flow collection. -/
def fetchFlowEnd (t : Token) (s : Lexer) : Except Fault Lexer := do
  let s ← s.dropCandidate
  return { s.take 1 t with flowLevel := s.flowLevel - 1, keyAllowed := false }

/-- Reads a comma. -/
def fetchFlowEntry (s : Lexer) : Except Fault Lexer := do
  let s ← s.dropCandidate
  return { s.take 1 .flowEntry with keyAllowed := true }

/-- Opens a block at the cursor with the token `t`, where one begins here. -/
def openBlock (t : Token) (s : Lexer) : Except Fault Lexer :=
  if s.inFlow then .ok s
  else if !s.keyAllowed then .error .malformed
  else if s.isDeeper s.cursor.column then .ok ((s.indentTo s.cursor.column).push t)
  else .ok s

/-- Reads the mark of an item. -/
def fetchBlockEntry (s : Lexer) : Except Fault Lexer := do
  let s ← s.openBlock .blockSequenceStart
  let s ← s.dropCandidate
  return { s.take 1 .blockEntry with keyAllowed := true }

/-- Reads the mark of a key. -/
def fetchKey (s : Lexer) : Except Fault Lexer := do
  let s ← s.openBlock .blockMappingStart
  let s ← s.dropCandidate
  return { s.take 1 .key with keyAllowed := !s.inFlow }

/-- Reads a colon. If a key may have begun before it, the tokens for the key are put there. -/
def fetchValue (s : Lexer) : Except Fault Lexer :=
  match s.candidates.lookup s.flowLevel with
  | some k =>
    let s := { s with candidates := s.candidates.filter fun entry => entry.1 ≠ s.flowLevel }
    let s := s.insertAt k.number .key
    let s :=
      if !s.inFlow && s.isDeeper k.column then
        (s.indentTo k.column).insertAt k.number .blockMappingStart
      else s
    .ok { s.take 1 .value with keyAllowed := false }
  | none => do
    let s ← s.openBlock .blockMappingStart
    let s ← s.dropCandidate
    return { s.take 1 .value with keyAllowed := !s.inFlow }

/-- Reads a token that may begin a key. -/
def fetchNode (scan : Cursor → Except Fault (Token × Cursor)) (s : Lexer) : Except Fault Lexer := do
  let s ← s.saveCandidate
  let (t, c) ← scan s.cursor
  return { s.push t with cursor := c, keyAllowed := false }

/-- Reads a block scalar. -/
def fetchBlockScalar (fold : Bool) (s : Lexer) : Except Fault Lexer := do
  let s ← s.dropCandidate
  let (t, c) ← scanBlock fold s.indent s.cursor
  return { s.push (.scalar false t) with cursor := c, keyAllowed := true }

/-- Reads a plain scalar. -/
def fetchPlain (s : Lexer) : Except Fault Lexer := do
  let s ← s.saveCandidate
  let (t, ended, c) := scanPlain s.inFlow (s.indent + 1) s.cursor
  return { s.push (.scalar true t) with cursor := c, keyAllowed := ended }

/-- The marks that cannot begin a plain scalar. -/
def marks : List Char := "-?:,[]\x7b\x7d#&*!|>'\"%@\x60".toList

/-- Whether a plain scalar begins with the character `d`, which `next` follows. -/
def beginsPlain (s : Lexer) (d : Char) (next : Option Char) : Bool :=
  !(isSpace d || isBreak d || marks.contains d)
    || (!endsToken next && (d = '-' || (!s.inFlow && (d = '?' || d = ':'))))

/-- Reads a token that begins with the character `d`. -/
def fetchAt (s : Lexer) (d : Char) : Except Fault Lexer :=
  let next := s.cursor.peek 1
  let opensLine := s.cursor.column = 0
  if d = '%' && opensLine then s.fetchDirective
  else if d = '-' && opensLine && s.cursor.atDocumentMark then s.fetchDocumentMark .documentStart
  else if d = '.' && opensLine && s.cursor.atDocumentMark then s.fetchDocumentMark .documentEnd
  else if d = '[' then s.fetchFlowStart .flowSequenceStart
  else if d = '\x7b' then s.fetchFlowStart .flowMappingStart
  else if d = ']' then s.fetchFlowEnd .flowSequenceEnd
  else if d = '\x7d' then s.fetchFlowEnd .flowMappingEnd
  else if d = ',' then s.fetchFlowEntry
  else if d = '-' && endsToken next then s.fetchBlockEntry
  else if d = '?' && (s.inFlow || endsToken next) then s.fetchKey
  else if d = ':' && (s.inFlow || endsToken next) then s.fetchValue
  else if d = '*' then
    s.fetchNode fun c => (scanAnchor c).map fun (name, c) => (.alias name, c)
  else if d = '&' then
    s.fetchNode fun c => (scanAnchor c).map fun (name, c) => (.anchor name, c)
  else if d = '!' then s.fetchNode fun c => (scanTag c).map fun (t, c) => (.tag t, c)
  else if d = '|' && !s.inFlow then s.fetchBlockScalar false
  else if d = '>' && !s.inFlow then s.fetchBlockScalar true
  else if d = '\'' then
    s.fetchNode fun c => (scanQuoted false c).map fun (t, c) => (.scalar false t, c)
  else if d = '"' then
    s.fetchNode fun c => (scanQuoted true c).map fun (t, c) => (.scalar false t, c)
  else if s.beginsPlain d next then s.fetchPlain
  else .error .malformed

/-- Reads the next token. -/
def fetch (s : Lexer) : Except Fault Lexer := do
  let s := skipToToken (s.cursor.rest.length + 1) s
  let s ← s.dropStale
  let s := s.unwind s.cursor.column
  match s.cursor.peek 0 with
  | none => s.fetchEnd
  | some d => s.fetchAt d

/-- The number of tokens that nothing can be put in front of any more: those before the first place
where a key may have begun. -/
def settledCount (s : Lexer) : Nat :=
  let open_ := s.candidates.filter fun entry => !s.isStale entry.2
  open_.foldl (fun least entry => min least entry.2.number) s.count

/-- Reads tokens up to the end of the text or to a fault, which is kept beside those that are
settled. -/
def run : Nat → Lexer → List Token × Option Fault
  | 0, s => (s.found.reverse, some .malformed)
  | fuel + 1, s =>
    if s.done then (s.found.reverse, none)
    else match s.fetch with
      | .error fault => (s.found.reverse.take s.settledCount, some fault)
      | .ok s => run fuel s

end Lexer

/-- The tokens of a text up to the first fault, and the fault. A byte order mark in front of the
text does not count. -/
def Token.scan (cs : List Char) : List Token × Option Fault :=
  let s := Lexer.start cs
  let s := match cs with
    | '\uFEFF' :: _ => { s with cursor := s.cursor.step }
    | _ => s
  s.run (cs.length + 2)

end SiteRules.Yaml
