import SiteRules.Yaml.Graph
import SiteRules.Yaml.Token.Lexer

/-!
# Graphs from tokens

The reader that takes a sequence of tokens for the one document that it should spell, and gives
its graph.
-/

namespace SiteRules.Yaml

/-- The state of the reader: the tokens to come, the fault behind them if there is one, the nodes
begun so far, and the names and the tag handles of the document. -/
structure Composer where
  tokens : List Token
  fault : Option Fault
  graph : Graph
  anchors : List (List Char × Nat)
  handles : List (Text × Text)

namespace Composer

/-- The next token. -/
def peek (s : Composer) : Except Fault Token :=
  match s.tokens with
  | t :: _ => .ok t
  | [] => .error (s.fault.getD .malformed)

/-- The state behind the next token. -/
def drop (s : Composer) : Composer := { s with tokens := s.tokens.tail }

/-- Adds a node. -/
def add (s : Composer) (node : Node) : Nat × Composer :=
  let (n, graph) := s.graph.push node
  (n, { s with graph })

/-- Adds the node of a part that is left out. -/
def addEmpty (s : Composer) : Nat × Composer := s.add (.scalar .null [])

/-- Fills in a node that was begun. -/
def fill (s : Composer) (n : Nat) (node : Node) : Composer :=
  { s with graph := s.graph.set n node }

/-- Gives a node its name, if it has one. -/
def define (s : Composer) (name : Option (List Char)) (n : Nat) : Composer :=
  match name with
  | some name => { s with anchors := (name, n) :: s.anchors }
  | none => s

/-- The handles that every document knows. -/
def defaultHandles : List (Text × Text) :=
  [(Text.ofString "!", Text.ofString "!"), (Text.ofString "!!", Tag.family)]

/-- The name and the tag in front of a node, in either order. -/
def properties (s : Composer) :
    Except Fault (Option (List Char) × Option SpelledTag × Composer) := do
  match ← s.peek with
  | .anchor name =>
    let s := s.drop
    match ← s.peek with
    | .tag t => return (some name, some t, s.drop)
    | _ => return (some name, none, s)
  | .tag t =>
    let s := s.drop
    match ← s.peek with
    | .anchor name => return (some name, some t, s.drop)
    | _ => return (none, some t, s)
  | _ => return (none, none, s)

/-- The full name of a tag; the handle has to be known. -/
def expand (s : Composer) (t : SpelledTag) : Except Fault Text :=
  match t.handle with
  | none => .ok t.suffix
  | some handle => match s.handles.lookup handle with
    | some expansion => .ok (expansion ++ t.suffix)
    | none => .error .malformed

/-- The kind that a tag names, unless it leaves the kind open. -/
def specificTag (uri : Option Text) : Option Tag :=
  match uri with
  | none => none
  | some uri => if uri = Text.ofString "!" then none else some (Tag.ofUri uri)

/-- The node of a name or a tag that nothing follows. -/
def emptyNode (name : Option (List Char)) (uri : Option Text) (tag : Option Tag) (n : Nat)
    (s : Composer) : Except Fault (Nat × Composer) :=
  if name.isNone && uri.isNone then .error .malformed
  else .ok (n, s.fill n (.scalar (tag.getD .null) []))

mutual

/-- Reads a node. Blocks are read where `block` allows them, and items without a block of their own
where `indentless` does. -/
def node (block indentless : Bool) : Nat → Composer → Except Fault (Nat × Composer)
  | 0, _ => .error .malformed
  | fuel + 1, s => do
    match ← s.peek with
    | .alias name =>
      match s.anchors.lookup name with
      | some n => return (n, s.drop)
      | none => throw .malformed
    | _ =>
      let (name, spelled, s) ← s.properties
      let uri ← match spelled with
        | some t => (s.expand t).map some
        | none => pure none
      let tag := specificTag uri
      let t ← s.peek
      if name.any fun name => (s.anchors.lookup name).isSome then throw .malformed
      let sequenceTag := tag.getD .seq
      let mappingTag := tag.getD .map
      let isItem := indentless && t = .blockEntry
      let (n, begun) := s.add (.scalar .null [])
      let begun := begun.define name n
      let sequenceOf (items : Except Fault (List Nat × Composer)) : Except Fault (Nat × Composer) :=
        items.map fun (items, s) => (n, s.fill n (.sequence sequenceTag items))
      let mappingOf (entries : Except Fault (List (Nat × Nat) × Composer)) :
          Except Fault (Nat × Composer) :=
        entries.map fun (entries, s) => (n, s.fill n (.mapping mappingTag entries))
      if isItem then sequenceOf (indentlessItems fuel begun)
      else match t with
        | .scalar plain content =>
          let scalarTag := match uri, tag with
            | none, _ => if plain then Tag.ofPlain content else .str
            | some _, none => Tag.ofPlain content
            | some _, some tag => tag
          return (n, begun.drop.fill n (.scalar scalarTag content))
        | .flowSequenceStart => sequenceOf (flowItems true fuel begun.drop)
        | .flowMappingStart => mappingOf (flowEntries true fuel begun.drop)
        | .blockSequenceStart =>
          if block then sequenceOf (blockItems fuel begun.drop)
          else emptyNode name uri tag n begun
        | .blockMappingStart =>
          if block then mappingOf (blockEntries fuel begun.drop)
          else emptyNode name uri tag n begun
        | _ => emptyNode name uri tag n begun

/-- Reads a node, or the empty one if one of the given tokens comes first. -/
def nodeUnless (stops : List Token) (block indentless : Bool) :
    Nat → Composer → Except Fault (Nat × Composer)
  | 0, _ => .error .malformed
  | fuel + 1, s => do
    let t ← s.peek
    if stops.contains t then return s.addEmpty else node block indentless fuel s

/-- Reads the items of a block. -/
def blockItems : Nat → Composer → Except Fault (List Nat × Composer)
  | 0, _ => .error .malformed
  | fuel + 1, s => do
    match ← s.peek with
    | .blockEntry =>
      let (n, s) ← nodeUnless [.blockEntry, .blockEnd] true false fuel s.drop
      let (items, s) ← blockItems fuel s
      return (n :: items, s)
    | .blockEnd => return ([], s.drop)
    | _ => throw .malformed

/-- Reads items that have no block of their own. -/
def indentlessItems : Nat → Composer → Except Fault (List Nat × Composer)
  | 0, _ => .error .malformed
  | fuel + 1, s => do
    match ← s.peek with
    | .blockEntry =>
      let (n, s) ← nodeUnless [.blockEntry, .key, .value, .blockEnd] true false fuel s.drop
      let (items, s) ← indentlessItems fuel s
      return (n :: items, s)
    | _ => return ([], s)

/-- Reads the entries of a block. -/
def blockEntries : Nat → Composer → Except Fault (List (Nat × Nat) × Composer)
  | 0, _ => .error .malformed
  | fuel + 1, s => do
    match ← s.peek with
    | .key =>
      let (key, s) ← nodeUnless [.key, .value, .blockEnd] true true fuel s.drop
      let (value, s) ← blockValue fuel s
      let (entries, s) ← blockEntries fuel s
      return ((key, value) :: entries, s)
    | .blockEnd => return ([], s.drop)
    | _ => throw .malformed

/-- Reads the value of an entry of a block, which may be left out. -/
def blockValue : Nat → Composer → Except Fault (Nat × Composer)
  | 0, _ => .error .malformed
  | fuel + 1, s => do
    match ← s.peek with
    | .value => nodeUnless [.key, .value, .blockEnd] true true fuel s.drop
    | _ => return s.addEmpty

/-- Reads what follows a colon in a flow collection; without a colon the value is left out. -/
def flowValue (stops : List Token) : Nat → Composer → Except Fault (Nat × Composer)
  | 0, _ => .error .malformed
  | fuel + 1, s => do
    match ← s.peek with
    | .value => nodeUnless stops false false fuel s.drop
    | _ => return s.addEmpty

/-- Reads the items of a flow sequence; a comma precedes each but the first. An item with a key is
a mapping of one entry. -/
def flowItems (first : Bool) : Nat → Composer → Except Fault (List Nat × Composer)
  | 0, _ => .error .malformed
  | fuel + 1, s => do
    if (← s.peek) = .flowSequenceEnd then return ([], s.drop)
    if !first && (← s.peek) ≠ .flowEntry then throw .malformed
    let s := if first then s else s.drop
    match ← s.peek with
    | .flowSequenceEnd => return ([], s.drop)
    | .key =>
      let (n, s) := s.add (.scalar .null [])
      let stops := [.flowEntry, .flowSequenceEnd]
      let (key, s) ← nodeUnless (.value :: stops) false false fuel s.drop
      let (value, s) ← flowValue stops fuel s
      let (items, s) ← flowItems false fuel (s.fill n (.mapping .map [(key, value)]))
      return (n :: items, s)
    | _ =>
      let (n, s) ← node false false fuel s
      let (items, s) ← flowItems false fuel s
      return (n :: items, s)

/-- Reads the entries of a flow mapping; a comma precedes each but the first. An entry without a
mark is a key alone. -/
def flowEntries (first : Bool) : Nat → Composer → Except Fault (List (Nat × Nat) × Composer)
  | 0, _ => .error .malformed
  | fuel + 1, s => do
    if (← s.peek) = .flowMappingEnd then return ([], s.drop)
    if !first && (← s.peek) ≠ .flowEntry then throw .malformed
    let s := if first then s else s.drop
    match ← s.peek with
    | .flowMappingEnd => return ([], s.drop)
    | .key =>
      let stops := [.flowEntry, .flowMappingEnd]
      let (key, s) ← nodeUnless (.value :: stops) false false fuel s.drop
      let (value, s) ← flowValue stops fuel s
      let (entries, s) ← flowEntries false fuel s
      return ((key, value) :: entries, s)
    | _ =>
      let (key, s) ← node false false fuel s
      let (value, s) := s.addEmpty
      let (entries, s) ← flowEntries false fuel s
      return ((key, value) :: entries, s)

end

/-- Reads the directives in front of a document. -/
def directives (version : Bool) : Nat → Composer → Except Fault Composer
  | 0, _ => .error .malformed
  | fuel + 1, s => do
    match ← s.peek with
    | .directive (.version major _) =>
      if version || major ≠ 1 then throw .malformed
      directives true fuel s.drop
    | .directive (.tagHandle handle expansion) =>
      if (s.handles.lookup handle).isSome then throw .malformed
      directives version fuel { s.drop with handles := (handle, expansion) :: s.handles }
    | .directive .other => directives version fuel s.drop
    | _ => return s

/-- Reads the document behind its mark. -/
def explicitDocument (fuel : Nat) (s : Composer) : Except Fault (Nat × Composer) := do
  let s ← directives false fuel { s with handles := [] }
  if (← s.peek) ≠ .documentStart then throw .malformed
  let s := { s.drop with handles := s.handles ++ defaultHandles }
  match ← s.peek with
  | .directive _ => return s.addEmpty
  | .documentStart => return s.addEmpty
  | .documentEnd => return s.addEmpty
  | .streamEnd => return s.addEmpty
  | _ => node true false fuel s

/-- Reads the end of the text, which marks of the end of a document may precede. -/
def finish : Nat → Composer → Except Fault Unit
  | 0, _ => .error .malformed
  | fuel + 1, s => do
    match ← s.peek with
    | .documentEnd => finish fuel s.drop
    | .streamEnd => return ()
    | _ => throw .malformed

end Composer

/-- The graph of the one document that tokens spell, with the number of its root; `none` if there
is no document. -/
def Graph.ofTokens (tokens : List Token) (fault : Option Fault) :
    Except Fault (Option (Nat × Graph)) := do
  let s : Composer := ⟨tokens, fault, .empty, [], Composer.defaultHandles⟩
  let fuel := 4 * tokens.length + 4
  match ← s.peek with
  | .streamEnd => return none
  | .directive _ | .documentStart =>
    let (root, s) ← s.explicitDocument fuel
    s.finish fuel
    return some (root, s.graph)
  | _ =>
    let (root, s) ← s.node true false fuel
    s.finish fuel
    return some (root, s.graph)

end SiteRules.Yaml
