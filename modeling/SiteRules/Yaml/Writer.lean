import SiteRules.Value.Show
import SiteRules.Yaml.Draft
import SiteRules.Yaml.Sheet

/-!
# Writing YAML

The writer of documents: every item and every entry has a line of its own, indented by two blanks
for each collection around it. Items of a sequence under a key are not indented further.
-/

namespace SiteRules.Yaml

/-- The short form of a tag. -/
def Tag.short : Tag → String
  | null => "!!null"
  | bool => "!!bool"
  | int => "!!int"
  | float => "!!float"
  | binary => "!!binary"
  | timestamp => "!!timestamp"
  | omap => "!!omap"
  | pairs => "!!pairs"
  | set => "!!set"
  | str => "!!str"
  | seq => "!!seq"
  | map => "!!map"
  | merge => "!!merge"
  | value => "!!value"
  | unknown uri => uri.toString

/-- The text of a name. -/
def nameText (n : Nat) : List Char :=
  'i' :: 'd' :: (let digits := Nat.toDigits 10 n
    List.replicate (3 - digits.length) '0' ++ digits)

namespace Draft

/-- The length of a name with its node. -/
def nameLength (name : Option Nat) : Nat :=
  ((name.map fun n => (nameText n).length)).getD 0

/-- Whether a node can stand in front of a colon on one line. -/
def isSimpleKey : Draft → Bool
  | .alias _ => true
  | .scalar name tag content _ =>
    nameLength name + tag.short.length + content.length < 128 && !content.isEmpty
      && !Style.isMultiline content
  | .sequence _ items => items.isEmpty
  | .mapping _ _ entries => entries.isEmpty

/-- The indentation of what is inside a node. -/
def deeper : Option Nat → Nat
  | none => 0
  | some n => n + 2

/-- Writes the name of a node. -/
def putName (name : Option Nat) (s : Sheet) : Sheet :=
  match name with
  | some n => s.mark ('&' :: nameText n) true
  | none => s

/-- Writes a scalar, `indent` being the indentation around it. -/
def putScalar (indent : Option Nat) (asKey : Bool) (tag : Tag) (content : Text) (asLines : Bool)
    (s : Sheet) : Sheet :=
  let style := Style.choose tag content asLines asKey
  let implied := if style = .plain then Tag.ofPlain content = tag else tag = .str
  let s := if implied then s else s.mark tag.short.toList true
  let inner := (indent.getD 0) + 2
  match style with
  | .plain => s.putPlain inner (!asKey) content
  | .singleQuoted => s.putSingleQuoted inner (!asKey) content
  | .doubleQuoted => s.putDoubleQuoted inner (!asKey) content
  | .literal => s.putLiteral inner content

mutual

/-- Writes a node, `indent` being the indentation around it; `underKey` tells that it is a part of
an entry, and `asKey` that it stands in front of a colon. -/
def put (indent : Option Nat) (underKey asKey : Bool) : Draft → Sheet → Sheet
  | .alias n, s => s.mark ('*' :: nameText n) true
  | .scalar name tag content asLines, s =>
    putScalar indent asKey tag content asLines (putName name s)
  | .sequence name [], s => ((putName name s).mark ['['] true true).mark [']'] false
  | .sequence name items, s =>
    let s := putName name s
    let inner := if underKey && !s.indented then indent.getD 0 else deeper indent
    putItems inner items s
  | .mapping name isSet entries, s =>
    let s := putName name s
    let s := if isSet then s.mark (Tag.set.short.toList) true else s
    match entries with
    | [] => (s.mark ['\x7b'] true true).mark ['\x7d'] false
    | entries => putEntries (deeper indent) entries s

/-- Writes the items of a sequence. -/
def putItems (indent : Nat) : List Draft → Sheet → Sheet
  | [], s => s
  | item :: rest, s =>
    let s := (s.indentTo indent).mark ['-'] true false true
    putItems indent rest (put (some indent) false false item s)

/-- Writes the entries of a mapping. A key that cannot stand in front of a colon is marked. -/
def putEntries (indent : Nat) : List (Draft × Draft) → Sheet → Sheet
  | [], s => s
  | (key, value) :: rest, s =>
    let s := s.indentTo indent
    let s :=
      if key.isSimpleKey then (put (some indent) true true key s).mark [':'] false
      else
        let s := put (some indent) true false key (s.mark ['?'] true false true)
        (s.indentTo indent).mark [':'] true false true
    putEntries indent rest (put (some indent) true false value s)

end

end Draft

/-- The text of a value, of which no integer may have too many digits. -/
def write (v : Value) : Except Literal.Error (List Char) :=
  if v.isSpellable then
    .ok (((Draft.ofValue v).put none false false Sheet.blank).indentTo 0).written.reverse
  else .error .tooLong

end SiteRules.Yaml
