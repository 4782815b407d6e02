import SiteRules.FileTree
import SiteRules.Json.Reader
import SiteRules.Stack.Basic
import SiteRules.Text.Newline
import SiteRules.Yaml.Reader

/-!
# Contents

The value that the content of a file spells, in one of the two formats, or why it spells none. The
content of a text file is UTF-8 whatever the locale.
-/

namespace SiteRules

/-- Why a file has no value. -/
inductive ContentFault where
  | file (e : FileError)
  | encoding (e : Utf8.DecodeError)
  | json (e : Json.Error)
  | yaml (e : Yaml.Fault)
  /-- The stack does not suffice for what is nested in the content. -/
  | exhausted (work : Recursion)
deriving DecidableEq, Repr

namespace ContentFault

/-- The wording of a fault. -/
def message : ContentFault → String
  | file e => e.message
  | encoding e => e.message
  | json e => e.message
  | yaml e => e.message
  | exhausted work => work.message

end ContentFault

/-- The value that a text spells in YAML, with the outer mappings laid open down to a level. -/
def Yaml.content (stack : Stack) (levels : Nat) (t : Text) : Except ContentFault Value :=
  if stack.readsYaml t then (Yaml.readText levels t).mapError .yaml
  else .error (.exhausted .readingYaml)

/-- The value that a text spells in JSON. -/
def Json.content (stack : Stack) (cs : List Char) : Except ContentFault Value :=
  if stack.readsJson (Text.ofChars cs) then (Json.read cs).mapError .json
  else .error (.exhausted .readingJson)

namespace FileTree

/-- The characters of a text file, with line feeds for all line ends. -/
def readText (t : FileTree) (p : Path) : Except ContentFault (List Char) :=
  match t.read p with
  | .error e => .error (.file e)
  | .ok bytes => match Utf8.decode bytes with
    | .error e => .error (.encoding e)
    | .ok cs => .ok (foldNewlines cs)

/-- The value of a file in the format that its name tells, with the outer mappings laid open down to
a level. -/
def readValue (stack : Stack) (t : FileTree) (levels : Nat) (p : Path) :
    Except ContentFault Value := do
  let cs ← t.readText p
  if p.isJson then Json.content stack cs else Yaml.content stack levels (Text.ofChars cs)

end FileTree

end SiteRules
