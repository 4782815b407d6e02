import SiteRules.Document
import SiteRules.Document.Content
import SiteRules.Json.Writer
import SiteRules.Yaml.Writer

/-!
# Store files

A store is kept in a file as a document in JSON or YAML. A file that is absent holds the empty
store.
-/

namespace SiteRules.Document

/-- Why a file gives no store. -/
inductive LoadError where
  /-- The file cannot be read, or its content has no value. -/
  | unreadable (path : Path) (fault : ContentFault)
  /-- The value of the file is no document. -/
  | invalid (path : Path) (issues : List Issue)
  /-- A fault that is not reported as one of the file. -/
  | unexpected (fault : ContentFault)
deriving DecidableEq, Repr

/-- The wording of issues, each on a line of its own below a heading. -/
def issueLines (heading : String) (issues : List Issue) : String :=
  "\n".intercalate (heading :: issues.map Issue.line)

/-- The wording of a failure to load. -/
def LoadError.message : LoadError → String
  | unreadable p fault => Path.label (some p) ("Unable to read store: " ++ fault.message)
  | invalid p issues => Path.label (some p) (issueLines "Invalid store document:" issues)
  | unexpected fault => fault.message

/-- Whether a fault is reported as one of the store file. The faults that are not are those of a
scalar that is marked as one of a kind and is not of that kind at all, and an exhausted stack. -/
def isReported : ContentFault → Bool
  | .yaml .codePointOverflow | .yaml (.notABoolean _) | .yaml .noDigits | .yaml .notATime
  | .yaml .timeMapping | .yaml .endless | .yaml .placeOverflow | .exhausted _ => false
  | _ => true

/-- The store in a file. -/
def load (stack : Stack) (t : FileTree) (p : Path) : Except LoadError Sites :=
  match t.has p with
  | .error e => .error (.unexpected (.file e))
  | .ok false => .ok .empty
  | .ok true => match t.readValue stack levels p with
    | .error fault =>
      .error (if isReported fault then .unreadable p fault else .unexpected fault)
    | .ok v => match build stack v with
      | .error (.invalid issues) => .error (.invalid p issues)
      | .error .exhausted => .error (.unexpected (.exhausted .copying))
      | .ok s => .ok s

/-- Why a store is not saved. -/
inductive SaveError where
  /-- The system refuses to write the file. -/
  | unwritable (path : Path) (e : FileError)
  /-- A failure that is not reported as one of the file. -/
  | unexpected (e : FileError)
  /-- A value has no form in JSON. -/
  | formless (e : Json.Unwritable)
  /-- An integer has no form in YAML. -/
  | unspelled (e : Literal.Error)
  /-- The stack does not suffice for what is nested in the store. -/
  | exhausted (work : Recursion)
deriving DecidableEq, Repr

/-- The wording of a failure to save. -/
def SaveError.message : SaveError → String
  | unwritable p e => Path.label (some p) ("Unable to write store: " ++ e.message)
  | unexpected e => e.message
  | formless e => e.message
  | unspelled e => e.message
  | exhausted work => work.message

/-- The failure to save that results from a failure of a file. -/
def SaveError.ofFile (p : Path) (e : FileError) : SaveError :=
  if e.isRefusal then unwritable p e else unexpected e

/-- The text of a value in the format that the name of a file tells. -/
def textFor (stack : Stack) (p : Path) (v : Value) : Except SaveError Text :=
  if p.isJson then
    if stack.writesJson v then
      match Json.write v with
      | .ok t => .ok t
      | .error e => .error (.formless e)
    else .error (.exhausted .writingJson)
  else if stack.writesYaml v then
    match Yaml.write v with
    | .ok cs => .ok (Text.ofChars cs)
    | .error e => .error (.unspelled e)
  else .error (.exhausted .writingYaml)

/-- The text of a store in the format that the name of a file tells, made from copies of the
settings. -/
def render (stack : Stack) (p : Path) (s : Sites) (ranked : Bool) : Except SaveError Text :=
  if canCopy stack s then textFor stack p (ofStore s ranked)
  else .error (.exhausted .copying)

/-- Saves a store in a file, making the directories above it. The tree that results is given also
if this fails. -/
def save (stack : Stack) (t : FileTree) (p : Path) (s : Sites) (ranked : Bool) :
    FileTree × Except SaveError Unit :=
  match render stack p s ranked with
  | .error e => (t, .error e)
  | .ok text => match t.makeDirectories p.parent with
    | (t, .error e) => (t, .error (.ofFile p e))
    | (t, .ok ()) => match t.writeText p text with
      | (t, .error e) => (t, .error (.ofFile p e))
      | (t, .ok ()) => (t, .ok ())

end SiteRules.Document
