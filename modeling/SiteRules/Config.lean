import SiteRules.Environment
import SiteRules.FileTree
import SiteRules.Log
import SiteRules.Path
import SiteRules.Schema.Scalar

/-!
# Configurations

What a user can choose: the file of the store, which lines of the log are told, and whether the
patterns are saved by rank.
-/

namespace SiteRules

/-- The choices of a user. -/
structure Config where
  storeFile : Path
  logLevel : LogLevel
  sortPatterns : Bool
deriving DecidableEq, Repr

namespace Config

/-- The choices where none is made. -/
def default : Config := ⟨Path.ofString "site_settings.yaml", .info, true⟩

instance : Inhabited Config := ⟨default⟩

/-- Why a value is no configuration. -/
inductive Invalid where
  | issues (list : List Issue)
  /-- The store file is in the home of an account that is not known. -/
  | noHome
deriving DecidableEq, Repr

/-- Reads a path. -/
def readPath (v : Value) : Except Issue.Reason Path :=
  match v.content with
  | .text t => .ok (Path.ofText t)
  | _ => .error .notAPath

/-- Reads a path that may begin with the home of an account, of which the name has to be one that
the system can look up. -/
def readHomePath (v : Value) : Except Issue.Reason Path := do
  let p ← readPath v
  match (p.account?.getD []).any (·.val = 0), Utf8.encodeName (p.account?.getD []) with
  | _, .error e => throw (.refused e.message)
  | true, .ok _ => throw (.refused FileError.nullByte.message)
  | false, .ok _ => return p

/-- The names of the levels, as a refusal lists them. -/
def levelChoices : String :=
  "'DEBUG', 'INFO', 'WARNING' or 'ERROR'"

/-- Reads a level. -/
def readLevel (v : Value) : Except Issue.Reason LogLevel :=
  match v.content with
  | .text t =>
    if t.any CodePoint.isSurrogate then .error .notUtf8
    else match LogLevel.ofText? t with
      | some level => .ok level
      | none => .error (.notAChoice levelChoices)
  | _ => .error (.notAChoice levelChoices)

/-- Reads the entry with a name, or takes the default where there is none. -/
def readField {α : Type} (reader : Value → Except Issue.Reason α) (name : String) (absent : α)
    (entries : List (Value × Value)) : Checked α :=
  match Schema.field? name entries with
  | some v => (Checked.ofReason (reader v)).under (.name (Text.ofString name))
  | none => .ok absent

/-- Reads a store file; its home directory is filled in. -/
def readStoreFile (env : Environment) (entries : List (Value × Value)) :
    Except Invalid (Checked Path) :=
  match Schema.field? "store_file" entries with
  | none => .ok (.ok default.storeFile)
  | some v => match readHomePath v with
    | .error reason => .ok (.error [⟨[.name (Text.ofString "store_file")], reason⟩])
    | .ok p => match p.expandHome env.home? with
      | some p => .ok (.ok p)
      | none => .error .noHome

/-- Reads the entries of a configuration; others than those known are left out. -/
def readEntries (env : Environment) (entries : List (Value × Value)) : Except Invalid Config := do
  let storeFile ← readStoreFile env entries
  let level := readField readLevel "log_level" default.logLevel entries
  let sorted := readField Schema.readBoolean "sort_patterns" default.sortPatterns entries
  match Checked.both storeFile (Checked.both level sorted) with
  | .ok (storeFile, level, sorted) => return ⟨storeFile, level, sorted⟩
  | .error issues => throw (.issues issues)

/-- Reads a configuration; every empty value gives the default one. -/
def read (env : Environment) (v : Value) : Except Invalid Config :=
  if v.isEmpty then .ok default
  else match v.content with
    | .map entries => readEntries env entries
    | _ => .error (.issues [⟨[], .notAnInstance "UserSettings"⟩])

end Config

end SiteRules
