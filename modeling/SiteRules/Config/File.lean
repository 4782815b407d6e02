import SiteRules.Config
import SiteRules.Config.Placeholder
import SiteRules.Document.Content

/-!
# Configuration files

A configuration is read from the file that is asked for, else from the one that a variable names,
else from the first of the usual places that there is. The file is read as UTF-8, whatever encoding
the locale prefers.
-/

namespace SiteRules.Config

/-- Why there is no configuration. -/
inductive LoadError where
  /-- The file that the variable names is absent. -/
  | absent (path : Path)
  /-- No file is asked for or named, and none is in the usual places. -/
  | noneFound
  /-- The file cannot be read, or its content has no value. -/
  | unreadable (fault : ContentFault)
  /-- The value of the file is no configuration. -/
  | invalid (reason : Invalid)
  /-- A fault that is not reported as one of the file. -/
  | unexpected (fault : ContentFault)
deriving DecidableEq, Repr

/-- The name of the variable. -/
def variableName : String := "SITESETTINGS_CONFIG"

/-- The wording of a value that is no configuration. -/
def Invalid.message : Invalid → String
  | issues list => "\n".intercalate ("Invalid configuration:" :: list.map Issue.line)
  | noHome => "Could not determine home directory."

/-- The wording of a failure to load. -/
def LoadError.message : LoadError → String
  | absent p => s!"Config file from {variableName} not found: {p}"
  | noneFound => "No configuration file found. Create sitesettings.yaml or set "
      ++ s!"{variableName}."
  | unreadable fault => "Unable to read config YAML: " ++ fault.message
  | invalid reason => reason.message
  | unexpected fault => fault.message

/-- Whether a fault is reported as one of the file. The faults that are not are those of a scalar
that does not spell the kind of value that it is marked as or that its shape makes it, and an
exhausted stack. -/
def isReported : ContentFault → Bool
  | .file e => e.isRefusal
  | .encoding _ => true
  | .yaml e => e = .malformed
  | .json _ | .exhausted _ => false

/-- The failure that results from a fault. -/
def LoadError.ofFault (fault : ContentFault) : LoadError :=
  if isReported fault then unreadable fault else unexpected fault

/-- The usual places of a configuration. -/
def usualPaths (env : Environment) : List Path :=
  [Path.ofString "sitesettings.yaml", Path.ofString "~/.config/sitesettings/config.yaml",
    Path.ofString "/etc/sitesettings/config.yaml"].filterMap fun p => p.expandHome env.home?

/-- The first of some paths that there is. -/
def firstOf (t : FileTree) : List Path → Except LoadError Path
  | [] => .error .noneFound
  | p :: rest => match t.has p with
    | .ok true => .ok p
    | .ok false => firstOf t rest
    | .error e => .error (.unexpected (.file e))

/-- The file from which the configuration is read if none is asked for. -/
def findPath (env : Environment) (t : FileTree) : Except LoadError Path :=
  match (env.valueOf? (Text.ofString variableName)).getD [] with
  | [] => firstOf t (usualPaths env)
  | name =>
    let p := Path.ofText name
    match t.has p with
    | .ok true => .ok p
    | .ok false => .error (.absent p)
    | .error e => .error (.unexpected (.file e))

/-- The value in a configuration file, its placeholders being filled in. -/
def valueAt (env : Environment) (t : FileTree) (p : Path) : Except ContentFault Value := do
  let cs ← t.readText p
  Yaml.content env.stack 0 (env.interpolate (Text.ofChars cs))

/-- The configuration in the file asked for, or in the one that is found. -/
def load (env : Environment) (t : FileTree) (asked : Option Path) : Except LoadError Config := do
  let p ← match asked with
    | some p => pure p
    | none => findPath env t
  match valueAt env t p with
  | .error fault => throw (.ofFault fault)
  | .ok v => match read env v with
    | .ok config => return config
    | .error reason => throw (.invalid reason)

/-- The same, but with the default configuration if no file is asked for and none is found. -/
def loadOrDefault (env : Environment) (t : FileTree) (asked : Option Path) :
    Except LoadError Config :=
  match load env t asked, asked with
  | .error (.absent _), none => .ok default
  | .error .noneFound, none => .ok default
  | result, _ => result

end SiteRules.Config
