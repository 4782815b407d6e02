import SiteRules.Command.Run
import SiteRules.Stack.Usual

/-!
# The program

Runs a command on the files of the system: those that the command can look at are read into a tree
first, and what differs in the tree afterwards is written.
-/

namespace SiteRules.Program

/-- The text of bytes; bytes that are no text give none. -/
def textOf (bytes : ByteArray) : Text :=
  match Utf8.decode bytes.data.toList with
  | .ok cs => Text.ofChars cs
  | .error _ => []

/-- The text of a file; a file that cannot be read has none. -/
def textIn (file : String) : IO Text := do
  try
    return textOf (← IO.FS.readBinFile file)
  catch _ => return []

/-- The variables of the process and the homes of the accounts of the system. -/
def environment : IO Environment := do
  let bindings := (← textIn "/proc/self/environ").splitAt '\x00'
  let accounts := (← textIn "/etc/passwd").splitAt '\n'
  return ⟨bindings.filterMap fun entry => entry.cut? '=', accounts.filterMap fun entry =>
    match entry.splitAt ':' with
    | account :: _ :: _ :: _ :: _ :: home :: _ => some (account, home)
    | _ => none, .usual, Environment.utf8Refusal?⟩

/-- The name of a location. -/
def nameOf (l : Location) : String :=
  toString (Path.mk 1 l)

/-- What the system has at a location. -/
def nodeAt? (l : Location) : IO (Option FileTree.Node) := do
  try
    return some (.file (← IO.FS.readBinFile (nameOf l)).data.toList)
  catch
    | .noFileOrDirectory _ _ _ => return none
    | .inappropriateType _ code _ => return if code = 21 then some .directory else none
    | _ => return none

/-- The locations on the way that a path leads from a location. -/
def wayOf (here : Location) : List Text → List Location
  | [] => []
  | part :: rest =>
    let there := if part = Text.ofChars ['.', '.'] then here.dropLast else here ++ [part]
    there :: wayOf there rest

/-- Adds to a tree what the system has on the way of a path. -/
def survey (t : FileTree) (p : Path) : IO FileTree := do
  let mut t := t
  for l in wayOf (if p.slashes = 0 then t.working else []) p.parts do
    if (t.at? l).isNone then
      match ← nodeAt? l with
      | some node => t := t.put l node
      | none => pure ()
  return t

/-- The tree that holds nothing but the working directory. -/
def workingTree : IO FileTree := do
  let working := (Path.ofString (toString (← IO.currentDir))).parts
  let places := (List.range working.length).map fun n => working.take (n + 1)
  return places.foldl (fun t l => t.put l .directory) { nodes := .empty, working }

/-- The paths at which a command can look for its configuration. -/
def configPaths (env : Environment) (command : Command) : List Path :=
  let named := env.valueOf? (Text.ofString Config.variableName)
  let asked := match command with
    | .validate file => some file
    | command => command.options?.bind Options.config
  (asked.toList ++ named.toList).map Path.ofText ++ Config.usualPaths env

/-- The path of the store of a command. -/
def storePath? (env : Environment) (t : FileTree) (command : Command) : Option Path :=
  match command.options? with
  | none => none
  | some o => match o.store with
    | some file => some (Path.ofText file)
    | none => match Config.loadOrDefault env t (o.config.map Path.ofText) with
      | .ok config => some config.storeFile
      | .error _ => none

/-- The tree of the files that a command can look at. -/
def treeFor (env : Environment) (command : Command) : IO FileTree := do
  let mut t ← workingTree
  for p in configPaths env command do
    t ← survey t p
  match storePath? env t command with
  | some p => survey t p
  | none => return t

/-- Makes the system hold what differs from one tree to another. -/
def applyChanges (before after : FileTree) : IO Unit := do
  for (l, node) in after.nodes.entries do
    if before.at? l ≠ some node then
      match node with
      | .directory => IO.FS.createDir (nameOf l)
      | .file content => IO.FS.writeBinFile (nameOf l) ⟨content.toArray⟩

/-- The message of a failure that ends a run. -/
def messageOf : Unhandled → String
  | .content fault => fault.message
  | .save e => e.message
  | .number e => e.message
  | .exhausted work => work.message
  | .output wording => wording

end SiteRules.Program

open SiteRules in
/-- Runs the program on its arguments. -/
def main (args : List String) : IO UInt32 := do
  let env ← Program.environment
  let args := args.map Text.ofString
  let before ← match Command.parse? args with
    | some command => Program.treeFor env command
    | none => Program.workingTree
  let (outcome, after) := Command.run env before args
  Program.applyChanges before after
  IO.print outcome.output.toString
  IO.eprint outcome.report
  match outcome.unhandled with
  | some e => IO.eprintln (Program.messageOf e)
  | none => pure ()
  if outcome.status = 2 then IO.eprintln Command.usageText
  return outcome.status.toUInt32
