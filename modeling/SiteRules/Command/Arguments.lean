import SiteRules.FileTree

/-!
# Arguments

The commands of the program and how arguments spell them. Options may stand among the words of a
command; after two dashes all arguments are words.
-/

namespace SiteRules

/-- The options of a command that works on a store. -/
structure Options where
  config : Option Text
  store : Option Text
  debug : Bool
deriving DecidableEq, Repr

/-- What the program is asked to do. -/
inductive Command where
  /-- Shows the settings in effect for a URL. -/
  | url (target : Text) (options : Options)
  /-- Shows the settings of a pattern and those it inherits. -/
  | pattern (target : Text) (options : Options)
  /-- Writes one setting of a pattern. -/
  | set (target key value : Text) (options : Options)
  /-- Shows all patterns and their settings. -/
  | list (options : Options)
  /-- Shows the pattern for the site of a URL. -/
  | origin (target : Text)
  /-- Checks a configuration file. -/
  | validate (file : Text)
  | help
deriving DecidableEq, Repr

namespace Arguments

/-- An option that takes a value. -/
inductive Slot where
  | config
  | store
deriving DecidableEq, Repr

/-- An option that takes none. -/
inductive Switch where
  | debug
  | help
deriving DecidableEq, Repr

/-- The words and the options of a command that have been read. -/
structure Reading where
  words : List Text
  options : Options
  wantsHelp : Bool
deriving DecidableEq, Repr

/-- Nothing read yet. -/
def Reading.start : Reading := ⟨[], ⟨none, none, false⟩, false⟩

/-- Adds words. -/
def Reading.addWords (r : Reading) (words : List Text) : Reading :=
  { r with words := r.words ++ words }

/-- Fills a slot; a later value replaces an earlier one. -/
def Reading.fill (r : Reading) (slot : Slot) (value : Text) : Reading :=
  match slot with
  | .config => { r with options := { r.options with config := some value } }
  | .store => { r with options := { r.options with store := some value } }

/-- Turns a switch on. -/
def Reading.turnOn (r : Reading) : Switch → Reading
  | .debug => { r with options := { r.options with debug := true } }
  | .help => { r with wantsHelp := true }

/-- The mark behind which all arguments are words. -/
def wordsOnly : Text := Text.ofString "--"

/-- Whether an argument is read as options: it begins with a dash and does not end there. -/
def isDashed (arg : Text) : Bool :=
  arg.head? = some (CodePoint.ofChar '-') && 1 < arg.length

/-- The slot that a letter stands for. -/
def slotOfLetter? (c : CodePoint) : Option Slot :=
  if c = 'c' then some .config else if c = 's' then some .store else none

/-- The slot that a name stands for. -/
def slotOfName? (name : Text) : Option Slot :=
  if name = Text.ofString "--config" then some .config
  else if name = Text.ofString "--store" then some .store
  else none

/-- The switch that a name stands for. -/
def switchOfName? (name : Text) : Option Switch :=
  if name = Text.ofString "--debug" then some .debug
  else if name = Text.ofString "--help" then some .help
  else none

/-- What an argument that begins with a dash does: it turns a switch on, or it fills a slot with a
value of its own or with the argument after it. -/
inductive Dashed where
  | switch (s : Switch)
  | slot (s : Slot) (value : Option Text)
deriving DecidableEq, Repr

/-- The name of an option and the value behind an equals sign in the same argument. -/
def nameAndValue (arg : Text) : Text × Option Text :=
  match arg.cut? '=' with
  | some (name, value) => (name, some value)
  | none => (arg, none)

/-- Reads a dash and a letter; what follows the letter is its value. -/
def Dashed.ofLetter? (arg : Text) : Option Dashed :=
  match arg with
  | _ :: letter :: rest =>
    (slotOfLetter? letter).map fun s => .slot s (if rest.isEmpty then none else some rest)
  | _ => none

/-- Reads an argument that begins with a dash. `onStore` tells that the command works on a store;
other commands have no option but that for help. -/
def Dashed.of? (onStore : Bool) (arg : Text) : Option Dashed :=
  let (name, value) := nameAndValue arg
  match switchOfName? name, slotOfName? name with
  | some s, _ => if value.isNone && (onStore || s = .help) then some (.switch s) else none
  | none, some s => if onStore then some (.slot s value) else none
  | none, none =>
    if onStore && !wordsOnly.isPrefixOf arg then ofLetter? arg else none

/-- Reads the arguments of a command. -/
def read? (onStore : Bool) : List Text → Reading → Option Reading
  | [], r => some r
  | arg :: rest, r =>
    if arg = wordsOnly then some (r.addWords rest)
    else if isDashed arg then
      match Dashed.of? onStore arg, rest with
      | some (.switch s), rest => read? onStore rest (r.turnOn s)
      | some (.slot s (some value)), rest => read? onStore rest (r.fill s value)
      | some (.slot s none), value :: rest => read? onStore rest (r.fill s value)
      | some (.slot _ none), [] => none
      | none, _ => none
    else read? onStore rest (r.addWords [arg])

/-- What stands in front of the arguments of a command. -/
inductive Opening where
  | help
  | command (name : Text) (rest : List Text)
deriving DecidableEq, Repr

/-- Reads the name of a command. `wantsHelp` tells that help was asked for in front of it. -/
def Opening.read? (wantsHelp : Bool) : List Text → Option Opening
  | [] => if wantsHelp then some .help else none
  | arg :: rest =>
    if arg = wordsOnly then
      match wantsHelp, rest with
      | true, _ => some .help
      | false, name :: rest => some (.command name rest)
      | false, [] => none
    else if isDashed arg then
      if arg = Text.ofString "--help" then Opening.read? true rest else none
    else if wantsHelp then some .help
    else some (.command arg rest)

end Arguments

namespace Command

/-- The command of a name with the words read for it. -/
def ofWords? (name : String) (words : List Text) (options : Options) : Option Command :=
  match name, words with
  | "url", [target] => some (.url target options)
  | "pattern", [target] => some (.pattern target options)
  | "set", [target, key, value] => some (.set target key value options)
  | "list", [] => some (.list options)
  | "origin", [target] => some (.origin target)
  | "validate", [file] => some (.validate file)
  | _, _ => none

/-- Reads the arguments behind the name of a command. -/
def ofArguments? (name : String) (onStore : Bool) (args : List Text) : Option Command := do
  let reading ← Arguments.read? onStore args .start
  if reading.wantsHelp then return .help
  ofWords? name reading.words reading.options

/-- Reads the arguments of the program; there is no command if they break a rule. -/
def parse? (args : List Text) : Option Command := do
  match ← Arguments.Opening.read? false args with
  | .help => return .help
  | .command name rest =>
    if name = Text.ofString "config" then
      match ← Arguments.Opening.read? false rest with
      | .help => return .help
      | .command name rest =>
        if name = Text.ofString "validate" then ofArguments? "validate" false rest else none
    else
      let stored := ["url", "pattern", "set", "list"].find? fun s => Text.ofString s = name
      match stored with
      | some name => ofArguments? name true rest
      | none => if name = Text.ofString "origin" then ofArguments? "origin" false rest else none

/-- The options of a command that works on a store. -/
def options? : Command → Option Options
  | url _ o | pattern _ o | set _ _ _ o | list o => some o
  | origin _ | validate _ | help => none

end Command

namespace Options

/-- Whether a node is a file. -/
def isFile : FileTree.Node → Bool
  | .file _ => true
  | .directory => false

/-- Whether a file that an option names can be used: what is there is no directory, and may be
read; `needed` tells that something has to be there. -/
def isUsable (t : FileTree) (needed : Bool) (raw : Text) : Except FileError Bool := do
  match ← t.lookUp (Path.ofText raw) with
  | some node => return isFile node && t.isReadable (Path.ofText raw)
  | none => return !needed

/-- Whether the files that the options name can be used: the configuration has to be there. -/
def areUsable (t : FileTree) (o : Options) : Except FileError Bool := do
  let config ← o.config.mapM (isUsable t true)
  let store ← o.store.mapM (isUsable t false)
  return config.all id && store.all id

end Options

end SiteRules
