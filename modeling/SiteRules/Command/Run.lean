import SiteRules.Command.Arguments
import SiteRules.Config.File
import SiteRules.Document.File
import SiteRules.Store.Resolve
import SiteRules.Text.Blank
import SiteRules.Text.Control
import SiteRules.Url.Parser

/-!
# Runs

What a command answers, given the environment and the files around it, and which files there are
afterwards. Only the command that writes a setting changes files. An answer that the output refuses
ends the run, but what has been written to a file by then stays there.
-/

namespace SiteRules

/-- A failure that ends a run without being reported as a message. -/
inductive Unhandled where
  | content (fault : ContentFault)
  | save (e : Document.SaveError)
  /-- An integer has too many digits to be shown. -/
  | number (e : Literal.Error)
  /-- The stack does not suffice for a value that is copied or shown. -/
  | exhausted (work : Recursion)
  /-- The output refuses an answer. -/
  | output (wording : String)
deriving DecidableEq, Repr

/-- What a run answers. -/
structure Outcome where
  status : Nat
  output : Text
  /-- The lines of the log that are told. -/
  log : List LogLine
  /-- The message with which the run fails. -/
  failure : Option String
  unhandled : Option Unhandled
deriving DecidableEq, Repr

namespace Outcome

/-- The outcome of arguments that break a rule. -/
def usage : Outcome := ⟨2, [], [], none, none⟩

/-- The outcome of a run that fails with a message. -/
def fail (log : List LogLine) (message : String) : Outcome :=
  ⟨1, [], log, some (Text.ofString message).withoutControls.toString, none⟩

/-- The outcome of a run that ends in a failure without a message. -/
def abort (log : List LogLine) (e : Unhandled) : Outcome :=
  ⟨1, [], log, none, some e⟩

/-- The lines with which a run answers. -/
def lines (t : Text) : Text :=
  t.withoutControls ++ [CodePoint.ofChar '\n']

/-- The outcome of a run that answers with lines, unless the output refuses them. -/
def answer (env : Environment) (log : List LogLine) (t : Text) : Outcome :=
  match env.refusal? (lines t) with
  | none => ⟨0, lines t, log, none, none⟩
  | some wording => abort log (.output wording)

/-- The lines of the log and the message of a run. -/
def report (o : Outcome) : String :=
  String.join ((o.log.map LogLine.text ++ o.failure.toList).map (· ++ "\n"))

/-- The outcome where there is no configuration. -/
def ofConfigError : Config.LoadError → Outcome
  | .unexpected (.yaml .endless) => fail [] Yaml.Fault.endless.message
  | .unexpected (.exhausted work) => fail [] work.message
  | .unexpected fault => abort [] (.content fault)
  | e => fail [] e.message

/-- The outcome where there is no store. -/
def ofLoadError : Document.LoadError → Outcome
  | .unexpected fault => abort [] (.content fault)
  | e => fail [] e.message

/-- The outcome where a store is not saved. -/
def ofSaveError (log : List LogLine) : Document.SaveError → Outcome
  | .unwritable p e => fail log (Document.SaveError.message (.unwritable p e))
  | e => abort log (.save e)

end Outcome

/-- A store that has been opened for a command. -/
structure Session where
  env : Environment
  config : Config
  threshold : LogLevel
  path : Path
  sites : Sites
  /-- The lines about opening the store. -/
  log : List LogLine

namespace Session

/-- The line about a store that was opened. -/
def openedLine (t : FileTree) (p : Path) (s : Sites) : LogLine :=
  match t.has p with
  | .ok true => ⟨.info, s!"Loaded {s.size} pattern(s) from {p}"⟩
  | _ => ⟨.info, s!"Store file {p} not found, starting empty"⟩

/-- Loads the configuration and the store that the options ask for. -/
def start (env : Environment) (t : FileTree) (o : Options) : Except Outcome Session :=
  match Config.loadOrDefault env t (o.config.map Path.ofText) with
  | .error e => .error (.ofConfigError e)
  | .ok config =>
    let path := (o.store.map Path.ofText).getD config.storeFile
    match Document.load env.stack t path with
    | .error e => .error (.ofLoadError e)
    | .ok sites =>
      .ok ⟨env, config, if o.debug then .debug else config.logLevel, path, sites,
        [openedLine t path sites]⟩

/-- The lines of the log that are told, with further ones behind those about opening. -/
def told (session : Session) (further : List LogLine) : List LogLine :=
  LogLine.told session.threshold (session.log ++ further)

/-- The lines about the texts among some that are no patterns. -/
def rejections (patterns : List Text) : List LogLine :=
  patterns.filterMap fun source => match Pattern.parse source with
    | .ok _ => none
    | .error reason => some ⟨.debug, reason.message source⟩

/-- The answer that shows a value as lines of YAML. -/
def showLines (env : Environment) (log : List LogLine) (v : Value) : Outcome :=
  if env.stack.writesYaml v then
    match Yaml.write v with
    | .ok cs => .answer env log (Text.ofChars cs).trimEnd
    | .error e => .abort log (.number e)
  else .abort log (.exhausted .writingYaml)

/-- The settings in effect for a URL. -/
def showUrl (session : Session) (target : Text) : Outcome :=
  let s := session.sites
  let log := session.told (match Url.parse target with
    | .error reason => [⟨.debug, reason.message target⟩]
    | .ok url => rejections s.entries.keys ++
      [⟨.debug, s!"Resolved {target.toString} from {(s.layersFor url).length} pattern(s)"⟩])
  match s.resolveUrl target with
  | some record => showLines session.env log (Document.ofRecord record)
  | none => .fail log s!"No settings apply to {target.toString}"

/-- The settings of a pattern and those it inherits. -/
def showPattern (session : Session) (target : Text) : Outcome :=
  let s := session.sites
  let log := session.told (match Pattern.parse target with
    | .error reason => [⟨.debug, reason.message target⟩]
    | .ok _ => rejections (s.entries.keys.filter (· ≠ target)))
  match s.resolvePattern target with
  | some record => showLines session.env log (Document.ofRecord record)
  | none => .fail log s!"No settings stored for {target.toString}"

/-- All patterns from most to least specific, with their settings. -/
def showAll (session : Session) : Outcome :=
  let s := session.sites
  if s.size = 0 then .answer session.env (session.told []) (Text.ofString "No patterns stored")
  else
    let sites := s.patterns.filterMap fun p => (s.get? p).map fun record => (p, record)
    showLines session.env (session.told (rejections s.entries.keys)) (Document.ofRecords sites)

/-- The value that a word spells; a word that breaks the rules of YAML is a text. -/
def valueOfWord (stack : Stack) (word : Text) : Except ContentFault Value :=
  match Yaml.content stack 0 word with
  | .error (.yaml .malformed) => .ok (.text word)
  | result => result

/-- The answer that a setting has been written. -/
def writtenLine (target key : Text) (shown : String) : Text :=
  target ++ Text.ofChars [':', ' '] ++ key ++ Text.ofChars [' ', '=', ' '] ++ Text.ofString shown

/-- Writes a copy of a value as a setting and saves the store. -/
def writeValue (session : Session) (t : FileTree) (target key : Text) (value : Value) :
    Outcome × FileTree :=
  if !session.env.stack.copies value then (.abort (session.told []) (.exhausted .copying), t)
  else
    let s := session.sites.merge target key value
    let ranked := session.config.sortPatterns
    let ranking := if ranked then rejections s.entries.keys else []
    match Document.save session.env.stack t session.path s ranked with
    | (t, .error e) => (.ofSaveError (session.told ranking) e, t)
    | (t, .ok ()) =>
      let saved : LogLine := ⟨.info, s!"Saved {s.size} pattern(s) to {session.path}"⟩
      let log := session.told (ranking ++ [saved])
      match value.show? with
      | .error e => (.abort log (.number e), t)
      | .ok shown => (.answer session.env log (writtenLine target key shown), t)

/-- Writes the value that a word stands for as a setting and saves the store. -/
def write (session : Session) (t : FileTree) (target key word : Text) : Outcome × FileTree :=
  match valueOfWord session.env.stack word with
  | .error fault => (.abort (session.told []) (.content fault), t)
  | .ok value => session.writeValue t target key value

end Session

namespace Command

/-- The usage of the program. -/
def usageText : String :=
  "Usage: [url TARGET | pattern TARGET | set TARGET KEY VALUE | list] "
    ++ "[--config FILE] [--store FILE] [--debug]\n       origin TARGET | config validate FILE"

/-- What a command on a store answers by showing a part of it. -/
def showWith (env : Environment) (t : FileTree) (o : Options)
    (answer : Session → Outcome) : Outcome :=
  match Session.start env t o with
  | .error outcome => outcome
  | .ok session => answer session

/-- The site of a URL. -/
def showOrigin (env : Environment) (target : Text) : Outcome :=
  match Url.parse? target with
  | some site => .answer env [] site.origin
  | none => .fail [] s!"Not an absolute URL: {target.toString}"

/-- The check of a configuration file. -/
def check (env : Environment) (t : FileTree) (file : Text) : Outcome :=
  match Config.load env t (some (Path.ofText file)) with
  | .ok _ => .answer env [] (Text.ofString "✅ Config valid")
  | .error e => .ofConfigError e

/-- Runs a command whose options name files that can be used. -/
def execute (env : Environment) (t : FileTree) : Command → Outcome × FileTree
  | .url target o => (showWith env t o fun session => session.showUrl target, t)
  | .pattern target o => (showWith env t o fun session => session.showPattern target, t)
  | .list o => (showWith env t o Session.showAll, t)
  | .set target key word o => match Session.start env t o with
    | .error outcome => (outcome, t)
    | .ok session => session.write t target key word
  | .origin target => (showOrigin env target, t)
  | .validate file => (check env t file, t)
  | .help => (.answer env [] (Text.ofString usageText), t)

/-- Runs the program on its arguments. -/
def run (env : Environment) (t : FileTree) (args : List Text) : Outcome × FileTree :=
  match parse? args with
  | none => (.usage, t)
  | some command => match command.options?.mapM fun o => o.areUsable t with
    | .error e => (.abort [] (.content (.file e)), t)
    | .ok (some false) => (.usage, t)
    | .ok _ => command.execute env t

end Command

end SiteRules
