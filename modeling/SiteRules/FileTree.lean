import SiteRules.OrderedMap
import SiteRules.Path
import SiteRules.Text.Quoted
import SiteRules.Text.Utf8

/-!
# File trees

Files and directories by location, and the working directory from which relative paths lead. An
operation takes a path, follows it from component to component, and is refused where a component
does not lead on. The system can refuse it for reasons of its own too, and a device can fail while a
file is written.
-/

namespace SiteRules

/-- The components on the way from the root. -/
abbrev Location := List Text

/-- What a location holds. -/
inductive FileTree.Node where
  | directory
  | file (content : List UInt8)
deriving DecidableEq, Repr

/-- What the system is asked to do with a path. -/
inductive FileTree.Operation where
  | look
  | read
  | write
  | makeDirectory
deriving DecidableEq, Repr

/-- Why an operation on a path is refused. -/
inductive FileError.Reason where
  | missing
  | alreadyExists
  | notADirectory
  | isADirectory
  | nameTooLong
  /-- A reason that is not one of the tree: a right that is missing, a limit, a failing device. -/
  | other (number : Nat) (wording : String)
deriving DecidableEq, Repr

/-- What the locations other than the root hold, the working directory, and what the system decides
beyond that. -/
structure FileTree where
  nodes : OrderedMap Location FileTree.Node
  working : Location
  /-- Why the system refuses an operation on a path for reasons of its own, which may depend on what
  the locations hold. -/
  refusal? : OrderedMap Location FileTree.Node → FileTree.Operation → Path →
    Option FileError.Reason := fun _ _ _ => none
  /-- Of a content that is written to a path, how many bytes the device takes before it fails, and
  why it does. -/
  shortage? : Path → List UInt8 → Option (Nat × FileError.Reason) := fun _ _ => none

/-- Why an operation on a file fails: it is refused, or cut short, or the path or the content is no
sequence of bytes that a file can have. -/
inductive FileError where
  | refused (reason : FileError.Reason) (path : Path)
  /-- The device fails while a file is written, which keeps what was written before. -/
  | cutShort (reason : FileError.Reason)
  /-- The path of a file to be opened holds a zero. -/
  | nullByte
  /-- The path for another operation holds a zero. -/
  | nullCharacter (operation : String)
  | surrogate (e : Utf8.EncodeError)
deriving DecidableEq, Repr

namespace FileError

/-- The number of a reason. -/
def Reason.number : Reason → Nat
  | missing => 2
  | alreadyExists => 17
  | notADirectory => 20
  | isADirectory => 21
  | nameTooLong => 36
  | other number _ => number

/-- The wording of a reason. -/
def Reason.message : Reason → String
  | missing => "No such file or directory"
  | alreadyExists => "File exists"
  | notADirectory => "Not a directory"
  | isADirectory => "Is a directory"
  | nameTooLong => "File name too long"
  | other _ wording => wording

/-- Whether a path that cannot be looked up for this reason counts as one where nothing is: besides
missing components these are closed handles and circles of links. -/
def Reason.meansAbsent (reason : Reason) : Bool :=
  [2, 20, 9, 40].contains reason.number

/-- The wording of a failure. -/
def message : FileError → String
  | refused reason path => s!"[Errno {reason.number}] {reason.message}: {path.quoted}"
  | cutShort reason => s!"[Errno {reason.number}] {reason.message}"
  | nullByte => "embedded null byte"
  | nullCharacter operation => s!"{operation}: embedded null character in path"
  | surrogate e => e.message

/-- Whether the failure is one that the system reports, rather than one of the path or the text. -/
def isRefusal : FileError → Bool
  | refused _ _ => true
  | cutShort _ => true
  | _ => false

end FileError

namespace FileTree

/-- The greatest number of bytes in a component. -/
def maxComponent : Nat := 255

/-- The greatest number of bytes in a path. -/
def maxPath : Nat := 4095

/-- What is at a location; the root is a directory. -/
def at? (t : FileTree) (l : Location) : Option Node :=
  if l.isEmpty then some .directory else t.nodes.get? l

/-- Puts something at a location. -/
def put (t : FileTree) (l : Location) (node : Node) : FileTree :=
  { t with nodes := t.nodes.insert l node }

/-- The number of bytes of a name. -/
def byteCount (t : Text) : Nat :=
  match Utf8.encodeName t with
  | .ok bytes => bytes.length
  | .error _ => 0

/-- The location to which a component leads from another one, which has to be a directory. Two dots
lead back. -/
def follow (t : FileTree) (here : Location) (part : Text) : Except FileError.Reason Location :=
  match t.at? here with
  | none => .error .missing
  | some (.file _) => .error .notADirectory
  | some .directory =>
    if part = Text.ofChars ['.', '.'] then .ok here.dropLast
    else if maxComponent < byteCount part then .error .nameTooLong
    else .ok (here ++ [part])

/-- The location to which a path leads; nothing has to be there. -/
def locate (t : FileTree) (p : Path) : Except FileError.Reason Location :=
  if maxPath < byteCount p.text then .error .nameTooLong
  else p.parts.foldlM t.follow (if p.slashes = 0 then t.working else [])

/-- What a path leads to. -/
def find (t : FileTree) (p : Path) : Except FileError.Reason Node := do
  match t.at? (← t.locate p) with
  | some node => return node
  | none => throw .missing

/-- A path that can be handed to the system: without surrogates that stand for no byte, and without
zeros, which are refused as `zero` tells. -/
def checkPath (zero : FileError) (p : Path) : Except FileError Unit :=
  match Utf8.encodeName p.text with
  | .error e => .error (.surrogate e)
  | .ok bytes => if bytes.contains 0 then .error zero else .ok ()

/-- Asks the system for an operation on a path. -/
def permit (t : FileTree) (operation : Operation) (p : Path) : Except FileError.Reason Unit :=
  match t.refusal? t.nodes operation p with
  | some reason => .error reason
  | none => .ok ()

/-- What the system finds at a path. -/
def look (t : FileTree) (p : Path) : Except FileError.Reason Node := do
  t.permit .look p
  t.find p

/-- The answer to a question about what is at a path: nothing counts as no, and so do some reasons
for which the path cannot be looked up. The others are failures. -/
def ask (t : FileTree) (p : Path) (answer : Node → Bool) : Except FileError Bool :=
  match t.look p with
  | .ok node => .ok (answer node)
  | .error reason => if reason.meansAbsent then .ok false else .error (.refused reason p)

/-- Whether something is at a path. -/
def has (t : FileTree) (p : Path) : Except FileError Bool :=
  match checkPath .nullByte p with
  | .error _ => .ok false
  | .ok () => t.ask p fun _ => true

/-- Whether a directory is at a path. -/
def isDirectory (t : FileTree) (p : Path) : Except FileError Bool :=
  match checkPath .nullByte p with
  | .error _ => .ok false
  | .ok () => t.ask p fun node => node = .directory

/-- What a path leads to, if anything is there. -/
def lookUp (t : FileTree) (p : Path) : Except FileError (Option Node) := do
  checkPath (.nullCharacter "stat") p
  return (t.look p).toOption

/-- Whether the system lets a path be read. -/
def isReadable (t : FileTree) (p : Path) : Bool :=
  (t.permit .read p).isOk

/-- The content of the file at a path. -/
def read (t : FileTree) (p : Path) : Except FileError (List UInt8) := do
  checkPath .nullByte p
  match t.permit .read p, t.find p with
  | .error reason, _ => throw (.refused reason p)
  | .ok (), .ok (.file content) => return content
  | .ok (), .ok .directory => throw (.refused .isADirectory p)
  | .ok (), .error reason => throw (.refused reason p)

/-- Puts a content in the place of what a file holds, or makes the file. -/
def write (t : FileTree) (p : Path) (content : List UInt8) : Except FileError FileTree := do
  checkPath .nullByte p
  match t.permit .write p, t.locate p with
  | .error reason, _ => throw (.refused reason p)
  | .ok (), .error reason => throw (.refused reason p)
  | .ok (), .ok l => match t.at? l with
    | some .directory => throw (.refused .isADirectory p)
    | _ => return t.put l (.file content)

/-- Writes a content to a file and then fails. -/
def writeAndFail (t : FileTree) (p : Path) (content : List UInt8) (e : FileError) :
    FileTree × Except FileError Unit :=
  match t.write p content with
  | .ok t => (t, .error e)
  | .error e => (t, .error e)

/-- Writes a text to a file. The file is emptied first. It stays empty if the text holds a
surrogate, and it keeps the beginning of the text if the device fails. -/
def writeText (t : FileTree) (p : Path) (text : Text) : FileTree × Except FileError Unit :=
  match Utf8.encodeText text with
  | .error surrogate => t.writeAndFail p [] (.surrogate surrogate)
  | .ok content => match t.shortage? p content with
    | some (taken, reason) => t.writeAndFail p (content.take taken) (.cutShort reason)
    | none => match t.write p content with
      | .ok t => (t, .ok ())
      | .error e => (t, .error e)

/-- Makes one directory. -/
def makeDirectory (t : FileTree) (p : Path) : Except FileError FileTree := do
  checkPath (.nullCharacter "mkdir") p
  match t.permit .makeDirectory p, t.locate p with
  | .error reason, _ => throw (.refused reason p)
  | .ok (), .error reason => throw (.refused reason p)
  | .ok (), .ok l => match t.at? l with
    | some _ => throw (.refused .alreadyExists p)
    | none => return t.put l .directory

/-- Makes one directory unless it is there. -/
def ensureDirectory (t : FileTree) (p : Path) : Except FileError FileTree :=
  match t.makeDirectory p with
  | .ok t => .ok t
  | .error (.refused .missing path) => .error (.refused .missing path)
  | .error e =>
    if !e.isRefusal then .error e
    else match t.isDirectory p with
      | .ok true => .ok t
      | .ok false => .error e
      | .error unknown => .error unknown

/-- Makes a directory and those above it that are missing, and tells which tree there is then and
whether it failed. -/
def makeDirectories (t : FileTree) (p : Path) : FileTree × Except FileError Unit :=
  match t.ensureDirectory p with
  | .ok t => (t, .ok ())
  | .error e =>
    match e with
    | .refused .missing _ =>
      if _h : p.parts = [] then (t, .error e)
      else
        match t.makeDirectories p.parent with
        | (t, .error e) => (t, .error e)
        | (t, .ok ()) => match t.ensureDirectory p with
          | .ok t => (t, .ok ())
          | .error e => (t, .error e)
    | _ => (t, .error e)
termination_by p.parts.length
decreasing_by
  have := List.length_pos_iff.2 _h
  simp only [Path.parent, List.length_dropLast]
  omega

end FileTree

end SiteRules
