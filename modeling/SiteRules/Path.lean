import SiteRules.Text.Lower
import SiteRules.Text.Quoted

/-!
# Paths

The names of files: components between slashes. Empty components and single dots are left out, so
that each path has one form.
-/

namespace SiteRules

/-- A path of components. -/
structure Path where
  /-- How many slashes stand in front: none for a relative path, and two mean another root. -/
  slashes : Nat
  parts : List Text
deriving DecidableEq, Repr

namespace Path

/-- The path that a text spells. -/
def ofText (t : Text) : Path :=
  let leading := (t.takeWhile fun (c : CodePoint) => c = '/').length
  ⟨if leading = 2 then 2 else min leading 1,
    (t.splitAt '/').filter fun part => part ≠ [] && part ≠ [CodePoint.ofChar '.']⟩

/-- The path that a string spells. -/
def ofString (s : String) : Path :=
  ofText (Text.ofString s)

/-- The form of a path; the empty path is a single dot. -/
def text (p : Path) : Text :=
  if p.slashes = 0 && p.parts.isEmpty then [CodePoint.ofChar '.']
  else List.replicate p.slashes (CodePoint.ofChar '/')
    ++ [CodePoint.ofChar '/'].intercalate p.parts

instance : ToString Path := ⟨fun p => p.text.told⟩

/-- The form of a path between quotes. -/
def quoted (p : Path) : String :=
  p.text.quoted

/-- A message with the path that it is about in front of it, if there is one. -/
def label (p : Option Path) (message : String) : String :=
  match p with
  | some p => s!"{p}: {message}"
  | none => message

/-- The path without its last component. -/
def parent (p : Path) : Path :=
  { p with parts := p.parts.dropLast }

/-- The last component. -/
def name (p : Path) : Text :=
  p.parts.getLast?.getD []

/-- What stands behind the last dot of the last component, unless that dot is its first or its last
code point. -/
def suffix (p : Path) : Text :=
  match p.name.cutLast? '.' with
  | some (stem, ending) => if stem.isEmpty || ending.isEmpty then [] else ending
  | none => []

/-- Whether the name of a file says that its content is JSON. -/
def isJson (p : Path) : Bool :=
  p.suffix.lower = Text.ofString "json"

/-- The account named behind the tilde with which a path begins, if it begins with one. -/
def account? (p : Path) : Option Text :=
  match p.slashes, p.parts with
  | 0, (c :: account) :: _ => if c = '~' then some account else none
  | _, _ => none

/-- The path with a home directory in place of a first component that begins with a tilde;
`home?` gives the directory of the account named there. -/
def expandHome (home? : Text → Option Text) (p : Path) : Option Path :=
  match p.account? with
  | some account => (home? account).map fun home =>
    let home := ofText home
    { home with parts := home.parts ++ p.parts.tail }
  | none => some p

end Path

end SiteRules
