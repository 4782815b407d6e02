import SiteRules.Schema.Scalar
import SiteRules.Stack.Basic
import SiteRules.Store.Order
import SiteRules.Value.Equality
import SiteRules.Value.Rebuild

/-!
# Documents

The form in which a store is kept: a mapping with a version and the records by pattern text.
`Document.read` checks a value and gives the store, `Document.build` also copies the settings, and
`Document.ofStore` gives the value of a store.
-/

namespace SiteRules

/-- A store whose records have names as keys and values as settings. -/
abbrev Sites := Store Text Value

namespace Document

/-- How many mappings of a document are around its settings. -/
def levels : Nat := 3

/-- The version of the form, and the only one that is read. -/
def version : Int := 1

/-- Checks a mapping entry by entry: the key has to be a name, and `readValue` checks the value. -/
def readEntries {α : Type} (readValue : Value → Checked α) (v : Value) :
    Checked (List (Text × α)) :=
  match Schema.readMapping v with
  | .error reason => .error [⟨[], reason⟩]
  | .ok entries => Checked.all (entries.map fun entry =>
      let step := Issue.Step.ofKey entry.1
      Checked.both
        (((Checked.ofReason (Schema.readName entry.1)).under .theKey).under step)
        ((readValue entry.2).under step))

/-- Checks a record, of which the values may be anything. -/
def readRecord (v : Value) : Checked (Record Text Value) :=
  (readEntries Except.ok v).map OrderedMap.ofList

/-- Checks the version. -/
def readVersion (v : Value) : Except Issue.Reason Unit := do
  let n ← Schema.readInteger v
  if n > version then throw (.above version)
  if n < version then throw (.below version)

/-- The names of the parts of a document. -/
def partNames : List Text :=
  [Text.ofString "version", Text.ofString "sites"]

/-- What is wrong with an entry of a document as far as its key goes. -/
def unknownPart (entry : Value × Value) : List Issue :=
  match entry.1.content with
  | .text t => if partNames.contains t then [] else [⟨[.name t], .unknownName⟩]
  | _ => [⟨[.ofKey entry.1], .nameNotText⟩]

/-- Whether the name of an entry holds a surrogate. -/
def hasSurrogateName (entry : Value × Value) : Bool :=
  match entry.1.content with
  | .text t => t.any CodePoint.isSurrogate
  | _ => false

/-- Checks the entries of a document: the version first, then the sites, then that there is nothing
else. -/
def readParts (entries : List (Value × Value)) : Checked (List (Text × Record Text Value)) :=
  let checkedVersion : Checked Unit := match Schema.field? "version" entries with
    | some v => (Checked.ofReason (readVersion v)).under (.name (Text.ofString "version"))
    | none => .ok ()
  let checkedSites : Checked (List (Text × Record Text Value)) :=
    match Schema.field? "sites" entries with
    | some v => (readEntries readRecord v).under (.name (Text.ofString "sites"))
    | none => .ok []
  let others : Checked Unit := match entries.flatMap unknownPart with
    | [] => .ok ()
    | issues => .error issues
  (Checked.both checkedVersion (Checked.both checkedSites others)).map fun parts => parts.2.1

/-- Reads a document; one that is null gives the empty store. -/
def read (v : Value) : Checked Sites :=
  match v.content with
  | .null => .ok .empty
  | .map entries =>
    if entries.any hasSurrogateName then .error [⟨[], .notUtf8⟩]
    else (readParts entries).map fun sites => .ofRecords (OrderedMap.ofList sites).entries
  | _ => .error [⟨[], .notAnInstance "StoreDocument"⟩]

/-- Whether the stack suffices for copying every setting of a store. -/
def canCopy (stack : Stack) (s : Sites) : Bool :=
  s.entries.entries.all fun site =>
    site.2.record.entries.all fun setting => stack.copies setting.2

/-- Why a value gives no store. -/
inductive BuildError where
  | invalid (issues : List Issue)
  /-- The stack does not suffice for copying a setting. -/
  | exhausted
deriving DecidableEq, Repr

/-- The store of a document, with copies of the settings. -/
def build (stack : Stack) (v : Value) : Except BuildError Sites :=
  match read v with
  | .error issues => .error (.invalid issues)
  | .ok s => if canCopy stack s then .ok s else .error .exhausted

/-- A mapping from names to values. -/
def mapping (entries : List (Text × Value)) : Value :=
  .map (entries.map fun entry => (.text entry.1, entry.2))

/-- The value of a record. -/
def ofRecord (r : Record Text Value) : Value :=
  mapping r.entries

/-- The value of records by pattern text. -/
def ofRecords (sites : List (Text × Record Text Value)) : Value :=
  mapping (sites.map fun site => (site.1, ofRecord site.2))

/-- The document of a store, the patterns being ranked or in the order of their writes. The settings
are rebuilt. -/
def ofStore (s : Sites) (ranked : Bool) : Value :=
  let sites := (s.listed ranked).map fun site =>
    (site.1, mapping (site.2.entries.map fun setting => (setting.1, setting.2.rebuild)))
  mapping [(Text.ofString "version", .int version), (Text.ofString "sites", mapping sites)]

/-- The same store with names as keys; each key has to be one. -/
def ofKeyed (s : Store Value Value) : Checked Sites :=
  let readEntry (site : Text × Store.Entry Value Value) :
      Checked (Text × Store.Entry Text Value) :=
    ((readRecord (.map site.2.record.entries)).under (.name site.1)).map
      fun record => (site.1, ⟨record, site.2.seq⟩)
  ((Checked.all (s.entries.entries.map readEntry)).under (.name (Text.ofString "sites"))).map
    fun sites => ⟨OrderedMap.ofList sites, s.next⟩

end Document

end SiteRules
