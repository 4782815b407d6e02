import SiteRules.OrderedMap
import SiteRules.Text.CodePoint

/-!
# Stores

A store keeps a record of settings for each pattern text and remembers in which order the patterns
were last written. Every write gives a new store.
-/

namespace SiteRules

/-- The settings that belong to a pattern. -/
abbrev Record (κ ν : Type) [BEq κ] := OrderedMap κ ν

/-- A record with the number of the write that last changed it. -/
structure Store.Entry (κ ν : Type) [BEq κ] where
  record : Record κ ν
  seq : Nat

/-- Records by pattern text, in the order in which the patterns first appeared, and the number of
the next write. -/
structure Store (κ ν : Type) [BEq κ] where
  entries : OrderedMap Text (Store.Entry κ ν)
  next : Nat

namespace Store

variable {κ ν : Type} [BEq κ]

/-- The store without patterns. -/
def empty : Store κ ν := ⟨.empty, 0⟩

instance : Inhabited (Store κ ν) := ⟨empty⟩

/-- The entries of records numbered from `n` on. -/
def number (n : Nat) : List (Text × Record κ ν) → List (Text × Entry κ ν)
  | [] => []
  | (pattern, record) :: rest => (pattern, ⟨record, n⟩) :: number (n + 1) rest

/-- The store that holds the given records, as if they had been written in this order. -/
def ofRecords (records : List (Text × Record κ ν)) : Store κ ν :=
  let entries := OrderedMap.ofList (number 0 records)
  ⟨entries, entries.size⟩

/-- The store that is seeded with a mapping, of which the keys may be of any type: each record is
kept under the text that `spell` gives to its key. -/
def ofMapping {α : Type} (spell : α → Text) (sites : List (α × Record κ ν)) : Store κ ν :=
  ofRecords (sites.map fun site => (spell site.1, site.2))

/-- The number of patterns. -/
def size (s : Store κ ν) : Nat :=
  s.entries.size

/-- The record of a pattern text, looked up as it is spelled. -/
def get? (s : Store κ ν) (pattern : Text) : Option (Record κ ν) :=
  (s.entries.get? pattern).map Entry.record

/-- Whether a pattern text has a record. -/
def contains (s : Store κ ν) (pattern : Text) : Bool :=
  s.entries.contains pattern

/-- Writes one setting of a pattern. Its other settings stay, and the pattern becomes the latest
written one. -/
def merge (s : Store κ ν) (pattern : Text) (key : κ) (value : ν) : Store κ ν :=
  let record := (s.get? pattern).getD .empty
  ⟨s.entries.insert pattern ⟨record.insert key value, s.next⟩, s.next + 1⟩

end Store

end SiteRules
