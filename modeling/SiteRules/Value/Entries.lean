import SiteRules.OrderedMap
import SiteRules.Value.Equality

/-!
# Mappings from entries

A mapping that is read from a document may name a key twice: the key keeps its first place and
gets its last value.
-/

namespace SiteRules.Value

/-- The mapping of entries read one after the other. -/
def ofEntries (entries : List (Value × Value)) : Value :=
  .map (OrderedMap.ofList entries).entries

/-- The set of values read one after the other. -/
def ofMembers (members : List Value) : Value :=
  .set (OrderedMap.ofList (members.map fun v => (v, ()))).keys

end SiteRules.Value
