import SiteRules.Store.Order
import SiteRules.Value.Equality
import SiteRules.Value.Show

/-!
# Shown stores

The form in which messages show a store: its records in the order of their writes.
-/

namespace SiteRules

/-- A store as messages show it, unless a setting has an integer with too many digits. -/
def Store.show? (s : Store Value Value) : Except Literal.Error String := do
  let sites := s.written.map fun site => (Value.text site.1, Value.map site.2.entries)
  return "SiteSettingsStore(" ++ (← (Value.map sites).show?) ++ ")"

end SiteRules
