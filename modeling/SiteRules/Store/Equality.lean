import SiteRules.Store.Basic

/-!
# Equality of stores

Two stores are equal when they hold the same patterns with equal records, whatever the order of
the writes.
-/

namespace SiteRules

variable {κ ν : Type} [BEq κ]

/-- Whether two records hold the same settings. -/
def Record.same [BEq ν] (a b : Record κ ν) : Bool :=
  OrderedMap.same (· == ·) a b

/-- Whether two stores hold the same settings for the same patterns. -/
def Store.same [BEq ν] (a b : Store κ ν) : Bool :=
  OrderedMap.same (fun x y => Record.same x.record y.record) a.entries b.entries

instance [BEq ν] : BEq (Store κ ν) := ⟨Store.same⟩

end SiteRules
