import SiteRules.Pattern.Parser
import SiteRules.Pattern.Specificity
import SiteRules.Store.Basic

/-!
# Orders of a store

The patterns of a store in the order of their writes, and ranked by specificity, where a later
write counts as more specific among equals. Texts that are no patterns rank below all patterns.
-/

namespace SiteRules.Store

variable {κ ν : Type} [BEq κ]

/-- The rank of a pattern text: zero for a text that is no pattern. -/
def rank (pattern : Text) : Nat :=
  match Pattern.parse? pattern with
  | none => 0
  | some p => p.specificity.weight + 1

/-- Whether a rank with a write number comes at or before another one. -/
def notAfter (a b : Nat × Nat) : Bool :=
  a.1 < b.1 || (a.1 = b.1 && a.2 ≤ b.2)

/-- The position of an entry: the rank of its pattern, then the number of its write. -/
def position (entry : Text × Entry κ ν) : Nat × Nat :=
  (rank entry.1, entry.2.seq)

/-- The records by pattern text, in the order in which the patterns were last written. -/
def written (s : Store κ ν) : List (Text × Record κ ν) :=
  (s.entries.entries.mergeSort fun a b => a.2.seq ≤ b.2.seq).map fun e => (e.1, e.2.record)

/-- The records by pattern text, from least to most specific. -/
def ranked (s : Store κ ν) : List (Text × Record κ ν) :=
  (s.entries.entries.mergeSort fun a b => notAfter (position a) (position b)).map
    fun e => (e.1, e.2.record)

/-- The pattern texts from most to least specific. -/
def patterns (s : Store κ ν) : List Text :=
  (s.entries.entries.mergeSort fun a b => notAfter (position b) (position a)).map Prod.fst

/-- The records in the order asked for. -/
def listed (s : Store κ ν) (byRank : Bool) : List (Text × Record κ ν) :=
  if byRank then s.ranked else s.written

end SiteRules.Store
