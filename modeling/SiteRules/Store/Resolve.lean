import SiteRules.Pattern.Coverage
import SiteRules.Pattern.Match
import SiteRules.Pattern.Parser
import SiteRules.Pattern.Specificity
import SiteRules.Store.Basic
import SiteRules.Url.Parser

/-!
# Resolution

The settings in effect for a URL, and those that a pattern has or inherits. Both lay records over
one another, from the least to the most specific pattern and from the earlier to the later write.
-/

namespace SiteRules.Store

variable {κ ν : Type} [BEq κ]

/-- A record with the specificity of its pattern and the number of its last write. -/
structure Layer (κ ν : Type) [BEq κ] where
  specificity : Specificity
  seq : Nat
  record : Record κ ν

/-- Whether a layer lies under another one or at its height. -/
def Layer.under (a b : Layer κ ν) : Bool :=
  a.specificity.weight < b.specificity.weight
    || (a.specificity.weight = b.specificity.weight && a.seq ≤ b.seq)

/-- The records of the layers laid over one another, if there are any. -/
def stack (layers : List (Layer κ ν)) : Option (Record κ ν) :=
  match layers.mergeSort Layer.under with
  | [] => none
  | sorted => some (sorted.foldl (fun result layer => result.overlay layer.record) .empty)

/-- The layer of an entry whose pattern satisfies a condition. -/
def layer? (condition : Pattern → Bool) (entry : Text × Entry κ ν) : Option (Layer κ ν) :=
  match Pattern.parse? entry.1 with
  | some p => if condition p then some ⟨p.specificity, entry.2.seq, entry.2.record⟩ else none
  | none => none

/-- The layers of the patterns that apply to a URL. -/
def layersFor (s : Store κ ν) (url : Url) : List (Layer κ ν) :=
  s.entries.entries.filterMap (layer? fun p => p.accepts url)

/-- The settings in effect for a URL text, if it is a URL and a pattern applies to it. -/
def resolveUrl (s : Store κ ν) (source : Text) : Option (Record κ ν) :=
  match Url.parse? source with
  | none => none
  | some url => stack (s.layersFor url)

/-- The layers of the ancestors of a pattern: other stored patterns that cover it and are no more
specific than it is. -/
def ancestors (s : Store κ ν) (source : Text) (target : Pattern) : List (Layer κ ν) :=
  (s.entries.entries.filter fun entry => entry.1 ≠ source).filterMap
    (layer? fun p => decide (p.specificity ≤ target.specificity) && p.covers target)

/-- The settings of a pattern text laid over those of its ancestors, if there are any. -/
def resolvePattern (s : Store κ ν) (source : Text) : Option (Record κ ν) :=
  let inherited := match Pattern.parse? source with
    | none => none
    | some target => stack (s.ancestors source target)
  match s.get? source with
  | none => inherited
  | some own => some ((inherited.getD .empty).overlay own)

end SiteRules.Store
