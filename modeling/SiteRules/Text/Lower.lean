import SiteRules.Text.CodePoint
import SiteRules.Text.Lower.Table

/-!
# Lower case

The full lower-case mapping of texts. Two mappings are not letter for letter: the dotted capital I
becomes two code points, and a capital sigma becomes the final form at the end of a word.
-/

namespace SiteRules

namespace CodePoint

/-- A cased code point that ends the search for the context of a sigma. -/
def isCased (c : CodePoint) : Bool :=
  c.isIn casedRanges

/-- A code point that is skipped in the search for the context of a sigma. -/
def isCaseIgnorable (c : CodePoint) : Bool :=
  c.isIn caseIgnorableRanges

/-- The lower-case form of a code point that has one of its own, whatever its context. -/
def lower (c : CodePoint) : Text :=
  if 0x41 ≤ c.val && c.val ≤ 0x5a then [ofNat (c.val + 0x20)]
  else if c.isBasicLatin then [c]
  else if c.val = 0x130 then [(ofNat 0x69), (ofNat 0x307)]
  else match caseRuns.findSome? fun run => run.lower? c.val with
    | some n => [ofNat n]
    | none => [c]

end CodePoint

namespace Text

/-- Whether the first code point that is not ignored for case is cased. -/
def opensCased (t : Text) : Bool :=
  match t.dropWhile CodePoint.isCaseIgnorable with
  | [] => false
  | c :: _ => c.isCased

/-- The lower-case form of a text that follows `before`, which is given in reverse order. -/
def lowerAfter (before : Text) : Text → Text
  | [] => []
  | c :: rest =>
    let head :=
      if c.val = 0x3a3 then
        if opensCased before && !opensCased rest then [CodePoint.ofNat 0x3c2]
        else [CodePoint.ofNat 0x3c3]
      else c.lower
    head ++ lowerAfter (c :: before) rest

/-- The lower-case form of a text. -/
def lower (t : Text) : Text :=
  lowerAfter [] t

end Text

end SiteRules
