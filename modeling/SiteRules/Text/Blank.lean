import SiteRules.Text.CodePoint

/-!
# Blank code points

The white space of Unicode, together with the four information separators.
-/

namespace SiteRules

/-- The blank code points, as closed ranges in ascending order. -/
def CodePoint.blankRanges : List (Nat × Nat) :=
  [(0x9, 0xd), (0x1c, 0x20), (0x85, 0x85), (0xa0, 0xa0), (0x1680, 0x1680), (0x2000, 0x200a),
    (0x2028, 0x2029), (0x202f, 0x202f), (0x205f, 0x205f), (0x3000, 0x3000)]

/-- Whether the code point is white space. -/
def CodePoint.isBlank (c : CodePoint) : Bool :=
  c.isIn blankRanges

/-- A text without the blanks at its end. -/
def Text.trimEnd (t : Text) : Text :=
  (t.reverse.dropWhile CodePoint.isBlank).reverse

/-- A text without the blanks at its two ends. -/
def Text.trim (t : Text) : Text :=
  Text.trimEnd (t.dropWhile CodePoint.isBlank)

end SiteRules
