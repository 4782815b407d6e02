import SiteRules.Text.CodePoint

/-!
# Compatibility separators

Some code points turn into the separators of a URL when a text is put into compatibility
normal form (NFKC), and so can make an authority read differently from how it looks.
-/

namespace SiteRules.CodePoint

/-- The code points past basic Latin whose compatibility form holds one of `/ ? # @ :`. -/
def compatibilitySeparators : List Nat :=
  [0x2047, 0x2048, 0x2049, 0x2100, 0x2101, 0x2105, 0x2106, 0x2a74, 0xfe13, 0xfe16, 0xfe55, 0xfe56,
    0xfe5f, 0xfe6b, 0xff03, 0xff0f, 0xff1a, 0xff1f, 0xff20]

/-- Whether normalising the code point brings out a URL separator. -/
def hidesSeparator (c : CodePoint) : Bool :=
  compatibilitySeparators.contains c.val

end SiteRules.CodePoint
