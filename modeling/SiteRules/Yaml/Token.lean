import SiteRules.Text.CodePoint

/-!
# Tokens

The tokens of a YAML text. The nesting that indentation expresses is spelled out by tokens of its
own, so that a sequence of tokens can be read without regard to lines.
-/

namespace SiteRules.Yaml

/-- The instructions in front of a document. -/
inductive Directive where
  | version (major minor : Nat)
  | tagHandle (handle expansion : Text)
  | other
deriving DecidableEq, Repr

/-- A tag as it is spelled: a handle that stands for an expansion, and a suffix. -/
structure SpelledTag where
  handle : Option Text
  suffix : Text
deriving DecidableEq, Repr

/-- The tokens. -/
inductive Token where
  | directive (d : Directive)
  | documentStart
  | documentEnd
  | streamEnd
  | blockSequenceStart
  | blockMappingStart
  | blockEnd
  | flowSequenceStart
  | flowSequenceEnd
  | flowMappingStart
  | flowMappingEnd
  | blockEntry
  | flowEntry
  | key
  | value
  | alias (name : List Char)
  | anchor (name : List Char)
  | tag (t : SpelledTag)
  | scalar (plain : Bool) (content : Text)
deriving DecidableEq, Repr

end SiteRules.Yaml
