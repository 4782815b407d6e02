import SiteRules.Proofs.Command.Frame
import SiteRules.Proofs.Yaml.Reading

/-!
# The word of a setting

A setting is given as a word, and the value that is written is the one that the word spells in YAML,
or the word itself if it is not well-formed. There are words that are well-formed and have no value
(`Yaml.Unread`), and words for which the stack does not suffice: with these a run ends in a failure
that is not reported and changes nothing (`Command.execute_set`).
-/

namespace SiteRules

namespace Session

end Session

namespace Command

end Command

end SiteRules
