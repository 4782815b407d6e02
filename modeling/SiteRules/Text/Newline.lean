/-!
# Line ends

Text read from a file has one kind of line end: a carriage return, alone or before a line feed,
reads as a line feed.
-/

namespace SiteRules

/-- The characters with every line end turned into a line feed. -/
def foldNewlines : List Char → List Char
  | [] => []
  | '\r' :: '\n' :: rest => '\n' :: foldNewlines rest
  | '\r' :: rest => '\n' :: foldNewlines rest
  | c :: rest => c :: foldNewlines rest

end SiteRules
