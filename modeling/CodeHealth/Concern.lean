import CodeHealth.Assoc
import CodeHealth.Text.LowerCase

/-!
# Concerns

A taxonomy names concerns and the words that give them away. A text has a concern if one of its
words occurs anywhere in the lower-case text.
-/

namespace CodeHealth

/-- Concerns with their words, in order. -/
abbrev Taxonomy := List (Text × List Text)

namespace Taxonomy

def standard : Taxonomy :=
  [("data", ["data", "database", "query", "save", "load"]),
   ("ui", ["ui", "view", "render", "display", "button"]),
   ("business", ["business", "logic", "calculate", "process"]),
   ("validation", ["validate", "check", "error", "invalid"]),
   ("communication", ["email", "send", "http", "api", "network"])].map
    fun (tag, words) => (tag.toList, words.map String.toList)

/-- The taxonomy that pairs of concerns and words give; none at all give the standard one. -/
def ofPairs (pairs : List (Text × List Text)) : Taxonomy :=
  if pairs.isEmpty then standard else Assoc.ofList pairs

/-- The concerns of a text, in the order of the taxonomy. -/
def concerns (x : Taxonomy) (t : Text) : List Text :=
  let low := t.lower
  (x.filter fun (_, words) => words.any low.contains).map Prod.fst

end Taxonomy

end CodeHealth
