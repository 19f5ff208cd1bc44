import CrossReference.Handle
import CrossReference.OrderedMap.Basic
import CrossReference.Position

/-!
# Occurrences

Where the generated text of one class refers to declarations. The occurrences of a class form an
ordered map, so walking over them follows the text, and one position refers to one declaration.
-/

namespace CrossReference

/-- The declarations that the text of one class refers to, by position. -/
abbrev Occurrences := OrderedMap Position Handle

end CrossReference
