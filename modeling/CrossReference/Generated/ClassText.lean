import CrossReference.Generated.Layout
import CrossReference.Generated.Occurrences
import CrossReference.Text.Lines

/-!
# Generated text of a class

What decompiling one class hands over: its lines, the references found in them and their layout.
-/

namespace CrossReference

/-- The generated text of one class. -/
structure ClassText where
  /-- The class. -/
  subject : Handle
  /-- The lines; the one at index 0 is line 1. -/
  lines : List String
  occurrences : Occurrences
  layout : Layout

/-- The text of a class from unbroken code. -/
def ClassText.ofCode (subject : Handle) (code : String) (occurrences : Occurrences)
    (layout : Layout) : ClassText :=
  ⟨subject, Text.lines code, occurrences, layout⟩

/-- The text of a line; lines count from 1. -/
def lineAt? (lines : List String) (line : UInt32) : Option String :=
  if line = 0 then none else lines[line.toNat - 1]?

end CrossReference
