import CrossReference.Generated.ClassText
import CrossReference.Settings.Basic

/-!
# Usage records

A record is one place in generated text that refers to a declaration. The records of one declaration
form a bucket. A pass over a class ends with an outcome, a retraction with a tally.
-/

namespace CrossReference

/-- One textual occurrence of a reference. -/
structure UsageRecord where
  /-- The innermost declaration around the occurrence. -/
  within : Symbol
  /-- The top-level class whose pass made the record. -/
  unit : Symbol
  /-- The whole line. -/
  text : String
  /-- The line; the first one is 1. -/
  line : UInt32
  /-- The byte at which the reference starts. -/
  offset : UInt64
deriving DecidableEq

/-- Records are ordered by their fields, from the first to the last. -/
instance : Ord UsageRecord :=
  ⟨compareLex (compareOn UsageRecord.within) (compareLex (compareOn UsageRecord.unit)
    (compareLex (compareOn UsageRecord.text) (compareLex (compareOn UsageRecord.line)
      (compareOn UsageRecord.offset))))⟩

/-- The records of one declaration. -/
structure Bucket where
  /-- The top-level class around the declaration; the bucket goes when that class is retracted. -/
  owner : Symbol
  /-- The records in the order of filing. -/
  records : List UsageRecord
deriving DecidableEq

/-- Why an occurrence or a class was not indexed. -/
inductive IndexingError where
  /-- The class that the pass was started for has no top-level class symbol. -/
  | unresolved (subject : Handle) (cause : ProgramError)
  /-- The pass over a class was given up. -/
  | aborted (unit : Symbol) (cause : ProgramError)
  /-- An occurrence names a line that the text does not have. -/
  | lineOutOfRange (line : UInt32) (available : Nat)
deriving DecidableEq

def IndexingError.message : IndexingError → String
  | unresolved subject cause =>
    "Usage indexing failed for class node " ++ subject.display ++ ": " ++ cause.message
  | aborted unit cause =>
    "Usage indexing failed for class " ++ unit.display ++ ": " ++ cause.message
  | lineOutOfRange line available =>
    "Line " ++ toString line.toNat ++ " out of range (" ++ toString available ++ " lines available)"

/-- An occurrence that a pass left out, and why. -/
structure Skipped where
  position : Position
  reason : IndexingError
deriving DecidableEq

/-- How a pass over a class ended. -/
inductive Outcome where
  /-- Every occurrence was processed. -/
  | complete (records : Nat)
  /-- Some occurrences were left out, the others processed. -/
  | incomplete (records : Nat) (skipped : List Skipped)
  /-- The pass was given up after publishing some records. -/
  | failed (published : Nat) (error : IndexingError)
deriving DecidableEq

namespace Outcome

/-- Number of records that reached the index. -/
def records : Outcome → Nat
  | complete n => n
  | incomplete n _ => n
  | failed n _ => n

/-- Whether the pass was given up. -/
def isFailed : Outcome → Bool
  | failed _ _ => true
  | complete _ | incomplete _ _ => false

/-- Whether the pass processed every occurrence. -/
def isComplete : Outcome → Bool
  | complete _ => true
  | incomplete _ _ | failed _ _ => false

/-- Whether the pass came to its end but left occurrences out. -/
def isIncomplete : Outcome → Bool
  | incomplete _ _ => true
  | complete _ | failed _ _ => false

end Outcome

/-- What a retraction removed. -/
structure Tally where
  buckets : Nat := 0
  records : Nat := 0
deriving DecidableEq

/-- What several removals amount to. -/
def Tally.sum : List Tally → Tally
  | [] => {}
  | t :: rest =>
    let later := Tally.sum rest
    ⟨t.buckets + later.buckets, t.records + later.records⟩

end CrossReference
