import CrossReference.Index.Record

/-!
# Failures

The errors of the parts of the library under one roof. A failure shows the text of the error inside
it after a word on where it comes from.
-/

namespace CrossReference

/-- Any error of the library. -/
inductive Failure where
  | indexing (error : IndexingError)
  | settings (error : SettingsError)
  | program (error : ProgramError)
deriving DecidableEq

namespace Failure

/-- The text of the error inside a failure. -/
def detail : Failure → String
  | indexing e => e.message
  | settings e => e.message
  | program e => e.message

def message : Failure → String
  | indexing e => "Indexing error: " ++ e.message
  | settings e => "Configuration error: " ++ e.message
  | program e => "Program graph error: " ++ e.message

/-- The program error that made a pass fail. -/
def cause? : Failure → Option ProgramError
  | indexing (.unresolved _ cause) | indexing (.aborted _ cause) => some cause
  | indexing (.lineOutOfRange _ _) | settings _ | program _ => none

/-- The texts of a failure from the outside in: its own, that of the error inside it, and that of
the program error which made a pass fail. -/
def chain (f : Failure) : List String :=
  [f.message, f.detail] ++ f.cause?.toList.map (·.message)

end Failure

end CrossReference
