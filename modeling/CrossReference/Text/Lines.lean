/-!
# Lines

Two ways of cutting a text at its line feeds. Positions count the *pieces* between line feeds; the
*lines* of a class are its pieces without a carriage return before the line feed, and a line feed at
the very end opens no further line.
-/

namespace CrossReference.Text

/-- The pieces between line feeds; there is one more of them than line feeds. -/
def cut : List Char → List (List Char)
  | [] => [[]]
  | c :: rest =>
    if c = '\n' then [] :: cut rest
    else
      match cut rest with
      | [] => [[c]]
      | piece :: more => (c :: piece) :: more

/-- A piece without the carriage return at its end. -/
def dropReturn (piece : List Char) : List Char :=
  if piece.getLast? = some '\r' then piece.dropLast else piece

/-- Lines from pieces: those that a line feed ended lose a final carriage return, and the last one,
which nothing ended, counts unless it is empty. -/
def linesOfPieces : List (List Char) → List (List Char)
  | [] => []
  | [last] => if last.isEmpty then [] else [last]
  | piece :: more => dropReturn piece :: linesOfPieces more

def lines (text : String) : List String := (linesOfPieces (cut text.toList)).map String.ofList

end CrossReference.Text
