import CrossReference.Position
import CrossReference.Text.Blank
import CrossReference.Text.Lines

/-!
# Finding positions in a text

`locate` finds a text on a line and `lineStart` the first character of a line that is not blank.
Offsets count bytes of UTF-8.
-/

namespace CrossReference.Text

/-- Bytes of UTF-8 that characters take. -/
def byteLength : List Char → Nat
  | [] => 0
  | c :: rest => c.utf8Size + byteLength rest

/-- Bytes in front of the first place where `needle` stands. -/
def column? (needle : List Char) : List Char → Option Nat
  | [] => if needle.isEmpty then some 0 else none
  | c :: rest =>
    if needle.isPrefixOf (c :: rest) then some 0
    else (column? needle rest).map (c.utf8Size + ·)

/-- Bytes in front of a piece, given the pieces before it: each of them is followed by
a line feed. -/
def bytesBefore : List (List Char) → Nat
  | [] => 0
  | piece :: more => byteLength piece + 1 + bytesBefore more

/-- The piece that is the given line, and the bytes in front of it. -/
def piece? (text : String) (line : UInt32) : Option (Nat × List Char) :=
  if line = 0 then none
  else
    let all := cut text.toList
    let before := line.toNat - 1
    all[before]?.map fun piece => (bytesBefore (all.take before), piece)

/-- The position of the first `needle` on a line, if the line exists and holds one. -/
def locate (text : String) (line : UInt32) (needle : String) : Option Position := do
  let (start, piece) ← piece? text line
  let column ← column? needle.toList piece
  return ⟨UInt64.ofNat (start + column), line⟩

/-- The position of the first character of a line that is not blank; the start of the line if all of
them are. -/
def lineStart (text : String) (line : UInt32) : Option Position := do
  let (_, piece) ← piece? text line
  locate text line (String.ofList (piece.dropWhile isBlank))

end CrossReference.Text
