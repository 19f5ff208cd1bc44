import CrossReference.Toml.Scalar

/-!
# TOML documents

Keys, nested values, and the lines of a document, which fall into sections: assignments, each
section but the first under a header.

## Main definitions

- `Toml.value` — a value, nested to a bounded depth
- `Toml.line` — a line of a document
- `Toml.parse?` — the tables of a document
-/

namespace CrossReference.Toml

open Reader

/-- Keys and values nest less deep than this. -/
def nestingLimit : Nat := 80

/-! ## Keys -/

/-- Whether a character may stand in a key without quotes. -/
def isKeyChar (c : Char) : Bool := c.isAlphanum || c == '_' || c == '-'

/-- A key without dots. -/
def simpleKey : Reader String :=
  basicString <|> literalString <|> String.ofList <$> span1 isKeyChar

/-- A key, which may be dotted: the path in front of the last dot, and the rest. -/
def key : Reader (List String × String) := do
  let keys ← separated (do spaces; let k ← simpleKey; spaces; return k) (word ".")
  if nestingLimit ≤ keys.length then failure
  match keys.getLast? with
  | some last => return (keys.dropLast, last)
  | none => failure

/-- A key, an equals sign and a value. -/
def assignment (value : Reader Node) : Reader Assignment := do
  let (path, last) ← key
  word "="
  spaces
  return ⟨path, last, ← value⟩

/-! ## Values -/

/-- The values of an array and its closing bracket; a comma may follow the last value. -/
def arrayItems (value : Reader Node) : Reader (List Node) := do
  let items ← maybe do
    let items ← separated (do gap; let v ← value; gap; return v) (word ",")
    let _ ← maybe (word ",")
    return items
  gap
  word "]"
  return items.getD []

/-- The assignments in braces and the closing brace; no comma may follow the last one. -/
def braced (value : Reader Node) : Reader (List Assignment) := do
  let assignments ← maybe (separated (do let a ← assignment value; spaces; return a) (word ","))
  spaces
  word "\x7d"
  return assignments.getD []

/-- A value in which arrays and braces nest at most to the given depth. -/
def value : Nat → Reader Node
  | 0 => scalar
  | depth + 1 => do
    match (← get).head? with
    | some '[' =>
      word "["
      return .array (← arrayItems (value depth))
    | some '{' =>
      word "\x7b"
      match assignAll? [] (← braced (value depth)) with
      | some entries => return .table .braces entries
      | none => failure
    | _ => scalar

/-! ## Lines -/

/-- A line of a document. -/
inductive Line where
  | blank
  | assignment (assignment : Assignment)
  | header (path : List String) (key : String)
  | arrayHeader (path : List String) (key : String)

/-- A header, with the rest of its line. -/
def header : Reader Line :=
  (do word "[["
      let (path, last) ← key
      word "]]"
      lineRest
      return .arrayHeader path last)
  <|>
  (do word "["
      let (path, last) ← key
      word "]"
      lineRest
      return .header path last)

/-- A line of a document; the last one may end with the text. -/
def line : Reader Line := do
  match (← get).head? with
  | some '#' =>
    comment
    newline <|> atEnd
    return .blank
  | some '[' => header
  | some '\n' | some '\r' =>
    newline
    return .blank
  | _ =>
    let a ← assignment (value (nestingLimit - 1))
    lineRest
    return .assignment a

/-- The lines of a document; a byte order mark may stand in front. -/
def document : Reader (List Line) := do
  let _ ← maybe (word "\uFEFF")
  spaces
  many (do let l ← line; spaces; return l)

/-! ## Sections -/

/-- A header with the assignments under it. -/
structure Section where
  /-- Whether the header adds to an array of tables. -/
  repeated : Bool
  path : List String
  key : String
  assignments : List Assignment

/-- Splits lines into the assignments before the first header and the sections. -/
def sections : List Line → List Assignment × List Section
  | [] => ([], [])
  | .blank :: rest => sections rest
  | .assignment a :: rest =>
    let (front, later) := sections rest
    (a :: front, later)
  | .header path key :: rest =>
    let (front, later) := sections rest
    ([], ⟨false, path, key, front⟩ :: later)
  | .arrayHeader path key :: rest =>
    let (front, later) := sections rest
    ([], ⟨true, path, key, front⟩ :: later)

/-- Adds a section to the tables of a document. -/
def addSection? (root : Entries) (s : Section) : Option Entries :=
  if s.repeated then pushTable? root s.path s.key s.assignments
  else openTable? root s.path s.key s.assignments

def parse? (text : String) : Option Entries := do
  let (front, later) := sections (← readAll? document text)
  later.foldlM addSection? (← assignAll? [] front)

end CrossReference.Toml
