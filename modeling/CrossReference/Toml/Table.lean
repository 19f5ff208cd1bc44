/-!
# TOML values and tables

A TOML document is a tree of tables. How a table came about decides who may add to it: a table that
only a longer header or a dotted key implied is still open, one with a header of its own or in
braces is closed.

## Main definitions

- `Toml.Node` — a value, a table or an array of tables
- `Toml.Origin` — how a table came about
- `Toml.assign?` — gives a key, dotted or not, its value
- `Toml.openTable?`, `Toml.pushTable?` — what a header `[key]` or `[[key]]` does
-/

namespace CrossReference.Toml

/-- How a table came about. -/
inductive Origin where
  /-- It has a header of its own. -/
  | header
  /-- A header below it implies it. -/
  | path
  /-- A dotted key implies it. -/
  | dottedKey
  /-- It is written in braces. -/
  | braces
deriving DecidableEq

/-- Whether a table is merely implied by something below it. -/
def Origin.isImplied : Origin → Bool
  | path | dottedKey => true
  | header | braces => false

/-- A TOML value. Floats and dates are kept as they are spelled. -/
inductive Node where
  | text (value : String)
  | integer (value : Int)
  | float (spelling : String)
  | boolean (value : Bool)
  | datetime (spelling : String)
  | array (items : List Node)
  | table (origin : Origin) (entries : List (String × Node))
  /-- An array of tables made by headers. -/
  | tables (elements : List (List (String × Node)))

instance : Inhabited Node := ⟨.boolean false⟩

abbrev Entries := List (String × Node)

/-- Gives a key a value, in the place of an earlier one or at the end. -/
def Entries.set (entries : Entries) (key : String) (value : Node) : Entries :=
  match entries with
  | [] => [(key, value)]
  | (k, v) :: rest => if k = key then (k, value) :: rest else (k, v) :: Entries.set rest key value

def Entries.add? (entries : Entries) (key : String) (value : Node) : Option Entries :=
  if (entries.lookup key).isSome then none else some (entries ++ [(key, value)])

/-- Follows a path of keys down through tables and updates the entries at its end. A missing table
is made with the given origin; a table on the way is entered if `mayEnter` allows it; of an array of
tables the last one is entered. -/
def descend? (fresh : Origin) (mayEnter : Origin → Bool)
    (update : Origin → Entries → Option Entries) : List String → Origin → Entries → Option Entries
  | [], origin, entries => update origin entries
  | key :: keys, _, entries =>
    match entries.lookup key with
    | none => do
      let inner ← descend? fresh mayEnter update keys fresh []
      return entries ++ [(key, .table fresh inner)]
    | some (.table origin inner) =>
      if mayEnter origin then do
        let inner ← descend? fresh mayEnter update keys origin inner
        return entries.set key (.table origin inner)
      else none
    | some (.tables elements) => do
      let inner ← descend? fresh mayEnter update keys .header (← elements.getLast?)
      return entries.set key (.tables (elements.dropLast ++ [inner]))
    | some _ => none

/-- Gives a key its value in the table at the end of a path of keys. A dotted key adds only to
tables that dotted keys made, and a plain one only to the table itself. -/
def assign? (entries : Entries) (path : List String) (key : String) (value : Node) :
    Option Entries :=
  descend? .dottedKey Origin.isImplied
    (fun origin inner =>
      if (origin = .dottedKey) ↔ path.isEmpty then none else Entries.add? inner key value)
    path .header entries

/-- A key, which may be dotted, with its value. -/
structure Assignment where
  path : List String
  key : String
  value : Node

def assignAll? (entries : Entries) (assignments : List Assignment) : Option Entries :=
  assignments.foldlM (fun entries a => assign? entries a.path a.key a.value) entries

/-- Fills the table of a header `[path.key]`. The table may have been implied before, but must not
have been written before. -/
def openTable? (root : Entries) (path : List String) (key : String)
    (assignments : List Assignment) : Option Entries :=
  descend? .path (· ≠ .braces)
    (fun _ entries => do
      let known ← match entries.lookup key with
        | none => some []
        | some (.table .path known) => some known
        | some _ => none
      let filled ← assignAll? known assignments
      return entries.set key (.table .header filled))
    path .header root

/-- Adds a table to the array of tables of a header `[[path.key]]`. -/
def pushTable? (root : Entries) (path : List String) (key : String)
    (assignments : List Assignment) : Option Entries :=
  descend? .path (· ≠ .braces)
    (fun _ entries => do
      let known ← match entries.lookup key with
        | none => some []
        | some (.tables known) => some known
        | some _ => none
      let filled ← assignAll? [] assignments
      return entries.set key (.tables (known ++ [filled])))
    path .header root

end CrossReference.Toml
