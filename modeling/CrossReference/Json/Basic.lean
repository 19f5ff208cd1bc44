/-!
# JSON values

A JSON value keeps what its text says: the members of an object in their order, with repetitions,
and a number as it is spelled. A string literal can escape half of a surrogate pair; such a literal
is well formed but denotes no text.

## Main definitions

- `Numeral` — a number as it is spelled
- `Json` — a value
- `Json.ofString`, `Json.ofNat`, `Json.ofMembers` — values from their contents
-/

namespace CrossReference

/-- A number as it is spelled in JSON. -/
structure Numeral where
  negative : Bool
  /-- The digits in front of a fraction or exponent. -/
  whole : Nat
  /-- Fraction and exponent as spelled; empty for an integer. -/
  tail : List Char
deriving DecidableEq

/-- The natural number that a numeral spells as a plain run of digits. -/
def Numeral.natural? (n : Numeral) : Option Nat :=
  if n.negative || !n.tail.isEmpty then none else some n.whole

/-- A JSON value. A string or member name is `none` if its literal denotes no text. -/
inductive Json where
  | null
  | bool (value : Bool)
  | number (value : Numeral)
  | string (text : Option String)
  | array (items : List Json)
  | object (members : List (Option String × Json))

namespace Json

instance : Inhabited Json := ⟨null⟩

def ofString (text : String) : Json := string (some text)

def ofNat (n : Nat) : Json := number ⟨false, n, []⟩

def ofMembers (members : List (String × Json)) : Json :=
  object (members.map fun m => (some m.1, m.2))

def ofList {α : Type} (f : α → Json) (items : List α) : Json := array (items.map f)

/-- An optional value, `null` if there is none. -/
def ofOption {α : Type} (f : α → Json) : Option α → Json
  | some a => f a
  | none => null

end Json

end CrossReference
