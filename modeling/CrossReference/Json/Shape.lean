import CrossReference.Json.Basic

/-!
# Shapes of JSON values

How the parts of typed values are found in JSON. A record is an object with named fields, or an
array of its fields in order; a variant is a name, or an object with the name as its only member.

## Main definitions

- `Json.asString?`, `Json.asBool?`, `Json.asUInt32?`, `Json.asUInt64?` — scalars
- `Json.fields?` — the fields of a record
- `Json.variant?` — the name and the payload of a variant
-/

namespace CrossReference.Json

/-- The text of a string that denotes one. -/
def asString? : Json → Option String
  | string text => text
  | _ => none

def asBool? : Json → Option Bool
  | bool b => some b
  | _ => none

/-- A natural number below a bound, spelled as a plain run of digits. -/
def asNatBelow? (bound : Nat) : Json → Option Nat
  | number n => do
    let k ← n.natural?
    if k < bound then some k else none
  | _ => none

def asUInt32? (j : Json) : Option UInt32 := (j.asNatBelow? UInt32.size).map UInt32.ofNat

def asUInt64? (j : Json) : Option UInt64 := (j.asNatBelow? UInt64.size).map UInt64.ofNat

/-- The items of an array, each read by `f`. -/
def asList? {α : Type} (f : Json → Option α) : Json → Option (List α)
  | array items => items.mapM f
  | _ => none

/-- The values that members give to a field. -/
def valuesOf (field : String) (members : List (Option String × Json)) : List Json :=
  members.filterMap fun m => if m.1 = some field then some m.2 else none

/-- The value of a field, which must not be given twice. -/
def fieldOf? (members : List (Option String × Json)) (field : String) : Option (Option Json) :=
  match valuesOf field members with
  | [] => some none
  | [value] => some (some value)
  | _ => none

/-- The values of fields. Member names have to denote texts, a field must not be given twice, and
members that are no fields are ignored. -/
def objectFields? (fields : List String) (members : List (Option String × Json)) :
    Option (List (Option Json)) :=
  if members.all (·.1.isSome) then fields.mapM (fieldOf? members) else none

/-- The values of fields from an array of them in order; the last ones may be missing. -/
def arrayFields? (fields : List String) (items : List Json) : Option (List (Option Json)) :=
  if items.length ≤ fields.length then
    some (items.map some ++ List.replicate (fields.length - items.length) none)
  else none

/-- The fields of a record whose fields may all be missing. -/
def openFields? (fields : List String) : Json → Option (List (Option Json))
  | object members => objectFields? fields members
  | array items => arrayFields? fields items
  | _ => none

/-- The fields of a record; as an array it has to have all of them. -/
def fields? (fields : List String) : Json → Option (List (Option Json))
  | object members => objectFields? fields members
  | array items => if items.length = fields.length then some (items.map some) else none
  | _ => none

/-- The name of a variant and its payload: a string has none, an object has the value of
its only member. -/
def variant? : Json → Option (String × Option Json)
  | string (some name) => some (name, none)
  | object [(some name, payload)] => some (name, some payload)
  | _ => none

/-- The name of a variant without contents; as an object it has the payload `null`. -/
def unitVariant? (j : Json) : Option String :=
  match j.variant? with
  | some (name, none) | some (name, some null) => some name
  | _ => none

/-- Reads a field that has to be there. -/
def required {α : Type} (f : Json → Option α) : Option Json → Option α
  | some value => f value
  | none => none

/-- Reads a field that has a default. -/
def withDefault {α : Type} (f : Json → Option α) (default : α) : Option Json → Option α
  | some value => f value
  | none => some default

/-- Reads a field that may be missing or `null`. -/
def nullable {α : Type} (f : Json → Option α) : Option Json → Option (Option α)
  | some null | none => some none
  | some value => (f value).map some

end CrossReference.Json
