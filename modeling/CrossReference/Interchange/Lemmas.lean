import CrossReference.Interchange.Basic

/-!
# Reading back

Each reader of the interchange form reads back what the writer of its type wrote.
-/

namespace CrossReference

namespace Json

@[simp] theorem asString?_ofString (text : String) : (ofString text).asString? = some text := rfl

@[simp] theorem asBool?_bool (b : Bool) : (bool b).asBool? = some b := rfl

theorem asNatBelow?_ofNat {bound n : Nat} (h : n < bound) :
    (ofNat n).asNatBelow? bound = some n := by
  simp [ofNat, asNatBelow?, Numeral.natural?, h]

@[simp] theorem asUInt32?_ofNat (n : UInt32) : (ofNat n.toNat).asUInt32? = some n := by
  simp [asUInt32?, asNatBelow?_ofNat n.toNat_lt_size]

@[simp] theorem asUInt64?_ofNat (n : UInt64) : (ofNat n.toNat).asUInt64? = some n := by
  simp [asUInt64?, asNatBelow?_ofNat n.toNat_lt_size]

/-- An object with the members in the order of the fields gives each field its value. -/
theorem fields?_ofMembers (names : List String) (members : List (String × Json)) :
    (ofMembers members).fields? names =
      names.mapM (fieldOf? (members.map fun m => (some m.1, m.2))) := by
  simp [ofMembers, fields?, objectFields?]

theorem openFields?_ofMembers (names : List String) (members : List (String × Json)) :
    (ofMembers members).openFields? names =
      names.mapM (fieldOf? (members.map fun m => (some m.1, m.2))) := by
  simp [ofMembers, openFields?, objectFields?]

end Json

namespace SymbolKind

@[simp] theorem ofJson?_toJson (k : SymbolKind) : ofJson? k.toJson = some k := by
  cases k <;> rfl

end SymbolKind

namespace Symbol

@[simp] theorem ofJson?_toJson (s : Symbol) : ofJson? s.toJson = some s := by
  simp [toJson, ofJson?, Json.fields?_ofMembers, Json.fieldOf?, Json.valuesOf, Json.required]

end Symbol

namespace Handle

@[simp] theorem ofJson?_toJson (h : Handle) : ofJson? h.toJson = some h := by
  simp [toJson, ofJson?]

end Handle

namespace Position

@[simp] theorem ofJson?_toJson (p : Position) : ofJson? p.toJson = some p := by
  simp [toJson, ofJson?, Json.fields?_ofMembers, Json.fieldOf?, Json.valuesOf, Json.required]

/-- A position is an object, so it is never mistaken for a missing one. -/
theorem toJson_ne_null (p : Position) : p.toJson ≠ .null := by
  simp [toJson, Json.ofMembers]

end Position

namespace DeclarationKind

@[simp] theorem ofJson?_toJson (k : DeclarationKind) : ofJson? k.toJson = some k := by
  cases k with
  | classDecl => rfl
  | fieldDecl => rfl
  | methodDecl constructor => cases constructor <;> rfl

end DeclarationKind

namespace Declaration

theorem nullable_ofOption (placement : Option Position) :
    Json.nullable Position.ofJson? (some (Json.ofOption Position.toJson placement)) =
      some placement := by
  cases placement with
  | none => rfl
  | some p =>
    rw [Json.ofOption, Json.nullable, Position.ofJson?_toJson]
    · rfl
    · simp [p.toJson_ne_null]

@[simp] theorem ofJson?_toJson (d : Declaration) : ofJson? d.toJson = some d := by
  simp [toJson, ofJson?, Json.fields?_ofMembers, Json.fieldOf?, Json.valuesOf, Json.required,
    nullable_ofOption]

end Declaration

namespace Comment

@[simp] theorem ofJson?_toJson (c : Comment) : ofJson? c.toJson = some c := by
  simp [toJson, ofJson?, Json.fields?_ofMembers, Json.fieldOf?, Json.valuesOf, Json.required]

end Comment

namespace UsageRecord

@[simp] theorem ofJson?_toJson (r : UsageRecord) : ofJson? r.toJson = some r := by
  simp [toJson, ofJson?, Json.fields?_ofMembers, Json.fieldOf?, Json.valuesOf, Json.required]

end UsageRecord

namespace Publication

@[simp] theorem ofJson?_toJson (m : Publication) : ofJson? m.toJson = some m := by
  cases m <;> rfl

end Publication

namespace UsageSettings

@[simp] theorem ofJson?_toJson (s : UsageSettings) : ofJson? s.toJson = some s := by
  simp [toJson, ofJson?, fieldNames, Json.openFields?_ofMembers, Json.fieldOf?, Json.valuesOf,
    Json.withDefault]

end UsageSettings

namespace BatchSettings

@[simp] theorem ofJson?_toJson (s : BatchSettings) : ofJson? s.toJson = some s := by
  simp [toJson, ofJson?, fieldNames, Json.openFields?_ofMembers, Json.fieldOf?, Json.valuesOf,
    Json.withDefault]

end BatchSettings

namespace CommentSettings

@[simp] theorem ofJson?_toJson (s : CommentSettings) : ofJson? s.toJson = some s := by
  simp [toJson, ofJson?, fieldNames, Json.openFields?_ofMembers, Json.fieldOf?, Json.valuesOf,
    Json.withDefault]

end CommentSettings

namespace Settings

@[simp] theorem ofJson?_toJson (s : Settings) : ofJson? s.toJson = some s := by
  simp [toJson, ofJson?, fieldNames, Json.openFields?_ofMembers, Json.fieldOf?, Json.valuesOf,
    Json.withDefault]

end Settings

end CrossReference
