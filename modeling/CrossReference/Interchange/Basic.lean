import CrossReference.Annotation.Store
import CrossReference.Json.Shape

/-!
# Interchange

The JSON form of the values that leave and enter the library. Each type has a writer `toJson` and a
reader `ofJson?`, which reads back what the writer wrote. Records name their fields; a reader
ignores other members and also takes an array of the fields in order.
-/

namespace CrossReference

open Json (ofString ofNat ofMembers ofOption required withDefault nullable)

namespace SymbolKind

def toJson (k : SymbolKind) : Json := ofString k.word

def ofJson? (j : Json) : Option SymbolKind := j.unitVariant?.bind ofWord?

end SymbolKind

namespace Symbol

def toJson (s : Symbol) : Json :=
  ofMembers [("kind", s.kind.toJson), ("declaring_class", ofString s.className),
    ("member_signature", ofString s.signature)]

def ofJson? (j : Json) : Option Symbol := do
  match ← j.fields? ["kind", "declaring_class", "member_signature"] with
  | [kind, className, signature] =>
    return ⟨← required SymbolKind.ofJson? kind, ← required Json.asString? className,
      ← required Json.asString? signature⟩
  | _ => none

end Symbol

namespace Handle

def toJson (h : Handle) : Json := ofNat h.index.toNat

def ofJson? (j : Json) : Option Handle := j.asUInt32?.map Handle.mk

end Handle

namespace Position

def toJson (p : Position) : Json :=
  ofMembers [("raw_offset", ofNat p.offset.toNat), ("line", ofNat p.line.toNat)]

def ofJson? (j : Json) : Option Position := do
  match ← j.fields? ["raw_offset", "line"] with
  | [offset, line] => return ⟨← required Json.asUInt64? offset, ← required Json.asUInt32? line⟩
  | _ => none

end Position

namespace DeclarationKind

/-- A class or a field is its word, a method is a variant with one field. -/
def toJson : DeclarationKind → Json
  | classDecl => ofString "Class"
  | fieldDecl => ofString "Field"
  | methodDecl constructor =>
    ofMembers [("Method", ofMembers [("constructor", .bool constructor)])]

def ofJson? (j : Json) : Option DeclarationKind := do
  match ← j.variant? with
  | ("Class", none) | ("Class", some .null) => return classDecl
  | ("Field", none) | ("Field", some .null) => return fieldDecl
  | ("Method", some payload) =>
    match ← payload.fields? ["constructor"] with
    | [constructor] => return methodDecl (← required Json.asBool? constructor)
    | _ => none
  | _ => none

end DeclarationKind

namespace Declaration

def toJson (d : Declaration) : Json :=
  ofMembers [("id", d.handle.toJson), ("kind", d.kind.toJson), ("name", ofString d.name),
    ("descriptor", ofString d.descriptor), ("declaration", ofOption Position.toJson d.placement)]

def ofJson? (j : Json) : Option Declaration := do
  match ← j.fields? ["id", "kind", "name", "descriptor", "declaration"] with
  | [handle, kind, name, descriptor, placement] =>
    return ⟨← required Handle.ofJson? handle, ← required DeclarationKind.ofJson? kind,
      ← required Json.asString? name, ← required Json.asString? descriptor,
      ← nullable Position.ofJson? placement⟩
  | _ => none

end Declaration

namespace Comment

def toJson (c : Comment) : Json :=
  ofMembers [("target", c.target.toJson), ("offset", ofNat c.instruction.toNat),
    ("text", ofString c.text)]

def ofJson? (j : Json) : Option Comment := do
  match ← j.fields? ["target", "offset", "text"] with
  | [target, instruction, text] =>
    return ⟨← required Symbol.ofJson? target, ← required Json.asUInt32? instruction,
      ← required Json.asString? text⟩
  | _ => none

end Comment

namespace UsageRecord

def toJson (r : UsageRecord) : Json :=
  ofMembers [("referencing_node", r.within.toJson), ("unit", r.unit.toJson),
    ("line_text", ofString r.text), ("line_number", ofNat r.line.toNat),
    ("raw_offset", ofNat r.offset.toNat)]

def ofJson? (j : Json) : Option UsageRecord := do
  match ← j.fields? ["referencing_node", "unit", "line_text", "line_number", "raw_offset"] with
  | [within, unit, text, line, offset] =>
    return ⟨← required Symbol.ofJson? within, ← required Symbol.ofJson? unit,
      ← required Json.asString? text, ← required Json.asUInt32? line,
      ← required Json.asUInt64? offset⟩
  | _ => none

end UsageRecord

namespace Publication

/-- A way of publishing is its word. -/
def toJson (m : Publication) : Json := ofString m.word

def ofJson? (j : Json) : Option Publication := j.unitVariant?.bind ofWord?

end Publication

namespace UsageSettings

/-- The names of the fields in documents. -/
def fieldNames : List String := ["import_prefix", "constructor_class_usage", "publish"]

def toJson (s : UsageSettings) : Json :=
  ofMembers [("import_prefix", ofString s.importMark),
    ("constructor_class_usage", .bool s.constructorUsesClass), ("publish", s.publication.toJson)]

/-- Fields that are missing have their defaults. -/
def ofJson? (j : Json) : Option UsageSettings := do
  let unset : UsageSettings := {}
  match ← j.openFields? fieldNames with
  | [importMark, constructorUsesClass, publication] =>
    return ⟨← withDefault Json.asString? unset.importMark importMark,
      ← withDefault Json.asBool? unset.constructorUsesClass constructorUsesClass,
      ← withDefault Publication.ofJson? unset.publication publication⟩
  | _ => none

end UsageSettings

namespace BatchSettings

/-- The names of the fields in documents. -/
def fieldNames : List String := ["threads", "show_progress"]

def toJson (s : BatchSettings) : Json :=
  ofMembers [("threads", ofNat s.threads.toNat), ("show_progress", .bool s.showProgress)]

/-- Fields that are missing have their defaults. -/
def ofJson? (j : Json) : Option BatchSettings := do
  let unset : BatchSettings := {}
  match ← j.openFields? fieldNames with
  | [threads, showProgress] =>
    return ⟨← withDefault Json.asUInt64? unset.threads threads,
      ← withDefault Json.asBool? unset.showProgress showProgress⟩
  | _ => none

end BatchSettings

namespace CommentSettings

/-- The names of the fields in documents. -/
def fieldNames : List String := ["comment_prefix"]

def toJson (s : CommentSettings) : Json := ofMembers [("comment_prefix", ofString s.commentMark)]

/-- Fields that are missing have their defaults. -/
def ofJson? (j : Json) : Option CommentSettings := do
  let unset : CommentSettings := {}
  match ← j.openFields? fieldNames with
  | [commentMark] => return ⟨← withDefault Json.asString? unset.commentMark commentMark⟩
  | _ => none

end CommentSettings

namespace Settings

/-- The names of the sections in documents. -/
def fieldNames : List String := ["usage", "indexing", "annotations"]

def toJson (s : Settings) : Json :=
  ofMembers [("usage", s.usage.toJson), ("indexing", s.batch.toJson),
    ("annotations", s.comments.toJson)]

/-- Sections that are missing have their defaults. -/
def ofJson? (j : Json) : Option Settings := do
  let unset : Settings := {}
  match ← j.openFields? fieldNames with
  | [usage, batch, comments] =>
    return ⟨← withDefault UsageSettings.ofJson? unset.usage usage,
      ← withDefault BatchSettings.ofJson? unset.batch batch,
      ← withDefault CommentSettings.ofJson? unset.comments comments⟩
  | _ => none

end Settings

end CrossReference
