import CrossReference.Interchange.Basic
import CrossReference.Toml.Document

/-!
# Settings documents

Settings are read from TOML. Each section is a table of fields, or an array of its fields in order;
what is missing has its default and what is unknown is ignored, as long as it is TOML.

## Main definitions

- `Settings.ofToml` — the settings in a document
- `Settings.ofFile` — the settings in a file
-/

namespace CrossReference

open Toml (Node Entries)

namespace Toml.Node

def asText? : Node → Option String
  | text s => some s
  | _ => none

def asBool? : Node → Option Bool
  | boolean b => some b
  | _ => none

/-- A number that is not negative. -/
def asUInt64? : Node → Option UInt64
  | integer n => if 0 ≤ n then some (UInt64.ofNat n.toNat) else none
  | _ => none

/-- Whether a table or an array has no contents. -/
def isHollow : Node → Bool
  | table _ [] | array [] | tables [] => true
  | _ => false

/-- The name of a variant without contents: a text, or a table with the name as its only key and
nothing under it. -/
def asVariant? : Node → Option String
  | text s => some s
  | table _ [(name, payload)] => if payload.isHollow then some name else none
  | _ => none

/-- The fields of a section. A date is a table without any of the fields. -/
def fields? (names : List String) : Node → Option (List (Option Node))
  | table _ entries => some (names.map fun name => entries.lookup name)
  | array items => some ((List.range names.length).map (items[·]?))
  | tables elements =>
    some ((List.range names.length).map fun k => elements[k]?.map (table .header))
  | datetime _ => some (names.map fun _ => none)
  | _ => none

end Toml.Node

/-- Reads a field that has a default. -/
def orDefault {α : Type} (f : Node → Option α) (default : α) : Option Node → Option α
  | some value => f value
  | none => some default

def UsageSettings.ofNode? (node : Node) : Option UsageSettings := do
  let unset : UsageSettings := {}
  match ← node.fields? fieldNames with
  | [importMark, constructorUsesClass, publication] =>
    return ⟨← orDefault Node.asText? unset.importMark importMark,
      ← orDefault Node.asBool? unset.constructorUsesClass constructorUsesClass,
      ← orDefault (fun v => v.asVariant?.bind Publication.ofWord?) unset.publication publication⟩
  | _ => none

def BatchSettings.ofNode? (node : Node) : Option BatchSettings := do
  let unset : BatchSettings := {}
  match ← node.fields? fieldNames with
  | [threads, showProgress] =>
    return ⟨← orDefault Node.asUInt64? unset.threads threads,
      ← orDefault Node.asBool? unset.showProgress showProgress⟩
  | _ => none

def CommentSettings.ofNode? (node : Node) : Option CommentSettings := do
  let unset : CommentSettings := {}
  match ← node.fields? fieldNames with
  | [commentMark] => return ⟨← orDefault Node.asText? unset.commentMark commentMark⟩
  | _ => none

namespace Settings

/-- The settings in the tables of a document. -/
def ofEntries? (entries : Entries) : Option Settings := do
  let unset : Settings := {}
  match ← (Node.table .header entries).fields? fieldNames with
  | [usage, batch, comments] =>
    return ⟨← orDefault UsageSettings.ofNode? unset.usage usage,
      ← orDefault BatchSettings.ofNode? unset.batch batch,
      ← orDefault CommentSettings.ofNode? unset.comments comments⟩
  | _ => none

/-- The settings in a document. A document that cannot be read is refused as malformed, whatever its
values are; then the values are checked. -/
def ofToml (source : String) : Except SettingsError Settings := do
  match (Toml.parse? source).bind ofEntries? with
  | some settings =>
    settings.validate
    return settings
  | none => throw (.malformed "not a settings document")

/-- The settings in the file at a path, given its contents. A file that is not there, or is no text
in UTF-8, counts as not found. -/
def ofFile (path : String) (contents : Option ByteArray) : Except SettingsError Settings :=
  match contents.bind String.fromUTF8? with
  | some source => ofToml source
  | none => .error (.notFound path)

end Settings

end CrossReference
