import CrossReference.Interchange.Lemmas
import CrossReference.Proofs.JsonText

/-!
# Typed values through text

A typed value is written as the text of its JSON form and decoded by parsing a text and reading the
value out of its shape. What is decoded from the text of a value is that value: the form is made of
texts, truth values, natural numbers and `null` in records, so it is read back whole, and the reader
of each type undoes its writer.

## Main statements

- `SymbolKind.readsBack_toJson` … `Settings.readsBack_toJson` — the JSON form of each type is read
  back
- `typedValues_decodeOwnText` — decoding the text of a value gives the value
-/

namespace CrossReference

/-- Whatever value is written, what its text spells is read as that value. -/
def DecodesOwnText {α : Type} (toJson : α → Json) (ofJson? : Json → Option α) : Prop :=
  ∀ a, (Json.parse? (toJson a).render).bind ofJson? = some a

/-- For this the form has to be read back from its text, and the reader of the form to
undo its writer. -/
theorem DecodesOwnText.of_readsBack {α : Type} {toJson : α → Json} {ofJson? : Json → Option α}
    (hread : ∀ a, (toJson a).ReadsBack) (hform : ∀ a, ofJson? (toJson a) = some a) :
    DecodesOwnText toJson ofJson? := by
  intro a
  rw [(hread a).parse?_render, Option.bind_some, hform a]

/-! ## Forms -/

open Json (ofMembers ofOption readsBack_ofString readsBack_ofNat readsBack_ofMembers)

theorem Json.readsBack_ofOption {α : Type} {f : α → Json} (h : ∀ a, (f a).ReadsBack)
    (value : Option α) : (ofOption f value).ReadsBack := by
  cases value with
  | none => exact readsBack_null
  | some a => exact h a

@[simp] theorem SymbolKind.readsBack_toJson (k : SymbolKind) : k.toJson.ReadsBack :=
  readsBack_ofString k.word

@[simp] theorem Symbol.readsBack_toJson (s : Symbol) : s.toJson.ReadsBack :=
  readsBack_ofMembers (by simp)

@[simp] theorem Handle.readsBack_toJson (h : Handle) : h.toJson.ReadsBack :=
  readsBack_ofNat h.index.toNat

@[simp] theorem Position.readsBack_toJson (p : Position) : p.toJson.ReadsBack :=
  readsBack_ofMembers (by simp)

@[simp] theorem DeclarationKind.readsBack_toJson (k : DeclarationKind) : k.toJson.ReadsBack := by
  cases k with
  | classDecl => exact readsBack_ofString "Class"
  | fieldDecl => exact readsBack_ofString "Field"
  | methodDecl constructor =>
    have hpayload : (ofMembers [("constructor", .bool constructor)]).ReadsBack :=
      readsBack_ofMembers (by simp)
    exact readsBack_ofMembers (by simp [hpayload])

@[simp] theorem Declaration.readsBack_toJson (d : Declaration) : d.toJson.ReadsBack := by
  have hplacement : (ofOption Position.toJson d.placement).ReadsBack :=
    Json.readsBack_ofOption Position.readsBack_toJson d.placement
  exact readsBack_ofMembers (by simp [hplacement])

@[simp] theorem Comment.readsBack_toJson (c : Comment) : c.toJson.ReadsBack :=
  readsBack_ofMembers (by simp)

@[simp] theorem UsageRecord.readsBack_toJson (r : UsageRecord) : r.toJson.ReadsBack :=
  readsBack_ofMembers (by simp)

@[simp] theorem Publication.readsBack_toJson (m : Publication) : m.toJson.ReadsBack :=
  readsBack_ofString m.word

@[simp] theorem UsageSettings.readsBack_toJson (s : UsageSettings) : s.toJson.ReadsBack :=
  readsBack_ofMembers (by simp)

@[simp] theorem BatchSettings.readsBack_toJson (s : BatchSettings) : s.toJson.ReadsBack :=
  readsBack_ofMembers (by simp)

@[simp] theorem CommentSettings.readsBack_toJson (s : CommentSettings) : s.toJson.ReadsBack :=
  readsBack_ofMembers (by simp)

@[simp] theorem Settings.readsBack_toJson (s : Settings) : s.toJson.ReadsBack :=
  readsBack_ofMembers (by simp)

/-! ## Texts -/

/-- Every typed value that leaves the library as text comes back as it was, whatever characters its
texts have and however large its numbers are. -/
theorem typedValues_decodeOwnText :
    DecodesOwnText SymbolKind.toJson SymbolKind.ofJson? ∧
    DecodesOwnText Symbol.toJson Symbol.ofJson? ∧
    DecodesOwnText Handle.toJson Handle.ofJson? ∧
    DecodesOwnText Position.toJson Position.ofJson? ∧
    DecodesOwnText Declaration.toJson Declaration.ofJson? ∧
    DecodesOwnText Comment.toJson Comment.ofJson? ∧
    DecodesOwnText UsageRecord.toJson UsageRecord.ofJson? ∧
    DecodesOwnText UsageSettings.toJson UsageSettings.ofJson? ∧
    DecodesOwnText Settings.toJson Settings.ofJson? :=
  ⟨.of_readsBack SymbolKind.readsBack_toJson SymbolKind.ofJson?_toJson,
    .of_readsBack Symbol.readsBack_toJson Symbol.ofJson?_toJson,
    .of_readsBack Handle.readsBack_toJson Handle.ofJson?_toJson,
    .of_readsBack Position.readsBack_toJson Position.ofJson?_toJson,
    .of_readsBack Declaration.readsBack_toJson Declaration.ofJson?_toJson,
    .of_readsBack Comment.readsBack_toJson Comment.ofJson?_toJson,
    .of_readsBack UsageRecord.readsBack_toJson UsageRecord.ofJson?_toJson,
    .of_readsBack UsageSettings.readsBack_toJson UsageSettings.ofJson?_toJson,
    .of_readsBack Settings.readsBack_toJson Settings.ofJson?_toJson⟩

end CrossReference
