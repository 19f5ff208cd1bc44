/-!
# Symbols

A symbol names a class, a field or a method by its binary declaration alone: the binary name of the
declaring class, and for a member its name and descriptor. Nothing that a decompilation run produces
(lines, renamed locals, handles) takes part, so the same binary has the same symbols on every run.

## Main definitions

- `SymbolKind`, `Symbol` — what is named
- `Symbol.ofClass`, `Symbol.ofField`, `Symbol.ofMethod` — the symbols of declarations
- `Symbol.display` — the text that messages show

Symbols are ordered by kind, then class name, then signature; texts are ordered by code point.
-/

namespace CrossReference

/-- The three kinds of declaration that a symbol can name. -/
inductive SymbolKind where
  | classDecl
  | fieldDecl
  | methodDecl
deriving DecidableEq

namespace SymbolKind

/-- Place in the order class, field, method. -/
def rank : SymbolKind → Nat
  | classDecl => 0
  | fieldDecl => 1
  | methodDecl => 2

theorem rank_injective {a b : SymbolKind} (h : a.rank = b.rank) : a = b := by
  cases a <;> cases b <;> simp [rank] at h ⊢

instance : Ord SymbolKind := ⟨compareOn rank⟩

instance : Std.TransOrd SymbolKind := inferInstanceAs (Std.TransCmp (compareOn rank))

instance : Std.LawfulEqOrd SymbolKind where
  eq_of_compare h := rank_injective (Std.LawfulEqOrd.eq_of_compare h)

def word : SymbolKind → String
  | classDecl => "class"
  | fieldDecl => "field"
  | methodDecl => "method"

/-- The kind that a word stands for. -/
def ofWord? : String → Option SymbolKind
  | "class" => some classDecl
  | "field" => some fieldDecl
  | "method" => some methodDecl
  | _ => none

@[simp] theorem ofWord?_word (k : SymbolKind) : ofWord? k.word = some k := by
  cases k <;> rfl

end SymbolKind

/-- The stable name of a declaration. -/
structure Symbol where
  /-- Whether a class, a field or a method is named. -/
  kind : SymbolKind
  /-- Binary name of the declaring class; of the class itself if a class is named. -/
  className : String
  /-- Name and descriptor of a member; empty for a class. -/
  signature : String
deriving DecidableEq

namespace Symbol

instance : Ord Symbol :=
  ⟨compareLex (compareOn kind) (compareLex (compareOn className) (compareOn signature))⟩

instance : Std.TransOrd Symbol :=
  inferInstanceAs (Std.TransCmp
    (compareLex (compareOn kind) (compareLex (compareOn className) (compareOn signature))))

instance : Std.LawfulEqOrd Symbol where
  eq_of_compare {a b} h := by
    have h : compareLex (compareOn kind)
        (compareLex (compareOn className) (compareOn signature)) a b = .eq := h
    simp only [compareLex_eq_eq, compareOn, Std.LawfulEqOrd.compare_eq_iff_eq] at h
    cases a; cases b; simp_all

/-- The symbol of a class with the given binary name. -/
def ofClass (name : String) : Symbol := ⟨.classDecl, name, ""⟩

/-- The symbol of a field: name and descriptor are joined by a colon. -/
def ofField (className name descriptor : String) : Symbol :=
  ⟨.fieldDecl, className, name ++ ":" ++ descriptor⟩

/-- The symbol of a method: name and descriptor stand side by side. -/
def ofMethod (className name descriptor : String) : Symbol :=
  ⟨.methodDecl, className, name ++ descriptor⟩

def isClass (s : Symbol) : Bool := s.kind == .classDecl

/-- The symbol of the class in which the symbol is declared; a class is declared in itself. -/
def declaringClass (s : Symbol) : Symbol := ofClass s.className

/-- The text that messages show: the class name, followed for a member by its signature. -/
def display (s : Symbol) : String :=
  match s.kind with
  | .classDecl => s.className
  | .fieldDecl | .methodDecl => s.className ++ "." ++ s.signature

end Symbol

end CrossReference
