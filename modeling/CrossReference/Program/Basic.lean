import CrossReference.OrderedMap.Basic
import CrossReference.Program.Declaration

/-!
# Programs

A program holds its declarations in the order of their addition. Which class a declaration lies in
is kept in a table beside them, and so are the members of each class and the handle of each symbol.

## Main definitions

- `Program` — declarations, owners, members, symbols and top-level classes
- `Program.addClass`, `Program.addMethod`, … — the ways a program grows
- `Program.place` — records where the generated text declares something
- `Program.get`, `Program.symbol`, `Program.declaringClass` — questions about one handle
- `Program.resolve` — the handle of a symbol
-/

namespace CrossReference

/-- The declarations of a decompiled program and how they contain each other. -/
structure Program where
  /-- The declarations in the order of their addition. -/
  declarations : Array Declaration
  /-- The class directly around each member or nested class. -/
  owners : OrderedMap Handle Handle
  /-- What each class directly contains, in the order of addition. -/
  memberLists : OrderedMap Handle (List Handle)
  /-- The declaration last added for each symbol. -/
  symbols : OrderedMap Symbol Handle
  /-- The top-level classes in the order of addition. -/
  classes : List Handle

namespace Program

def empty : Program := ⟨#[], ∅, ∅, ∅, []⟩

instance : EmptyCollection Program := ⟨empty⟩

instance : Inhabited Program := ⟨empty⟩

def size (p : Program) : Nat := p.declarations.size

def get (p : Program) (h : Handle) : Except ProgramError Declaration :=
  match p.declarations[h.index.toNat]? with
  | some d => .ok d
  | none => .error (.unknownHandle h)

/-- Where the generated text declares what the handle addresses, if it does. -/
def placement (p : Program) (h : Handle) : Except ProgramError (Option Position) :=
  (p.get h).map (·.placement)

/-- The class directly around a declaration; a top-level class has none. -/
def owner? (p : Program) (h : Handle) : Option Handle := p.owners.get? h

/-- What a class directly contains, in the order of addition. -/
def members (p : Program) (h : Handle) : List Handle := (p.memberLists.get? h).getD []

/-- The class directly around a member. -/
def owner (p : Program) (h : Handle) : Except ProgramError Handle :=
  match p.owner? h with
  | some o => .ok o
  | none => .error (.ownerMissing h)

/-- The class in which a declaration stands; a class stands for itself. -/
def declaringClass (p : Program) (h : Handle) : Except ProgramError Handle := do
  let d ← p.get h
  if d.isClass then return h else p.owner h

def symbol (p : Program) (h : Handle) : Except ProgramError Symbol := do
  let d ← p.get h
  match d.kind with
  | .classDecl => return .ofClass d.name
  | .fieldDecl =>
    let around ← p.get (← p.owner h)
    return .ofField around.name d.name d.descriptor
  | .methodDecl _ =>
    let around ← p.get (← p.owner h)
    return .ofMethod around.name d.name d.descriptor

/-- The declaration last added for a symbol. -/
def resolve (p : Program) (s : Symbol) : Option Handle := p.symbols.get? s

/-! ## Growth -/

/-- Adds a declaration to the list and to the containment tables, not yet to the symbol table. -/
def declare (p : Program) (kind : DeclarationKind) (name descriptor : String)
    (owner : Option Handle) : Program :=
  let h := Handle.ofCount p.size
  let grown := { p with declarations := p.declarations.push ⟨h, kind, name, descriptor, none⟩ }
  match owner with
  | none => grown
  | some o =>
    { grown with
      owners := p.owners.insert h o
      memberLists := p.memberLists.alter o fun known => some (known.getD [] ++ [h]) }

/-- Enters the symbol of a handle into the symbol table. -/
def enterSymbol (p : Program) (h : Handle) : Program :=
  match p.symbol h with
  | .ok s => { p with symbols := p.symbols.insert s h }
  | .error _ => p

/-- Adds a declaration and says which handle it got. -/
def push (p : Program) (kind : DeclarationKind) (name descriptor : String)
    (owner : Option Handle) : Program × Handle :=
  let h := Handle.ofCount p.size
  ((p.declare kind name descriptor owner).enterSymbol h, h)

/-- Succeeds on the handle of a class. -/
def expectClass (p : Program) (h : Handle) : Except ProgramError Unit := do
  let d ← p.get h
  if d.isClass then return () else throw (.notAClass h)

def addClass (p : Program) (name : String) : Program × Handle :=
  let pushed := p.push .classDecl name "" none
  ({ pushed.1 with classes := p.classes ++ [pushed.2] }, pushed.2)

def addNestedClass (p : Program) (outer : Handle) (name : String) :
    Except ProgramError (Program × Handle) := do
  p.expectClass outer
  return p.push .classDecl name "" (some outer)

/-- Adds a method to a class; its name decides whether it is a constructor. -/
def addMethod (p : Program) (owner : Handle) (name descriptor : String) :
    Except ProgramError (Program × Handle) := do
  p.expectClass owner
  return p.push (.methodDecl (name == constructorName)) name descriptor (some owner)

def addConstructor (p : Program) (owner : Handle) (descriptor : String) :
    Except ProgramError (Program × Handle) :=
  p.addMethod owner constructorName descriptor

def addField (p : Program) (owner : Handle) (name descriptor : String) :
    Except ProgramError (Program × Handle) := do
  p.expectClass owner
  return p.push .fieldDecl name descriptor (some owner)

/-- Records where the generated text declares what the handle addresses, in place of
an earlier record. -/
def place (p : Program) (h : Handle) (position : Position) : Except ProgramError Program := do
  let d ← p.get h
  return { p with
    declarations :=
      p.declarations.setIfInBounds h.index.toNat { d with placement := some position } }

end Program

end CrossReference
