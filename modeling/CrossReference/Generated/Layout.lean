import CrossReference.Program.Containment

/-!
# Layouts

A layout says which declaration a line of generated text belongs to and which instruction a byte
belongs to. A line belongs to the nearest declaration at or above it, so the lines of a method body
belong to the method, and the lines in front of the class to nothing; likewise a byte belongs to the
instruction that was last emitted at or before it.

## Main definitions

- `Locator` — the two questions that indexing and annotating ask
- `Layout` — declaration lines and instruction offsets of one class
- `Layout.ofClass` — the declaration lines of a class and of all that lies inside it
- `Layout.locator` — a layout as a locator
-/

namespace CrossReference

/-- Answers which declaration a line belongs to and which instruction a byte belongs to. -/
structure Locator where
  /-- The declaration that covers a line. -/
  declarationAt : UInt32 → Option Handle
  /-- The offset of the instruction behind a byte. -/
  instructionAt : UInt64 → Option UInt32 := fun _ => none

/-- The declaration lines and instruction offsets of one class. -/
structure Layout where
  /-- What is declared on a line. -/
  declarations : OrderedMap UInt32 Handle
  /-- The instruction emitted at a byte. -/
  instructions : OrderedMap UInt64 UInt32
deriving DecidableEq

namespace Layout

def empty : Layout := ⟨∅, ∅⟩

instance : EmptyCollection Layout := ⟨empty⟩

instance : Inhabited Layout := ⟨empty⟩

def size (l : Layout) : Nat := l.declarations.size

def isEmpty (l : Layout) : Bool := l.declarations.isEmpty

/-- Records that a line declares something, in place of an earlier record for the line. -/
def declare (l : Layout) (line : UInt32) (h : Handle) : Layout :=
  { l with declarations := l.declarations.insert line h }

/-- Records instructions, the last one at a byte winning. -/
def addInstructions (l : Layout) (instructions : List (UInt64 × UInt32)) : Layout :=
  { l with instructions := l.instructions.insertMany instructions }

/-- Records the line of a declaration that the text has placed. -/
def declarePlaced (p : Program) (l : Layout) (h : Handle) : Except ProgramError Layout := do
  match ← p.placement h with
  | some position => return l.declare position.line h
  | none => return l

/-- The declaration lines of a class and of all that lies inside it. Of several declarations on one
line the last descendant counts; what the text has not placed is left out. -/
def ofClass (p : Program) (h : Handle) : Except ProgramError Layout :=
  (p.descendants h).foldlM (declarePlaced p) empty

/-- The nearest declaration at or above a line, and the nearest instruction at or before a byte. -/
def locator (l : Layout) : Locator where
  declarationAt line := (l.declarations.floor? line).map (·.2)
  instructionAt offset := (l.instructions.floor? offset).map (·.2)

end Layout

end CrossReference
