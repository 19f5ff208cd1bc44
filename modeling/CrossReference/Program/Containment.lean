import CrossReference.Program.Basic

/-!
# Containment

Two walks over the containment of a program: up to the outermost class around a declaration, and
down over everything inside a class. Owners are added before their members, so that a walk up takes
fewer steps than there are declarations, and a walk down meets each declaration once at most; both
bounds are used as fuel.
-/

namespace CrossReference.Program

/-- Follows owners upwards for at most the given number of steps. -/
def climb (p : Program) : Nat → Handle → Handle
  | 0, h => h
  | steps + 1, h =>
    match p.owner? h with
    | none => h
    | some o => p.climb steps o

/-- The outermost class around a declaration. -/
def topLevelClass (p : Program) (h : Handle) : Except ProgramError Handle := do
  let _ ← p.get h
  return p.climb p.size h

/-- Visits the handles of a worklist, each followed by what it contains. -/
def visit (p : Program) : Nat → List Handle → List Handle
  | 0, _ => []
  | _ + 1, [] => []
  | steps + 1, h :: waiting => h :: p.visit steps (p.members h ++ waiting)

/-- A class and everything inside it: a class stands in front of its members, and members stand in
the order of their addition. -/
def descendants (p : Program) (h : Handle) : List Handle := p.visit (p.size + 1) [h]

def topLevelSymbol (p : Program) (h : Handle) : Except ProgramError Symbol := do
  p.expectClass h
  match p.owner? h with
  | some _ => throw (.nestedClass h)
  | none => p.symbol h

end CrossReference.Program
