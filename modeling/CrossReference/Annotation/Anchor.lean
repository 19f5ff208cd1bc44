import CrossReference.Annotation.Store

/-!
# Anchors

Where a new comment attaches, given a cursor in generated text: the line has to belong to a method,
and the byte to an instruction.
-/

namespace CrossReference

/-- A place to attach a comment to. -/
structure Anchor where
  /-- The method. -/
  target : Symbol
  /-- The instruction. -/
  instruction : UInt32
deriving DecidableEq

/-- The comment with a text at an anchor. -/
def Anchor.comment (a : Anchor) (text : String) : Comment := ⟨a.target, a.instruction, text⟩

/-- The symbol of a handle, if a method has it. -/
def Program.methodSymbol? (p : Program) (h : Handle) : Option Symbol :=
  match p.get h, p.symbol h with
  | .ok d, .ok s => if d.isMethod then some s else none
  | _, _ => none

/-- The anchor under a cursor. -/
def anchorAt (p : Program) (locator : Locator) (line : UInt32) (offset : UInt64) :
    Option Anchor := do
  let around ← locator.declarationAt line
  let target ← p.methodSymbol? around
  let instruction ← locator.instructionAt offset
  return ⟨target, instruction⟩

end CrossReference
