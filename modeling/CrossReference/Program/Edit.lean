import CrossReference.Program.Basic

/-!
# Edits

The ways in which a program is built, as data: every program is what a list of edits leaves of the
empty one. A rejected edit leaves the program as it was.
-/

namespace CrossReference

/-- One step in building a program. -/
inductive Edit where
  | addClass (name : String)
  | addNestedClass (outer : Handle) (name : String)
  | addMethod (owner : Handle) (name descriptor : String)
  | addConstructor (owner : Handle) (descriptor : String)
  | addField (owner : Handle) (name descriptor : String)
  | place (handle : Handle) (position : Position)

namespace Program

/-- Carries out an edit and names the handle that it is about: the new one, or the one placed. -/
def edit (p : Program) : Edit → Except ProgramError (Program × Handle)
  | .addClass name => .ok (p.addClass name)
  | .addNestedClass outer name => p.addNestedClass outer name
  | .addMethod owner name descriptor => p.addMethod owner name descriptor
  | .addConstructor owner descriptor => p.addConstructor owner descriptor
  | .addField owner name descriptor => p.addField owner name descriptor
  | .place h position => (p.place h position).map (·, h)

/-- The program after an edit, which is the old one if the edit is rejected. -/
def afterEdit (p : Program) (e : Edit) : Program :=
  match p.edit e with
  | .ok (next, _) => next
  | .error _ => p

/-- The program after edits made one after another. -/
def afterEdits (p : Program) (edits : List Edit) : Program := edits.foldl afterEdit p

/-- A program is reachable if some list of edits builds it. -/
def Reachable (p : Program) : Prop := ∃ edits, p = empty.afterEdits edits

end Program

end CrossReference
