import CrossReference.Handle
import CrossReference.Position
import CrossReference.Symbol

/-!
# Declarations

One class, field or method of a decompiled program, and what can be wrong with a handle that is
meant to address one.
-/

namespace CrossReference

/-- What a declaration declares. -/
inductive DeclarationKind where
  | classDecl
  | fieldDecl
  /-- A method; constructors are told apart from the others. -/
  | methodDecl (constructor : Bool)
deriving DecidableEq

/-- A declaration of the program. -/
structure Declaration where
  /-- The handle under which the declaration was added. -/
  handle : Handle
  kind : DeclarationKind
  /-- Binary name of a class, simple name of a member. -/
  name : String
  /-- Type descriptor of a member; empty for a class. -/
  descriptor : String
  /-- Where the generated text declares it, once that is known. -/
  placement : Option Position
deriving DecidableEq

namespace Declaration

def isClass (d : Declaration) : Bool := d.kind == .classDecl

/-- Whether a method is declared, constructors included. -/
def isMethod (d : Declaration) : Bool :=
  match d.kind with
  | .methodDecl _ => true
  | .classDecl | .fieldDecl => false

def isConstructor (d : Declaration) : Bool := d.kind == .methodDecl true

end Declaration

/-- The method name that marks a constructor. -/
def constructorName : String := "<init>"

/-- Why a question about a handle has no answer. -/
inductive ProgramError where
  /-- The program has not handed out the handle. -/
  | unknownHandle (handle : Handle)
  /-- A class is needed and the handle addresses a member. -/
  | notAClass (handle : Handle)
  /-- A top-level class is needed and the class lies inside another. -/
  | nestedClass (handle : Handle)
  /-- A member lies in no class. -/
  | ownerMissing (handle : Handle)
deriving DecidableEq

def ProgramError.message : ProgramError → String
  | unknownHandle h => "Unknown semantic node: " ++ h.display
  | notAClass h => "Node " ++ h.display ++ " is not a class"
  | nestedClass h => "Class " ++ h.display ++ " is nested, expected a top-level class"
  | ownerMissing h => "Member " ++ h.display ++ " has no owning class"

end CrossReference
