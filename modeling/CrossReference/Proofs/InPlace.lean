import CrossReference.Program.Edit

/-!
# Edits in place

An edit as a series of changes to one program: what it asks, it asks of the program as it is at that
moment, and what it has changed stays changed if it is given up behind that. `Program.edit` says
what an edit comes to; `Program.editInPlace` gets there table by table. Both agree, and an edit that
is given up leaves the program as it was (`Program.editInPlace_eq`).
-/

namespace CrossReference.Program

/-- A series of changes to one program that may be given up half-way. -/
abbrev Change := ExceptT ProgramError (StateM Program)

namespace Change

variable {α : Type}

/-- Asks the program as it is now, and gives up if there is no answer. -/
def ask (question : Program → Except ProgramError α) : Change α :=
  ExceptT.mk do return question (← getThe Program)

/-- Enters a declaration into the list of declarations, then into the owner table and the member
list of its class, then into the symbol table. -/
def push (kind : DeclarationKind) (name descriptor : String) (owner : Option Handle) :
    Change Handle := do
  let h := Handle.ofCount (← getThe Program).size
  modify fun p => { p with declarations := p.declarations.push ⟨h, kind, name, descriptor, none⟩ }
  if let some o := owner then
    modify fun p => { p with owners := p.owners.insert h o }
    modify fun p =>
      { p with memberLists := p.memberLists.alter o fun known => some (known.getD [] ++ [h]) }
  modify fun p => p.enterSymbol h
  return h

def addClass (name : String) : Change Handle := do
  let h ← push .classDecl name "" none
  modify fun p => { p with classes := p.classes ++ [h] }
  return h

/-- Adds something to a class, once that has turned out to be one. -/
def addTo (owner : Handle) (kind : DeclarationKind) (name descriptor : String) : Change Handle := do
  ask (·.expectClass owner)
  push kind name descriptor (some owner)

def addMethod (owner : Handle) (name descriptor : String) : Change Handle :=
  addTo owner (.methodDecl (name == constructorName)) name descriptor

def place (h : Handle) (position : Position) : Change Handle := do
  let d ← ask (·.get h)
  modify fun p => { p with
    declarations :=
      p.declarations.setIfInBounds h.index.toNat { d with placement := some position } }
  return h

def ofEdit : Edit → Change Handle
  | .addClass name => addClass name
  | .addNestedClass outer name => addTo outer .classDecl name ""
  | .addMethod owner name descriptor => addMethod owner name descriptor
  | .addConstructor owner descriptor => addMethod owner constructorName descriptor
  | .addField owner name descriptor => addTo owner .fieldDecl name descriptor
  | .place h position => place h position

/-! ## What changes come to -/

variable {β : Type} {p q : Program}

theorem run_bind_of_ok {x : Change α} {a : α} (hx : x.run p = (.ok a, q)) (next : α → Change β) :
    (x >>= next).run p = (next a).run q := by
  show (ExceptT.bindCont next (x.run p).1).run (x.run p).2 = _
  rw [hx]
  rfl

theorem run_bind_of_error {x : Change α} {cause : ProgramError} (hx : x.run p = (.error cause, q))
    (next : α → Change β) : (x >>= next).run p = (.error cause, q) := by
  show (ExceptT.bindCont next (x.run p).1).run (x.run p).2 = _
  rw [hx]
  rfl

theorem run_push (kind : DeclarationKind) (name descriptor : String) (owner : Option Handle)
    (p : Program) :
    (push kind name descriptor owner).run p =
      (.ok (p.push kind name descriptor owner).2, (p.push kind name descriptor owner).1) := by
  cases owner <;> rfl

end Change

/-- How an edit in place ends, and the program that it leaves. -/
def editInPlace (p : Program) (e : Edit) : Except ProgramError Handle × Program :=
  (Change.ofEdit e).run p

theorem classes_push (p : Program) (kind : DeclarationKind) (name descriptor : String)
    (owner : Option Handle) : (p.push kind name descriptor owner).1.classes = p.classes := by
  rw [push, enterSymbol]
  split <;> cases owner <;> rfl

/-- Adding to something that is no class is given up before anything has changed. -/
theorem editInPlace_of_addTo {p : Program} {e : Edit} {kind : DeclarationKind}
    {name descriptor : String} {owner : Handle}
    (hchange : Change.ofEdit e = Change.addTo owner kind name descriptor)
    (he : p.edit e = (do p.expectClass owner; return p.push kind name descriptor (some owner))) :
    p.editInPlace e = ((p.edit e).map (·.2), p.afterEdit e) := by
  rw [editInPlace, hchange, Change.addTo, afterEdit, he]
  have hask : (Change.ask (·.expectClass owner)).run p = (p.expectClass owner, p) := rfl
  cases hclass : p.expectClass owner with
  | error cause =>
    rw [hclass] at hask
    exact Change.run_bind_of_error hask _
  | ok u =>
    rw [hclass] at hask
    rw [Change.run_bind_of_ok hask, Change.run_push]
    rfl

/-- An edit in place ends with the handle or the error of the edit, and leaves what
the edit leaves. -/
theorem editInPlace_eq (p : Program) (e : Edit) :
    p.editInPlace e = ((p.edit e).map (·.2), p.afterEdit e) := by
  cases e with
  | addClass name =>
    have hrun : p.editInPlace (.addClass name) = _ :=
      Change.run_bind_of_ok (Change.run_push .classDecl name "" none p) _
    rw [hrun, afterEdit, edit, addClass, ← classes_push p .classDecl name "" none]
    rfl
  | addNestedClass outer name => exact editInPlace_of_addTo rfl rfl
  | addMethod owner name descriptor => exact editInPlace_of_addTo rfl rfl
  | addConstructor owner descriptor => exact editInPlace_of_addTo rfl rfl
  | addField owner name descriptor => exact editInPlace_of_addTo rfl rfl
  | place h position =>
    have hask : (Change.ask (·.get h)).run p = (p.get h, p) := rfl
    cases hd : p.get h with
    | error cause =>
      rw [hd] at hask
      have hrun : p.editInPlace (.place h position) = _ := Change.run_bind_of_error hask _
      rw [hrun]
      simp [afterEdit, edit, Program.place, hd, bind, Except.bind, Except.map]
    | ok d =>
      rw [hd] at hask
      have hrun : p.editInPlace (.place h position) = _ := Change.run_bind_of_ok hask _
      rw [hrun]
      simp [afterEdit, edit, Program.place, hd, bind, Except.bind, Except.map, pure, Except.pure]
      rfl

end CrossReference.Program
