import CrossReference.Generated.Layout
import CrossReference.Proofs.LastEntries
import CrossReference.Proofs.Walks
import CrossReference.Sample

/-!
# Which declaration a line belongs to

The layout of a class is filled in the order of its descendants, which need not be the order of the
lines, and it may be changed afterwards. Still it is the layout of one list of entries: the lines on
which the descendants are declared (`Program.declarationLines`), and behind them whatever was added
later (`Layout.afterEdits_ofLists`). So a line belongs to the nearest declaration at or above it,
and of several on that line to the last one; likewise a byte belongs to the instruction nearest
before it (`Program.Reachable.locator_ofClass`).
-/

namespace CrossReference

open OrderedMap (Nearest ofList)

/-! ## Changes to a layout -/

/-- One change to a layout. -/
inductive LayoutEdit where
  | declare (line : UInt32) (h : Handle)
  | addInstructions (instructions : List (UInt64 × UInt32))

namespace LayoutEdit

/-- What a change declares. -/
def declared : LayoutEdit → List (UInt32 × Handle)
  | declare line h => [(line, h)]
  | addInstructions _ => []

/-- The instructions that a change adds. -/
def instructions : LayoutEdit → List (UInt64 × UInt32)
  | declare _ _ => []
  | addInstructions added => added

end LayoutEdit

namespace Layout

def afterEdit (l : Layout) : LayoutEdit → Layout
  | .declare line h => l.declare line h
  | .addInstructions instructions => l.addInstructions instructions

/-- The layout after changes made one after another. -/
def afterEdits (l : Layout) (edits : List LayoutEdit) : Layout := edits.foldl afterEdit l

/-- The layout that a list of declaration lines and a list of instructions make. -/
def ofLists (declared : List (UInt32 × Handle)) (instructions : List (UInt64 × UInt32)) : Layout :=
  ⟨ofList declared, ofList instructions⟩

variable (declared : List (UInt32 × Handle)) (instructions : List (UInt64 × UInt32))

theorem ofLists_concat (line : UInt32) (h : Handle) :
    ofLists (declared ++ [(line, h)]) instructions =
      (ofLists declared instructions).declare line h := by
  rw [ofLists, OrderedMap.ofList_concat]
  rfl

theorem ofLists_append (added : List (UInt64 × UInt32)) :
    ofLists declared (instructions ++ added) =
      (ofLists declared instructions).addInstructions added := by
  rw [ofLists, ← OrderedMap.insertMany_ofList]
  rfl

/-- A change makes the lists longer. -/
theorem afterEdit_ofLists (e : LayoutEdit) :
    (ofLists declared instructions).afterEdit e =
      ofLists (declared ++ e.declared) (instructions ++ e.instructions) := by
  cases e with
  | declare line h =>
    rw [LayoutEdit.declared, LayoutEdit.instructions, List.append_nil, ofLists_concat]
    rfl
  | addInstructions added =>
    rw [LayoutEdit.declared, LayoutEdit.instructions, List.append_nil, ofLists_append]
    rfl

theorem afterEdits_ofLists (edits : List LayoutEdit) :
    (ofLists declared instructions).afterEdits edits =
      ofLists (declared ++ edits.flatMap (·.declared))
        (instructions ++ edits.flatMap (·.instructions)) := by
  induction edits generalizing declared instructions with
  | nil => simp [afterEdits]
  | cons e rest ih =>
    have hrest := ih (declared ++ e.declared) (instructions ++ e.instructions)
    rw [← afterEdit_ofLists] at hrest
    rw [List.flatMap_cons, List.flatMap_cons, ← List.append_assoc, ← List.append_assoc]
    exact hrest

/-- A layout made of lists answers with what is nearest in them. -/
theorem locator_ofLists :
    (∀ line, ((ofLists declared instructions).locator.declarationAt line = none ↔
        ∀ e ∈ declared, ¬ e.1 ≤ line) ∧
      ∀ h, (ofLists declared instructions).locator.declarationAt line = some h ↔
        ∃ top, Nearest declared line (top, h)) ∧
    ∀ offset, ((ofLists declared instructions).locator.instructionAt offset = none ↔
        ∀ e ∈ instructions, ¬ e.1 ≤ offset) ∧
      ∀ instruction,
        (ofLists declared instructions).locator.instructionAt offset = some instruction ↔
        ∃ start, Nearest instructions offset (start, instruction) := by
  refine ⟨fun line => ⟨?_, fun h => ?_⟩, fun offset => ⟨?_, fun instruction => ?_⟩⟩
  · rw [← OrderedMap.floor?_ofList_eq_none_iff]
    exact Option.map_eq_none_iff
  · simp only [← OrderedMap.floor?_ofList_eq_some_iff]
    simp [locator, ofLists]
  · rw [← OrderedMap.floor?_ofList_eq_none_iff]
    exact Option.map_eq_none_iff
  · simp only [← OrderedMap.floor?_ofList_eq_some_iff]
    simp [locator, ofLists]

end Layout

/-! ## The layout of a class -/

namespace Program

variable {p : Program} {c h : Handle}

/-- The line on which the text declares what a handle addresses. -/
def lineOf? (p : Program) (h : Handle) : Option UInt32 :=
  match p.placement h with
  | .ok (some position) => some position.line
  | .ok none | .error _ => none

/-- The lines on which a class and what lies inside it are declared, in the order of the
descendants. What the text has not placed is left out. -/
def declarationLines (p : Program) (c : Handle) : List (UInt32 × Handle) :=
  (p.descendants c).filterMap fun h => (p.lineOf? h).map (·, h)

theorem declarePlaced_of_issued (hissued : p.Issued h) (declared : List (UInt32 × Handle)) :
    Layout.declarePlaced p (.ofLists declared []) h =
      .ok (.ofLists (declared ++ ((p.lineOf? h).map (·, h)).toList) []) := by
  obtain ⟨d, hd⟩ := issued_iff.1 hissued
  rw [Layout.declarePlaced, lineOf?, placement_of_get hd]
  cases d.placement with
  | none =>
    rw [Option.map_none, Option.toList_none, List.append_nil]
    rfl
  | some position =>
    rw [Option.map_some, Option.toList_some, Layout.ofLists_concat]
    rfl

theorem foldlM_declarePlaced_of_issued {hs : List Handle} (hissued : ∀ h ∈ hs, p.Issued h)
    (declared : List (UInt32 × Handle)) :
    hs.foldlM (Layout.declarePlaced p) (.ofLists declared []) =
      .ok (.ofLists (declared ++ hs.filterMap fun h => (p.lineOf? h).map (·, h)) []) := by
  induction hs generalizing declared with
  | nil =>
    rw [List.filterMap_nil, List.append_nil]
    rfl
  | cons h rest ih =>
    obtain ⟨hfirst, hrest⟩ := List.forall_mem_cons.1 hissued
    have hcons : (h :: rest).filterMap (fun h => (p.lineOf? h).map (·, h)) =
        ((p.lineOf? h).map (·, h)).toList ++ rest.filterMap fun h => (p.lineOf? h).map (·, h) := by
      rw [List.filterMap_cons]
      cases p.lineOf? h <;> rfl
    rw [List.foldlM_cons, declarePlaced_of_issued hfirst, hcons, ← List.append_assoc]
    exact ih hrest _

/-- The layout of a class is made of the lines of its descendants. -/
theorem Agreeing.ofClass_of_issued (hp : p.Agreeing) (hissued : p.Issued c) :
    Layout.ofClass p c = .ok (.ofLists (p.declarationLines c) []) := by
  have hdescendants : ∀ h ∈ p.descendants c, p.Issued h := fun h hmem =>
    hp.issued_of_reaches (hp.mem_descendants_iff.1 hmem) hissued
  exact foldlM_declarePlaced_of_issued hdescendants []

theorem Agreeing.ofClass_of_not_issued (hp : p.Agreeing) (hunknown : ¬ p.Issued c) :
    Layout.ofClass p c = .error (.unknownHandle c) := by
  have hplacement : p.placement c = .error (.unknownHandle c) :=
    (unknown_of_not_issued hunknown).2.1
  -- The class stands in front of its descendants, so it is asked for first.
  rw [Layout.ofClass, hp.descendants_eq_cons, List.foldlM_cons, Layout.declarePlaced, hplacement]
  rfl

/-- Whatever edits built a program, as long as handles have not run out: the layout of a class can
be made if and only if the class was issued, and else the answer is that the class is not known.
Changes made to the layout afterwards count as further entries behind the lines of the descendants.
Then a line belongs to nothing if there is no entry at or above it, and else to the last entry for
the greatest line among these; in the same way a byte belongs to the instruction nearest before it.
The layout counts the different lines of its entries. -/
theorem Reachable.locator_ofClass (hp : p.Reachable) (hsize : p.size ≤ UInt32.size) (c : Handle) :
    (∀ cause, Layout.ofClass p c = .error cause ↔ ¬ p.Issued c ∧ cause = .unknownHandle c) ∧
    (p.Issued c → ∃ l, Layout.ofClass p c = .ok l ∧
      ∀ edits, let later := l.afterEdits edits
        let declared := p.declarationLines c ++ edits.flatMap (·.declared)
        let instructions := edits.flatMap (·.instructions)
        later.size = (declared.map (·.1)).dedup.length ∧
        (∀ line, (later.locator.declarationAt line = none ↔ ∀ e ∈ declared, ¬ e.1 ≤ line) ∧
          ∀ h, later.locator.declarationAt line = some h ↔ ∃ top, Nearest declared line (top, h)) ∧
        ∀ offset, (later.locator.instructionAt offset = none ↔ ∀ e ∈ instructions, ¬ e.1 ≤ offset) ∧
          ∀ instruction, later.locator.instructionAt offset = some instruction ↔
            ∃ start, Nearest instructions offset (start, instruction)) := by
  have hagreeing : p.Agreeing := hp.agreeing hsize
  refine ⟨fun cause => ⟨fun hfailed => ?_, ?_⟩, fun hissued => ?_⟩
  · by_cases hissued : p.Issued c
    · exact nomatch (hagreeing.ofClass_of_issued hissued).symm.trans hfailed
    · have hcause := (hagreeing.ofClass_of_not_issued hissued).symm.trans hfailed
      exact ⟨hissued, (Except.error.inj hcause).symm⟩
  · rintro ⟨hunknown, rfl⟩
    exact hagreeing.ofClass_of_not_issued hunknown
  · refine ⟨_, hagreeing.ofClass_of_issued hissued, fun edits => ?_⟩
    rw [Layout.afterEdits_ofLists, List.nil_append]
    exact ⟨OrderedMap.size_ofList _, Layout.locator_ofLists _ _⟩

open Sample in
/-- A class that declares something on each of three lines, the middle one of which is then said to
declare a constructor: that line belongs to the constructor, lines below the last declaration belong
to that one, and a byte belongs to the later of two instructions in front of it. A class that is not
known has no layout. -/
theorem locator_ofClass_nest :
    let p := Nest.program
    let edits := [LayoutEdit.declare 2 Nest.itemConstructor, .addInstructions [(40, 7), (20, 3)],
      .addInstructions [(40, 9)]]
    p.Reachable ∧ p.size ≤ UInt32.size ∧ p.Issued Nest.shop ∧
      p.declarationLines Nest.shop = [(1, Nest.shop), (2, Nest.item), (3, Nest.itemCopy)] ∧
      Layout.ofClass p ⟨8⟩ = .error (.unknownHandle ⟨8⟩) ∧
      ∃ l, Layout.ofClass p Nest.shop = .ok l ∧ (l.afterEdits edits).size = 3 ∧
        (l.afterEdits edits).locator.declarationAt 0 = none ∧
        (l.afterEdits edits).locator.declarationAt 2 = some Nest.itemConstructor ∧
        (l.afterEdits edits).locator.declarationAt 9 = some Nest.itemCopy ∧
        (l.afterEdits edits).locator.instructionAt 45 = some 9 := by
  intro p edits
  have hp : p.Reachable := ⟨_, rfl⟩
  have hsize : p.size ≤ UInt32.size := by decide +kernel
  have hissued : p.Issued Nest.shop := by decide +kernel
  have hunknown : ¬ p.Issued ⟨8⟩ := by decide +kernel
  have hlines : p.declarationLines Nest.shop =
      [(1, Nest.shop), (2, Nest.item), (3, Nest.itemCopy)] := by
    decide +kernel
  obtain ⟨l, hl, hlocator⟩ := (hp.locator_ofClass hsize Nest.shop).2 hissued
  obtain ⟨hcount, hdeclared, hinstructions⟩ := hlocator edits
  rw [hlines] at hcount hdeclared
  refine ⟨hp, hsize, hissued, hlines, ((hp.locator_ofClass hsize ⟨8⟩).1 _).2 ⟨hunknown, rfl⟩, l, hl,
    hcount, (hdeclared 0).1.2 (by decide), ((hdeclared 2).2 _).2 ⟨2, ?_⟩,
    ((hdeclared 9).2 _).2 ⟨3, ?_⟩, ((hinstructions 45).2 _).2 ⟨40, ?_⟩⟩
  · exact ⟨⟨[(1, Nest.shop), (2, Nest.item), (3, Nest.itemCopy)], [], rfl, by decide⟩,
      by decide, by decide⟩
  · exact ⟨⟨[(1, Nest.shop), (2, Nest.item)], [(2, Nest.itemConstructor)], rfl, by decide⟩,
      by decide, by decide⟩
  · refine ⟨⟨[(40, 7), (20, 3)], [], rfl, fun e he => nomatch he⟩, by decide, ?_⟩
    simp [edits, LayoutEdit.instructions]

end Program

end CrossReference
