import CrossReference.Proofs.Anchoring
import CrossReference.Proofs.Attribution

/-!
# Which instructions an anchor names

An anchor takes its method from the line of the cursor and its instruction from the byte. The
instruction is the last one emitted at or before the byte, wherever in the class that was; nothing
ties it to the method. So the anchor names an instruction of its method if one was emitted between
the declaration of the method and the cursor. If none was, but the class has instructions further
up, the anchor names one of these, which belongs to a declaration above the method
(`Program.Reachable.emittedBetween_of_anchorAt_iff`).
-/

namespace CrossReference

open OrderedMap (Nearest ofList)

/-- The instruction was emitted at a byte from `first` to `last`. -/
def EmittedBetween (instructions : List (UInt64 × UInt32)) (first last : UInt64)
    (instruction : UInt32) : Prop :=
  ∃ byte, (byte, instruction) ∈ instructions ∧ first ≤ byte ∧ byte ≤ last

/-- The nearest entry is at or behind a key exactly if some entry is between that key and the one
asked for. -/
theorem OrderedMap.Nearest.first_le_iff {υ : Type} {entries : List (UInt64 × υ)}
    {first key : UInt64} {found : UInt64 × υ} (hfound : Nearest entries key found) :
    first ≤ found.1 ↔ ∃ e ∈ entries, first ≤ e.1 ∧ e.1 ≤ key := by
  obtain ⟨hlast, hle, hgreatest⟩ := hfound
  constructor
  · exact fun hfirst => ⟨found, hlast.mem, hfirst, hle⟩
  · rintro ⟨e, he, hfirst, hkey⟩
    exact UInt64.le_trans hfirst (hgreatest e he hkey)

namespace Program

variable {p : Program} {c h : Handle}

/-! ## Where declarations are placed -/

/-- The place at which the text declares what a handle addresses. -/
def position? (p : Program) (h : Handle) : Option Position :=
  match p.placement h with
  | .ok (some position) => some position
  | .ok none | .error _ => none

/-- What the text places inside a class has one order: no two declarations stand on one line, and
what stands on a later line also stands at a later byte. -/
def PlacedInOrder (p : Program) (c : Handle) : Prop :=
  ∀ h ∈ p.descendants c, ∀ h' ∈ p.descendants c, h ≠ h' →
    ∀ x ∈ p.position? h, ∀ x' ∈ p.position? h',
      x.line ≠ x'.line ∧ (x.line < x'.line → x.offset < x'.offset)

instance (p : Program) (c : Handle) : Decidable (p.PlacedInOrder c) :=
  inferInstanceAs (Decidable (∀ h ∈ p.descendants c, ∀ h' ∈ p.descendants c, h ≠ h' →
    ∀ x ∈ p.position? h, ∀ x' ∈ p.position? h',
      x.line ≠ x'.line ∧ (x.line < x'.line → x.offset < x'.offset)))

/-- What is declared in front of a declaration stands above it. -/
theorem PlacedInOrder.line_lt (hplaced : p.PlacedInOrder c) {h' : Handle} {x x' : Position}
    (hmem : h ∈ p.descendants c) (hmem' : h' ∈ p.descendants c) (hx : p.position? h = some x)
    (hx' : p.position? h' = some x') (hlt : x'.offset < x.offset) : x'.line < x.line := by
  have hne : h ≠ h' := by
    rintro rfl
    obtain rfl := Option.some.inj (hx.symm.trans hx')
    exact UInt64.lt_irrefl _ hlt
  obtain ⟨hline, hoffset⟩ := hplaced h hmem h' hmem' hne x hx x' hx'
  by_contra hnot
  have hbehind : x.line < x'.line := UInt32.lt_of_le_of_ne (UInt32.not_lt.1 hnot) hline
  exact UInt64.lt_irrefl _ (UInt64.lt_trans hlt (hoffset hbehind))

theorem mem_descendants_of_nearest {line top : UInt32}
    (hnearest : Nearest (p.declarationLines c) line (top, h)) : h ∈ p.descendants c := by
  obtain ⟨h', hmem, hline⟩ := List.mem_filterMap.1 hnearest.1.mem
  obtain ⟨top', -, heq⟩ := Option.map_eq_some_iff.1 hline
  obtain rfl : h' = h := congrArg Prod.snd heq
  exact hmem

/-! ## Cursors in a declaration -/

/-- The line of a cursor belongs to a declaration, and its byte is not in front of the place
of this declaration. -/
structure CursorIn (p : Program) (locator : Locator) (line : UInt32) (offset : UInt64) (h : Handle)
    (x : Position) : Prop where
  declarationAt_eq : locator.declarationAt line = some h
  position?_eq : p.position? h = some x
  offset_le : x.offset ≤ offset

section

variable {declared : List (UInt32 × Handle)} {instructions : List (UInt64 × UInt32)} {line : UInt32}
  {offset : UInt64} {x : Position} {a : Anchor}

theorem nearest_of_anchorAt
    (ha : anchorAt p (Layout.ofLists declared instructions).locator line offset = some a) :
    ∃ byte, Nearest instructions offset (byte, a.instruction) := by
  obtain ⟨-, -, -, -, -, -, hinstruction⟩ := anchorAt_eq_some_iff.1 ha
  exact (((Layout.locator_ofLists declared instructions).2 offset).2 _).1 hinstruction

theorem CursorIn.symbol_of_anchorAt {locator : Locator}
    (hcursor : p.CursorIn locator line offset h x)
    (ha : anchorAt p locator line offset = some a) : p.symbol h = .ok a.target := by
  obtain ⟨h', -, hat, -, -, hs, -⟩ := anchorAt_eq_some_iff.1 ha
  obtain rfl : h' = h := Option.some.inj (hat.symm.trans hcursor.declarationAt_eq)
  exact hs

/-- The anchors of a cursor in a declaration name what was emitted behind the place of the
declaration exactly if there is no anchor or something was emitted there at all. -/
theorem Reachable.emittedBetween_iff (hp : p.Reachable)
    (hcursor : p.CursorIn (Layout.ofLists declared instructions).locator line offset h x) :
    (∀ a, anchorAt p (Layout.ofLists declared instructions).locator line offset = some a →
        EmittedBetween instructions x.offset offset a.instruction) ↔
      ((∃ d, p.get h = .ok d ∧ d.isMethod = true) → (∃ e ∈ instructions, e.1 ≤ offset) →
        ∃ e ∈ instructions, x.offset ≤ e.1 ∧ e.1 ≤ offset) := by
  constructor
  · rintro hkept ⟨d, hd, hmethod⟩ ⟨e, he, hle⟩
    have hfound : ∃ instruction,
        (Layout.ofLists declared instructions).locator.instructionAt offset = some instruction := by
      rw [← Option.isSome_iff_exists, Option.isSome_iff_ne_none]
      exact fun hnone =>
        (((Layout.locator_ofLists declared instructions).2 offset).1.1 hnone) e he hle
    obtain ⟨a, ha⟩ :=
      hp.exists_anchorAt_iff.2 ⟨⟨h, d, hcursor.declarationAt_eq, hd, hmethod⟩, hfound⟩
    obtain ⟨byte, hmem, hfirst, hlast⟩ := hkept a ha
    exact ⟨(byte, a.instruction), hmem, hfirst, hlast⟩
  · intro hemitted a ha
    obtain ⟨byte, hnearest⟩ := nearest_of_anchorAt ha
    obtain ⟨h', d, hat, hd, hmethod, -, -⟩ := anchorAt_eq_some_iff.1 ha
    obtain rfl : h' = h := Option.some.inj (hat.symm.trans hcursor.declarationAt_eq)
    have hsome := hemitted ⟨d, hd, hmethod⟩ ⟨_, hnearest.1.mem, hnearest.2.1⟩
    exact ⟨byte, hnearest.1.mem, hnearest.first_le_iff.2 hsome, hnearest.2.1⟩

end

/-- A class whose declarations the text places in one order, in a program in which no two
declarations share their symbol, with any instructions, and a cursor in one of the declarations.
An anchor of the cursor names this declaration alone. It names an instruction emitted between
the declaration and the cursor, unless the declaration is a method, instructions were emitted at
or before the cursor, and none of these behind the declaration. Then the anchor names the last
one in front of the declaration, and whatever is declared in front of that instruction stands
above the method. -/
theorem Reachable.emittedBetween_of_anchorAt_iff (hp : p.Reachable) (hsize : p.size ≤ UInt32.size)
    (hdistinct : p.SymbolsDistinct) {unit : Symbol} (hc : p.topLevelSymbol c = .ok unit)
    (hplaced : p.PlacedInOrder c) :
    ∃ l, Layout.ofClass p c = .ok l ∧ ∀ instructions line offset h x,
      let locator := (l.addInstructions instructions).locator
      p.CursorIn locator line offset h x →
      (∀ a, anchorAt p locator line offset = some a → ∀ m, p.symbol m = .ok a.target ↔ m = h) ∧
      ((∀ a, anchorAt p locator line offset = some a →
          EmittedBetween instructions x.offset offset a.instruction) ↔
        ((∃ d, p.get h = .ok d ∧ d.isMethod = true) → (∃ e ∈ instructions, e.1 ≤ offset) →
          ∃ e ∈ instructions, x.offset ≤ e.1 ∧ e.1 ≤ offset)) ∧
      ∀ a, anchorAt p locator line offset = some a →
        (∀ e ∈ instructions, x.offset ≤ e.1 → ¬ e.1 ≤ offset) →
        ∃ byte, Nearest instructions offset (byte, a.instruction) ∧ byte < x.offset ∧
          ∀ h' ∈ p.descendants c, ∀ x' ∈ p.position? h', x'.offset ≤ byte → x'.line < x.line := by
  have hissued : p.Issued c := by
    obtain ⟨d, hd, -⟩ := topLevelSymbol_eq_ok.1 hc
    exact issued_iff.2 ⟨d, hd⟩
  refine ⟨_, (hp.agreeing hsize).ofClass_of_issued hissued, fun instructions line offset h x => ?_⟩
  rw [← Layout.ofLists_append, List.nil_append]
  intro locator hcursor
  refine ⟨fun a ha m => ⟨fun hm => ?_, ?_⟩, hp.emittedBetween_iff hcursor, fun a ha hnone => ?_⟩
  · exact hdistinct hm (hcursor.symbol_of_anchorAt ha)
  · rintro rfl
    exact hcursor.symbol_of_anchorAt ha
  · obtain ⟨byte, hnearest⟩ := nearest_of_anchorAt ha
    -- The nearest instruction is not behind the declaration, so it is in front of it.
    have hbefore : byte < x.offset := by
      rw [← UInt64.not_le]
      intro hfirst
      exact hnone _ hnearest.1.mem hfirst hnearest.2.1
    obtain ⟨top, htop⟩ := (((Layout.locator_ofLists _ instructions).1 line).2 h).1
      hcursor.declarationAt_eq
    refine ⟨byte, hnearest, hbefore, fun h' hmem' x' hx' hle => ?_⟩
    exact hplaced.line_lt (mem_descendants_of_nearest htop) hmem' hcursor.position?_eq hx'
      (UInt64.lt_of_le_of_lt hle hbefore)

open Sample in
/-- A cursor in the body of `unlock` has an anchor with an instruction of this body. A cursor on
`lock`, which has no body, has an anchor as well, and the instruction is one of `unlock`. -/
theorem emittedBetween_of_anchorAt_iff_door :
    let p := Door.program
    p.Reachable ∧ p.size ≤ UInt32.size ∧ p.SymbolsDistinct ∧
      p.topLevelSymbol Door.door = .ok (.ofClass "demo.Door") ∧ p.PlacedInOrder Door.door ∧
      p.CursorIn Door.locator 3 47 Door.unlock ⟨28, 2⟩ ∧
      (∀ a, anchorAt p Door.locator 3 47 = some a →
        EmittedBetween Door.instructions 28 47 a.instruction) ∧
      p.CursorIn Door.locator 5 74 Door.lock ⟨72, 5⟩ ∧
      ∃ a, anchorAt p Door.locator 5 74 = some a ∧
        ∃ byte, Nearest Door.instructions 74 (byte, a.instruction) ∧ byte < 72 := by
  intro p
  have hp : p.Reachable := ⟨_, rfl⟩
  have hsize : p.size ≤ UInt32.size := by decide +kernel
  have hdistinct : p.SymbolsDistinct := by decide +kernel
  have hc : p.topLevelSymbol Door.door = .ok (.ofClass "demo.Door") := by decide +kernel
  have hplaced : p.PlacedInOrder Door.door := by decide +kernel
  have hunlock : p.CursorIn Door.locator 3 47 Door.unlock ⟨28, 2⟩ :=
    ⟨by decide +kernel, by decide +kernel, by decide⟩
  have hlock : p.CursorIn Door.locator 5 74 Door.lock ⟨72, 5⟩ :=
    ⟨by decide +kernel, by decide +kernel, by decide⟩
  have hanchor : anchorAt p Door.locator 5 74 = some ⟨.ofMethod "demo.Door" "lock" "()V", 3⟩ := by
    decide +kernel
  obtain ⟨l, hl, hcursors⟩ := hp.emittedBetween_of_anchorAt_iff hsize hdistinct hc hplaced
  have hlocator : (l.addInstructions Door.instructions).locator = Door.locator := by
    have hdoor : Layout.ofClass Door.program Door.door = .ok l := hl
    rw [Door.locator, hdoor]
    rfl
  have hinside := hcursors Door.instructions 3 47 Door.unlock ⟨28, 2⟩
  have hbehind := hcursors Door.instructions 5 74 Door.lock ⟨72, 5⟩
  rw [hlocator] at hinside hbehind
  obtain ⟨-, hkept, -⟩ := hinside hunlock
  obtain ⟨-, -, hborrowed⟩ := hbehind hlock
  obtain ⟨byte, hnearest, hbefore, -⟩ := hborrowed _ hanchor (by simp [Door.instructions])
  exact ⟨hp, hsize, hdistinct, hc, hplaced, hunlock, hkept.2 fun _ _ => ⟨(46, 3), by decide⟩,
    hlock, _, hanchor, byte, hnearest, hbefore⟩

open Sample in
/-- The cursor on `lock` has an anchor although nothing was emitted between the declaration of
`lock` and the cursor. -/
theorem not_emittedBetween_door :
    let p := Door.program
    p.Reachable ∧ p.SymbolsDistinct ∧ p.topLevelSymbol Door.door = .ok (.ofClass "demo.Door") ∧
      p.PlacedInOrder Door.door ∧ ∃ l, Layout.ofClass p Door.door = .ok l ∧
        let locator := (l.addInstructions Door.instructions).locator
        p.CursorIn locator 5 74 Door.lock ⟨72, 5⟩ ∧
          ∃ a, anchorAt p locator 5 74 = some a ∧ p.symbol Door.lock = .ok a.target ∧
            (∀ e ∈ Door.instructions, 72 ≤ e.1 → ¬ e.1 ≤ 74) ∧
            ¬ EmittedBetween Door.instructions 72 74 a.instruction := by
  intro p
  have hnone : ∀ e ∈ Door.instructions, 72 ≤ e.1 → ¬ e.1 ≤ 74 := by simp [Door.instructions]
  refine ⟨⟨_, rfl⟩, by decide +kernel, by decide +kernel, by decide +kernel, _, rfl,
    ⟨by decide +kernel, by decide +kernel, by decide⟩, ⟨.ofMethod "demo.Door" "lock" "()V", 3⟩,
    by decide +kernel, by decide +kernel, hnone, ?_⟩
  rintro ⟨byte, hmem, hfirst, hlast⟩
  exact hnone _ hmem hfirst hlast

end Program

end CrossReference
