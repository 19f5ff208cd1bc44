import CrossReference.Annotation.Anchor
import CrossReference.Proofs.Growth
import CrossReference.Proofs.Splicing

/-!
# From a cursor to a comment on a line

There is an anchor under a cursor exactly if the line belongs to a method that the program has and
the byte to an instruction (`Program.Reachable.exists_anchorAt_iff`). The anchor names the method by
its symbol, which does not depend on where the text places anything. So a comment made at the anchor
goes to the lines that were emitted for the instruction of this method, and to no others, also if
declarations have moved (`Program.Reachable.splice_comment_of_anchorAt`).
-/

namespace CrossReference.Program

variable {p : Program} {h : Handle} {locator : Locator} {line : UInt32} {offset : UInt64}

/-! ## Anchors -/

theorem methodSymbol?_eq_some_iff {s : Symbol} :
    p.methodSymbol? h = some s ↔
      ∃ d, p.get h = .ok d ∧ d.isMethod = true ∧ p.symbol h = .ok s := by
  rw [methodSymbol?]
  cases p.get h with
  | error cause => simp
  | ok d =>
    cases p.symbol h with
    | error cause => simp
    | ok s' => simp

theorem anchorAt_eq_some_iff {a : Anchor} :
    anchorAt p locator line offset = some a ↔
      ∃ h d, locator.declarationAt line = some h ∧ p.get h = .ok d ∧ d.isMethod = true ∧
        p.symbol h = .ok a.target ∧ locator.instructionAt offset = some a.instruction := by
  obtain ⟨target, instruction⟩ := a
  simp only [anchorAt, Option.bind_eq_bind, Option.bind_eq_some_iff, methodSymbol?_eq_some_iff,
    Option.pure_def, Option.some.injEq, Anchor.mk.injEq]
  constructor
  · rintro ⟨h, hat, target, ⟨d, hd, hmethod, hs⟩, instruction, hinstruction, rfl, rfl⟩
    exact ⟨h, d, hat, hd, hmethod, hs, hinstruction⟩
  · rintro ⟨h, d, hat, hd, hmethod, hs, hinstruction⟩
    exact ⟨h, hat, target, ⟨d, hd, hmethod, hs⟩, instruction, hinstruction, rfl, rfl⟩

/-- A method has a symbol: it stands in a class. -/
theorem Reachable.exists_symbol_of_isMethod (hp : p.Reachable) {d : Declaration}
    (hd : p.get h = .ok d) (hmethod : d.isMethod = true) : ∃ s, p.symbol h = .ok s := by
  have hmember : d.isClass = false := by
    cases hkind : d.kind <;> simp [Declaration.isMethod, Declaration.isClass, hkind] at hmethod ⊢
  obtain ⟨o, ho⟩ := hp.membersOwned hd hmember
  obtain ⟨around, haround, -⟩ := hp.sound.owner_isClass ho
  exact ⟨_, symbol_of_owner hd ho haround⟩

theorem Reachable.exists_anchorAt_iff (hp : p.Reachable) :
    (∃ a, anchorAt p locator line offset = some a) ↔
      (∃ h d, locator.declarationAt line = some h ∧ p.get h = .ok d ∧ d.isMethod = true) ∧
        ∃ instruction, locator.instructionAt offset = some instruction := by
  simp only [anchorAt_eq_some_iff]
  constructor
  · rintro ⟨a, h, d, hat, hd, hmethod, -, hinstruction⟩
    exact ⟨⟨h, d, hat, hd, hmethod⟩, _, hinstruction⟩
  · rintro ⟨⟨h, d, hat, hd, hmethod⟩, instruction, hinstruction⟩
    obtain ⟨s, hs⟩ := hp.exists_symbol_of_isMethod hd hmethod
    exact ⟨⟨s, instruction⟩, h, d, hat, hd, hmethod, hs, hinstruction⟩

/-! ## Moved declarations -/

/-- The program after the text has placed declarations anew. -/
def moved (p : Program) (places : List (Handle × Position)) : Program :=
  p.afterEdits (places.map fun e => .place e.1 e.2)

/-- Symbols stay what they are wherever declarations move to. -/
theorem symbol_moved {s : Symbol} (places : List (Handle × Position)) :
    (p.moved places).symbol h = .ok s ↔ p.symbol h = .ok s := by
  induction places generalizing p with
  | nil => rfl
  | cons e rest ih =>
    have hcons : p.moved (e :: rest) = (p.afterEdit (.place e.1 e.2)).moved rest := rfl
    rw [hcons, ih]
    rcases p.afterEdit_place e.1 e.2 with ⟨d, hd, heq⟩ | ⟨-, heq⟩
    · rw [heq]
      exact symbol_placed hd e.2
    · rw [heq]

/-! ## From the anchor to the line -/

/-- Whatever edits built a program, a cursor has an anchor exactly if its line belongs to a method
of the program and its byte to an instruction; the anchor consists of the symbol of the method and
the instruction. Wherever declarations move to afterwards, this is the symbol that the method has. A
comment made at the anchor and set behind any others leaves the lines of all other methods as they
are. To a line of this method it is added once for every time that the line was emitted for the
instruction, behind what the other comments add there; so it changes exactly the lines that were
emitted for the instruction. -/
theorem Reachable.splice_comment_of_anchorAt (hp : p.Reachable) (locator : Locator) (line : UInt32)
    (offset : UInt64) :
    ((∃ a, anchorAt p locator line offset = some a) ↔
      (∃ h d, locator.declarationAt line = some h ∧ p.get h = .ok d ∧ d.isMethod = true) ∧
        ∃ instruction, locator.instructionAt offset = some instruction) ∧
    ∀ a, anchorAt p locator line offset = some a →
      (∃ h, locator.declarationAt line = some h ∧ p.symbol h = .ok a.target ∧
        ∀ places, (p.moved places).symbol h = .ok a.target) ∧
      locator.instructionAt offset = some a.instruction ∧
      ∀ (s : CommentStore) (comments : List Comment) (text mark : String)
        (lines : List EmittedLine),
        let before := s.setAll comments
        let after := s.setAll (comments ++ [a.comment text])
        (∀ method, method ≠ a.target →
          after.splice method lines mark = before.splice method lines mark) ∧
        before.splice a.target lines mark = lines.map (fun l =>
          l.text ++ String.join (l.instructions.map fun instruction =>
            trailers mark (commentsOn a.target instruction comments))) ∧
        after.splice a.target lines mark = lines.map (fun l =>
          l.text ++ String.join (l.instructions.map fun instruction =>
            trailers mark (commentsOn a.target instruction comments) ++
              if instruction = a.instruction then " " ++ mark ++ text else "")) ∧
        ∀ (n : Nat) (l : EmittedLine), lines[n]? = some l →
          ((after.splice a.target lines mark)[n]? ≠ (before.splice a.target lines mark)[n]? ↔
            a.instruction ∈ l.instructions) := by
  refine ⟨hp.exists_anchorAt_iff, fun a ha => ?_⟩
  obtain ⟨h, d, hat, -, -, hs, hinstruction⟩ := anchorAt_eq_some_iff.1 ha
  refine ⟨⟨h, hat, hs, fun places => (symbol_moved places).2 hs⟩, hinstruction,
    fun s comments text mark lines => ⟨fun method hne => ?_, ?_, ?_, fun n l hl => ?_⟩⟩
  · exact List.map_congr_left fun l _ =>
      s.spliceLine_concat_of_notMem method mark (fun htarget => absurd htarget.symm hne) comments
  · exact List.map_congr_left fun l _ => s.spliceLine_setAll a.target mark comments l
  · refine List.map_congr_left fun l _ => ?_
    rw [s.spliceLine_setAll_concat]
    simp [Anchor.comment, Comment.trailer, eq_comm]
  · rw [CommentStore.splice, CommentStore.splice, List.getElem?_map, List.getElem?_map, hl]
    simp only [Option.map_some, ne_eq, Option.some.injEq]
    exact s.spliceLine_concat_ne_iff mark comments (a.comment text) l

open Sample in
/-- A comment on the second instruction of `unlock`, set behind another one there: it goes to both
places at which this instruction occurs, and to no line of `lock`, although both methods have moved
by then. -/
theorem splice_comment_of_anchorAt_door :
    let p := Door.program
    let unlock := Symbol.ofMethod "demo.Door" "unlock" "()V"
    let lock := Symbol.ofMethod "demo.Door" "lock" "()V"
    let comments : List Comment := [⟨unlock, 3, "first"⟩]
    let lines : List EmittedLine := [⟨"bolt.pull();", [3, 0, 3]⟩, ⟨"bolt = null;", [0]⟩]
    let before := CommentStore.empty.setAll comments
    let after := CommentStore.empty.setAll (comments ++ [⟨unlock, 3, "second"⟩])
    p.Reachable ∧ anchorAt p Door.locator 3 47 = some ⟨unlock, 3⟩ ∧
      (p.moved [(Door.lock, ⟨28, 2⟩), (Door.unlock, ⟨60, 3⟩)]).symbol Door.unlock = .ok unlock ∧
      after.splice lock lines "// " = before.splice lock lines "// " ∧
      after.splice unlock lines "// " =
        ["bolt.pull(); // first // second // first // second", "bolt = null;"] ∧
      (after.splice unlock lines "// ")[0]? ≠ (before.splice unlock lines "// ")[0]? := by
  intro p unlock lock comments lines before after
  have hp : p.Reachable := ⟨_, rfl⟩
  have hat : Door.locator.declarationAt 3 = some Door.unlock := by decide +kernel
  have ha : anchorAt p Door.locator 3 47 = some ⟨unlock, 3⟩ := by decide +kernel
  obtain ⟨-, hanchor⟩ := hp.splice_comment_of_anchorAt Door.locator 3 47
  obtain ⟨⟨h, hat', -, hmoved⟩, -, hsplice⟩ := hanchor _ ha
  obtain ⟨hothers, -, hspliced, hchanged⟩ :=
    hsplice CommentStore.empty comments "second" "// " lines
  obtain rfl : Door.unlock = h := Option.some.inj (hat.symm.trans hat')
  exact ⟨hp, ha, hmoved _, hothers lock (by decide), hspliced.trans (by decide +kernel),
    (hchanged 0 ⟨"bolt.pull();", [3, 0, 3]⟩ rfl).2 (by decide)⟩

end CrossReference.Program
