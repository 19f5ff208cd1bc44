import CrossReference.Batch.Basic
import CrossReference.Proofs.Indexing
import CrossReference.Proofs.Resolution

/-!
# Handles do not matter

A program can be built again with other handles, for instance by adding its declarations in another
order. `Program.Renames f p q` says that `q` declares under `f h` what `p` declares under `h`, with
the same owner up to `f`. Then every question about `f h` has in `q` the answer that the question
about `h` has in `p`, up to `f` where the answer is a handle. A pass compares handles with its
subject and asks such questions, but what it files are symbols, texts and positions; so the texts of
`p` and the texts in which all handles are replaced lead to the same index and the same outcomes
(`Index.runBatch_rename`).

Nothing is asked of `q` about other handles: it may hold further declarations.
-/

namespace CrossReference

/-! ## Replacing handles -/

namespace OrderedMap

variable {κ υ ω : Type} [Ord κ] (m : OrderedMap κ υ) (f : υ → ω)

theorem keysIncrease_map {entries : List (κ × υ)} (h : KeysIncrease entries) :
    KeysIncrease (entries.map fun e => (e.1, f e.2)) := by
  rw [KeysIncrease, List.pairwise_map]
  exact h

/-- Replaces each value, under the same key. -/
def mapValues : OrderedMap κ ω :=
  ⟨m.toList.map fun e => (e.1, f e.2), keysIncrease_map f m.increasing⟩

theorem floor?_mapValues (key : κ) :
    (m.mapValues f).floor? key = (m.floor? key).map fun e => (e.1, f e.2) := by
  rw [floor?, floor?, mapValues, List.takeWhile_map, List.getLast?_map]
  rfl

end OrderedMap

section

variable (f : Handle → Handle)

def Locator.rename (l : Locator) : Locator :=
  { l with declarationAt := fun line => (l.declarationAt line).map f }

def Layout.rename (l : Layout) : Layout := { l with declarations := l.declarations.mapValues f }

theorem Layout.locator_rename (l : Layout) : (l.rename f).locator = l.locator.rename f := by
  rw [locator, Locator.rename, rename, Locator.mk.injEq]
  refine ⟨?_, rfl⟩
  funext line
  simp [locator, OrderedMap.floor?_mapValues, Function.comp_def]

/-- The text with another handle for everything that it mentions; its lines stay as they are. -/
def ClassText.rename (text : ClassText) : ClassText :=
  { text with
    subject := f text.subject
    occurrences := text.occurrences.mapValues f
    layout := text.layout.rename f }

def ClassReport.rename (r : ClassReport) : ClassReport := { r with subject := f r.subject }

/-- The pass over the renamed text, with another program in place of the one that is renamed. -/
def Pass.rename (q : Program) (pass : Pass) : Pass :=
  { pass with program := q, subject := f pass.subject, locator := pass.locator.rename f }

end

namespace Program

variable {f : Handle → Handle} {p q : Program} {h : Handle}

/-! ## Programs that differ in their handles -/

/-- What `p` declares, `q` declares under other handles, which `f` gives. -/
structure Renames (f : Handle → Handle) (p q : Program) : Prop where
  /-- Different declarations keep different handles. -/
  injective : ∀ {h h' : Handle}, p.Issued h → p.Issued h' → f h = f h' → h = h'
  get : ∀ {h : Handle} {d : Declaration}, p.get h = .ok d → ∃ e, q.get (f h) = .ok e ∧
    e.kind = d.kind ∧ e.name = d.name ∧ e.descriptor = d.descriptor ∧ e.placement = d.placement
  owner? : ∀ {h : Handle}, p.Issued h → q.owner? (f h) = (p.owner? h).map f

instance (f : Handle → Handle) (p q : Program) : Decidable (Renames f p q) :=
  decidable_of_iff
    ((∀ h ∈ p.handles, ∀ h' ∈ p.handles, f h = f h' → h = h') ∧
      (∀ h ∈ p.handles, ∀ d ∈ p.declarations[h.index.toNat]?,
        ∃ e ∈ q.declarations[(f h).index.toNat]?, e.kind = d.kind ∧ e.name = d.name ∧
          e.descriptor = d.descriptor ∧ e.placement = d.placement) ∧
      ∀ h ∈ p.handles, q.owner? (f h) = (p.owner? h).map f) <| by
  constructor
  · rintro ⟨hinjective, hget, howner⟩
    refine ⟨fun h h' => hinjective _ (mem_handles_iff.2 h) _ (mem_handles_iff.2 h'),
      fun {h d} hd => ?_, fun hissued => howner _ (mem_handles_iff.2 hissued)⟩
    obtain ⟨e, he, hsame⟩ := hget h (mem_handles hd) d (get_eq_ok.1 hd)
    exact ⟨e, get_eq_ok.2 he, hsame⟩
  · intro hf
    refine ⟨fun h hmem h' hmem' => hf.injective (mem_handles_iff.1 hmem) (mem_handles_iff.1 hmem'),
      fun h _ d hd => ?_, fun h hmem => hf.owner? (mem_handles_iff.1 hmem)⟩
    obtain ⟨e, he, hsame⟩ := hf.get (get_eq_ok.2 hd)
    exact ⟨e, get_eq_ok.1 he, hsame⟩

theorem Sound.climb_of_le (hp : p.Sound) {enough steps : Nat} (henough : h.index.toNat ≤ enough)
    (hle : enough ≤ steps) : p.climb steps h = p.climb enough h := by
  induction hle with
  | refl => rfl
  | step hle ih => rw [hp.climb_succ (Nat.le_trans henough hle), ih]

namespace Renames

variable (hf : Renames f p q)

include hf

theorem owner?_of_some {o : Handle} {d : Declaration} (hd : p.get h = .ok d)
    (ho : p.owner? h = some o) : q.owner? (f h) = some (f o) := by
  rw [hf.owner? (issued_iff.2 ⟨d, hd⟩), ho]
  rfl

theorem placement {placement : Option Position} (h' : p.placement h = .ok placement) :
    q.placement (f h) = .ok placement := by
  rw [Program.placement] at h' ⊢
  cases hd : p.get h with
  | error cause => simp [hd, Except.map] at h'
  | ok d =>
    obtain ⟨e, he, -, -, -, hplacement⟩ := hf.get hd
    rw [hd] at h'
    obtain rfl : d.placement = placement := Except.ok.inj h'
    rw [he, ← hplacement]
    rfl

theorem symbol {s : Symbol} (hs : p.symbol h = .ok s) : q.symbol (f h) = .ok s := by
  refine symbol_eq_ok_of_found (fun hd => ?_) (fun {o} ho => ?_) hs
  · obtain ⟨e, he, hkind, hname, hdescriptor, -⟩ := hf.get hd
    exact ⟨e, he, hkind, hname, hdescriptor⟩
  · obtain ⟨d, hd, -⟩ := symbol_eq_ok hs
    exact hf.owner?_of_some hd ho

theorem declaringClass {around : Handle} (ha : p.declaringClass h = .ok around) :
    q.declaringClass (f h) = .ok (f around) := by
  obtain ⟨d, hd, hcase⟩ := declaringClass_eq_ok ha
  obtain ⟨e, he, hkind, -⟩ := hf.get hd
  have hclass : e.isClass = d.isClass := Declaration.isClass_congr hkind
  rcases hcase with ⟨hd', rfl⟩ | ⟨hd', ho⟩
  · simp [Program.declaringClass, he, hclass, hd', bind, Except.bind, pure, Except.pure]
  · have ho' : q.owner (f h) = .ok (f around) := owner_eq_ok.2 (hf.owner?_of_some hd ho)
    simp [Program.declaringClass, he, hclass, hd', ho', bind, Except.bind]

theorem topLevelSymbol {s : Symbol} (hs : p.topLevelSymbol h = .ok s) :
    q.topLevelSymbol (f h) = .ok s := by
  obtain ⟨d, hd, hclass, ho, rfl⟩ := topLevelSymbol_eq_ok.1 hs
  obtain ⟨e, he, hkind, hname, -⟩ := hf.get hd
  refine topLevelSymbol_eq_ok.2
    ⟨e, he, (Declaration.isClass_congr hkind).trans hclass, ?_, by rw [hname]⟩
  rw [hf.owner? (issued_iff.2 ⟨d, hd⟩), ho]
  rfl

theorem climb (hp : p.Sound) (hissued : p.Issued h) (steps : Nat) :
    q.climb steps (f h) = f (p.climb steps h) := by
  induction steps generalizing h with
  | zero => rfl
  | succ steps ih =>
    have howner := hf.owner? hissued
    cases ho : p.owner? h with
    | none =>
      rw [ho] at howner
      rw [climb_of_owner?_eq_none ho, climb_of_owner?_eq_none howner]
    | some o =>
      rw [ho] at howner
      obtain ⟨d, hd, -⟩ := hp.owner_isClass ho
      rw [Program.climb, Program.climb, ho, howner]
      exact ih (issued_iff.2 ⟨d, hd⟩)

/-- The two programs need not be of one size; in both, the climb has come to its end within it. -/
theorem topLevelClass (hp : p.Sound) (hq : q.Sound) {c : Handle} (hc : p.topLevelClass h = .ok c) :
    q.topLevelClass (f h) = .ok (f c) := by
  obtain ⟨⟨d, hd⟩, rfl⟩ := topLevelClass_eq_ok.1 hc
  obtain ⟨e, he, -⟩ := hf.get hd
  refine topLevelClass_eq_ok.2 ⟨⟨e, he⟩, ?_⟩
  have hsteps : p.climb (max p.size q.size) h = p.climb p.size h :=
    hp.climb_of_le (Nat.le_of_lt (index_lt_size hd)) (Nat.le_max_left ..)
  have hsteps' : q.climb (max p.size q.size) (f h) = q.climb q.size (f h) :=
    hq.climb_of_le (Nat.le_of_lt (index_lt_size he)) (Nat.le_max_right ..)
  rw [← hsteps, ← hsteps', hf.climb hp (issued_iff.2 ⟨d, hd⟩)]

end Renames

end Program

/-! ## A pass over a renamed text -/

namespace Pass

open Program

variable {f : Handle → Handle} {q : Program} {pass : Pass} {target : Handle}

/-- The program has issued the handles that the pass starts from, apart from its occurrences. -/
structure Grounded (pass : Pass) : Prop where
  subject : pass.program.Issued pass.subject
  declarationAt : ∀ {line : UInt32} {h : Handle}, pass.locator.declarationAt line = some h →
    pass.program.Issued h

variable (hf : Renames f pass.program q) (hp : pass.program.Agreeing)

include hf

theorem isOwnDeclaration_rename (hpass : pass.Grounded) (position : Position) {outermost : Handle}
    (htarget : pass.program.Issued target) (houtermost : pass.program.Issued outermost) :
    (pass.rename f q).isOwnDeclaration position (f target) (f outermost) =
      pass.isOwnDeclaration position target outermost := by
  obtain ⟨d, hd⟩ := issued_iff.1 htarget
  have hplacement := placement_of_get hd
  have hsame : f outermost = f pass.subject ↔ outermost = pass.subject :=
    ⟨hf.injective houtermost hpass.subject, congrArg f⟩
  rw [isOwnDeclaration, isOwnDeclaration, rename]
  simp only [hsame, hf.placement hplacement, hplacement]

include hp

theorem record_rename (hpass : pass.Grounded) (position : Position) (text : String) :
    (pass.rename f q).record position text = pass.record position text := by
  have hissued :
      pass.program.Issued ((pass.locator.declarationAt position.line).getD pass.subject) := by
    cases hline : pass.locator.declarationAt position.line with
    | none => exact hpass.subject
    | some h => exact hpass.declarationAt hline
  obtain ⟨d, hd⟩ := issued_iff.1 hissued
  obtain ⟨s, hs⟩ := hp.exists_symbol hd
  rw [record, record, hs]
  simp only [rename, Locator.rename, Option.getD_map, hf.symbol hs]

theorem fileRecord_rename {outermost : Handle} (htarget : pass.program.Issued target)
    (houtermost : pass.program.Issued outermost) (symbol : Symbol) (record : UsageRecord) :
    (pass.rename f q).fileRecord (f target) (f outermost) symbol record =
      pass.fileRecord target outermost symbol record := by
  obtain ⟨d, hd⟩ := issued_iff.1 htarget
  obtain ⟨e, he, hkind, -⟩ := hf.get hd
  obtain ⟨c, hc⟩ := issued_iff.1 houtermost
  obtain ⟨owner, howner⟩ := hp.exists_symbol hc
  obtain ⟨around, haround⟩ := hp.exists_declaringClass hd
  obtain ⟨a, ha⟩ := issued_iff.1 (hp.issued_of_declaringClass haround)
  obtain ⟨aroundSymbol, haroundSymbol⟩ := hp.exists_symbol ha
  have hconstructor : e.isConstructor = d.isConstructor := by
    rw [Declaration.isConstructor, Declaration.isConstructor, hkind]
  rw [fileRecord, fileRecord, rename]
  simp only [hf.symbol howner, howner, he, hd, hconstructor, hf.declaringClass haround, haround,
    hf.symbol haroundSymbol, haroundSymbol, bind, Except.bind]

theorem examine_rename (hq : q.Sound) (hpass : pass.Grounded) (position : Position)
    (htarget : pass.program.Issued target) :
    (pass.rename f q).examine position (f target) = pass.examine position target := by
  obtain ⟨d, hd⟩ := issued_iff.1 htarget
  obtain ⟨outermost, hmem, houter⟩ := hp.exists_topLevelClass htarget
  have houtermost : pass.program.Issued outermost := (hp.mem_classes_iff.1 hmem).1
  obtain ⟨s, hs⟩ := hp.exists_symbol hd
  rw [examine, examine]
  have hprogram : (pass.rename f q).program = q := rfl
  have hlines : (pass.rename f q).lines = pass.lines := rfl
  have himport (text : String) : (pass.rename f q).isImport text = pass.isImport text := rfl
  simp only [hprogram, hlines, himport, hf.topLevelClass hp.sound hq houter, houter,
    isOwnDeclaration_rename hf hpass position htarget houtermost, hf.symbol hs, hs,
    record_rename hf hp hpass, fileRecord_rename hf hp htarget houtermost, bind, Except.bind]

theorem findings_rename (hq : q.Sound) (hpass : pass.Grounded) {entries : List (Position × Handle)}
    (hentries : ∀ e ∈ entries, pass.program.Issued e.2) :
    (pass.rename f q).findings (entries.map fun e => (e.1, f e.2)) = pass.findings entries := by
  induction entries with
  | nil => rfl
  | cons e rest ih =>
    obtain ⟨hissued, hrest⟩ := List.forall_mem_cons.1 hentries
    rw [List.map_cons, findings, findings, examine_rename hf hp hq hpass e.1 hissued, ih hrest]

end Pass

/-! ## Indexing a renamed text -/

/-- The text is that of a top-level class, and mentions only what the program has issued. -/
structure ClassText.Grounded (text : ClassText) (p : Program) : Prop where
  subject : text.subject ∈ p.classes
  occurrences : ∀ e ∈ text.occurrences.toList, p.Issued e.2
  declarations : ∀ e ∈ text.layout.declarations.toList, p.Issued e.2

instance (text : ClassText) (p : Program) : Decidable (text.Grounded p) :=
  decidable_of_iff
    (text.subject ∈ p.classes ∧ (∀ e ∈ text.occurrences.toList, p.Issued e.2) ∧
      ∀ e ∈ text.layout.declarations.toList, p.Issued e.2)
    ⟨fun h => ⟨h.1, h.2.1, h.2.2⟩, fun h => ⟨h.subject, h.occurrences, h.declarations⟩⟩

namespace Index

open Program

variable {f : Handle → Handle} {p q : Program} (hf : Renames f p q) (hp : p.Agreeing) (hq : q.Sound)

include hf hp hq

theorem addClass_rename {subject : Handle} {occurrences : Occurrences} {locator : Locator}
    (hsubject : subject ∈ p.classes) (hoccurrences : ∀ e ∈ occurrences.toList, p.Issued e.2)
    (hlocator : ∀ {line : UInt32} {h : Handle}, locator.declarationAt line = some h → p.Issued h)
    (i : Index) (lines : List String) :
    i.addClass q (f subject) (occurrences.mapValues f) lines (locator.rename f) =
      i.addClass p subject occurrences lines locator := by
  obtain ⟨hissued, ho⟩ := hp.mem_classes_iff.1 hsubject
  obtain ⟨d, hd, hclass⟩ := hp.class_isClass hsubject
  have hunit : p.topLevelSymbol subject = .ok (.ofClass d.name) :=
    topLevelSymbol_eq_ok.2 ⟨d, hd, hclass, ho, rfl⟩
  let pass : Pass := ⟨p, subject, .ofClass d.name, lines, locator, i.settings⟩
  have hpass : pass.Grounded := ⟨hissued, hlocator⟩
  have hfindings : (pass.rename f q).findings (occurrences.mapValues f).toList =
      pass.findings occurrences.toList := Pass.findings_rename hf hp hq hpass hoccurrences
  rw [addClass_of_resolved _ _ _ _ _ _ hunit,
    addClass_of_resolved _ _ _ _ _ _ (hf.topLevelSymbol hunit)]
  exact congrArg (i.conclude _) hfindings

variable {text : ClassText}

theorem add_rename (htext : text.Grounded p) (i : Index) :
    i.add q (text.rename f) = i.add p text := by
  have hlocator : ∀ {line : UInt32} {h : Handle}, text.layout.locator.declarationAt line = some h →
      p.Issued h := by
    intro line h hline
    obtain ⟨e, he, rfl⟩ := Option.map_eq_some_iff.1 hline
    exact htext.declarations e ((List.takeWhile_prefix _).subset (List.mem_of_getLast? he))
  rw [add, add, ← addClass_rename hf hp hq htext.subject htext.occurrences hlocator,
    ← Layout.locator_rename]
  rfl

theorem refresh_rename (htext : text.Grounded p) (i : Index) :
    i.refresh q (text.rename f) = i.refresh p text := by
  obtain ⟨d, hd, -⟩ := hp.class_isClass htext.subject
  obtain ⟨s, hs⟩ := hp.exists_symbol hd
  have hswept : i.retractHandle q (text.rename f).subject = i.retractHandle p text.subject := by
    rw [retractHandle, retractHandle, hs, ClassText.rename, hf.symbol hs]
  rw [refresh, refresh, hswept, add_rename hf hp hq htext]

theorem processAll_rename {texts : List ClassText} (htexts : ∀ text ∈ texts, text.Grounded p)
    (i : Index) (task : BatchTask) :
    i.processAll task q (texts.map (·.rename f)) =
      ((i.processAll task p texts).1, (i.processAll task p texts).2.map (·.rename f)) := by
  induction texts generalizing i with
  | nil => rfl
  | cons text rest ih =>
    obtain ⟨htext, hrest⟩ := List.forall_mem_cons.1 htexts
    have hprocess : i.process task q (text.rename f) = i.process task p text := by
      cases task with
      | index => exact add_rename hf hp hq htext i
      | refresh => rw [process, process, refresh_rename hf hp hq htext i]
    rw [List.map_cons, processAll, processAll, hprocess, ih hrest]
    rfl

omit hf hp hq

/-- If a second program declares under other handles what the first one declares, then texts of the
first and the same texts with these handles in place lead to the same index, whichever it was
before: the same buckets with their owners and their records in order, and the same classes. The
classes go the same way, one by one; only the handles in the reports are others. -/
theorem runBatch_rename {f : Handle → Handle} {p q : Program} (hp : p.Reachable)
    (hsize : p.size ≤ UInt32.size) (hq : q.Reachable) (hf : Renames f p q)
    (i : Index) (task : BatchTask)
    {texts : List ClassText} (htexts : ∀ text ∈ texts, text.Grounded p) :
    let original := i.runBatch task p texts
    let renamed := i.runBatch task q (texts.map (·.rename f))
    renamed.1 = original.1 ∧ renamed.2.reports = original.2.reports.map (·.rename f) ∧
      renamed.2.reports.map (·.outcome) = original.2.reports.map (·.outcome) := by
  intro original renamed
  have hprocessed := processAll_rename hf (hp.agreeing hsize) hq.sound htexts i task
  have hrenamed : renamed = (original.1, ⟨original.2.reports.map (·.rename f)⟩) := by
    show ((i.processAll task q _).1, BatchReport.mk (i.processAll task q _).2) = _
    rw [hprocessed]
    rfl
  rw [hrenamed]
  refine ⟨rfl, rfl, ?_⟩
  rw [List.map_map]
  rfl

open Sample in
/-- A class and its user, added in another order: the constructor, which was the second declaration,
is now the last one. The texts name it so and lead to the same index. -/
theorem runBatch_rename_shuffled :
    let texts := [Pair.calleeText, Pair.clientText]
    let original := empty.runBatch .index Pair.program texts
    let renamed := empty.runBatch .index Pair.shuffledProgram (texts.map (·.rename Pair.shuffle))
    Pair.program.Reachable ∧ Pair.program.size ≤ UInt32.size ∧ Pair.shuffledProgram.Reachable ∧
      Renames Pair.shuffle Pair.program Pair.shuffledProgram ∧
      Pair.shuffle Pair.calleeConstructor ≠ Pair.calleeConstructor ∧
      (∀ text ∈ texts, text.Grounded Pair.program) ∧ 0 < original.1.recordCount ∧
      renamed.1 = original.1 ∧ renamed.2.reports = original.2.reports.map (·.rename Pair.shuffle) ∧
      renamed.2.reports.map (·.outcome) = original.2.reports.map (·.outcome) := by
  intro texts original renamed
  have hp : Pair.program.Reachable := ⟨_, rfl⟩
  have hsize : Pair.program.size ≤ UInt32.size := by decide +kernel
  have hq : Pair.shuffledProgram.Reachable := ⟨_, rfl⟩
  have hf : Renames Pair.shuffle Pair.program Pair.shuffledProgram := by decide +kernel
  have htexts : ∀ text ∈ texts, text.Grounded Pair.program := by decide +kernel
  have hrecords : 0 < original.1.recordCount := by decide +kernel
  exact ⟨hp, hsize, hq, hf, by decide, htexts, hrecords,
    runBatch_rename hp hsize hq hf empty .index htexts⟩

end Index

end CrossReference
