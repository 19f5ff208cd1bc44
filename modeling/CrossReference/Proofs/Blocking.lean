import CrossReference.Proofs.Attribution
import CrossReference.Proofs.ContainmentSweep

/-!
# When a pass is given up

For each occurrence a pass asks the program several questions in turn, and each of them may have no
answer. If every declaration has a handle of its own, then what is known has a symbol, and an
outermost and a declaring class that are known as well. So an occurrence can be read unless one of
two handles is not known: the one that it refers to, or the one to which its line belongs
(`Pass.BlockedBy`, `Pass.examine_eq_error_iff`). A pass is given up at the first occurrence that
cannot be read (`Pass.findings_failure_eq_some_iff`), and is not begun on anything but a top-level
class (`Program.topLevelSymbol_eq_error_iff`). There is no other way to fail
(`Index.addClass_isFailed_iff`), and with the layout that the program gives the class, lines belong
to what is known.
-/

namespace CrossReference

/-! ## The subject of a pass -/

namespace Program

variable {p : Program} {h : Handle} {cause : ProgramError}

/-- Why a pass is not begun on what a handle addresses. -/
inductive Refuses (p : Program) (h : Handle) : ProgramError → Prop where
  | unknown (hunknown : ¬ p.Issued h) : Refuses p h (.unknownHandle h)
  | member {d : Declaration} (hd : p.get h = .ok d) (hmember : d.isClass = false) :
      Refuses p h (.notAClass h)
  | nested {d : Declaration} {o : Handle} (hd : p.get h = .ok d) (hclass : d.isClass = true)
      (howner : p.owner? h = some o) : Refuses p h (.nestedClass h)

theorem expectClass_of_isClass_eq_false {d : Declaration} (hd : p.get h = .ok d)
    (hmember : d.isClass = false) : p.expectClass h = .error (.notAClass h) := by
  simp [expectClass, hd, hmember, bind, Except.bind, throw, throwThe, MonadExceptOf.throw]

theorem Refuses.topLevelSymbol (h' : p.Refuses h cause) : p.topLevelSymbol h = .error cause := by
  rw [Program.topLevelSymbol]
  cases h' with
  | unknown hunknown =>
    rw [expectClass, get_of_not_issued hunknown]
    rfl
  | member hd hmember =>
    rw [expectClass_of_isClass_eq_false hd hmember]
    rfl
  | nested hd hclass howner =>
    rw [expectClass_eq_ok.2 ⟨_, hd, hclass⟩, howner]
    rfl

theorem topLevelSymbol_eq_error_iff : p.topLevelSymbol h = .error cause ↔ p.Refuses h cause := by
  refine ⟨fun hfailed => ?_, Refuses.topLevelSymbol⟩
  -- One of the reasons applies, or else there is a symbol; and a reason fixes the cause.
  have hcause : ∀ {cause'}, p.Refuses h cause' → p.Refuses h cause := fun hrefuses =>
    Except.error.inj (hrefuses.topLevelSymbol.symm.trans hfailed) ▸ hrefuses
  by_cases hissued : p.Issued h
  · obtain ⟨d, hd⟩ := issued_iff.1 hissued
    cases hclass : d.isClass with
    | false => exact hcause (.member hd hclass)
    | true =>
      cases howner : p.owner? h with
      | some o => exact hcause (.nested hd hclass howner)
      | none =>
        have hsymbol := topLevelSymbol_eq_ok.2 ⟨d, hd, hclass, howner, rfl⟩
        exact nomatch hsymbol.symm.trans hfailed
  · exact hcause (.unknown hissued)

theorem issued_of_topLevelSymbol {unit : Symbol} (hunit : p.topLevelSymbol h = .ok unit) :
    p.Issued h := by
  obtain ⟨d, hd, -⟩ := topLevelSymbol_eq_ok.1 hunit
  exact issued_iff.2 ⟨d, hd⟩

theorem issued_of_topLevelClass {c : Handle} (hc : p.topLevelClass h = .ok c) : p.Issued h :=
  issued_iff.2 (topLevelClass_eq_ok.1 hc).1

end Program

namespace Pass

variable {pass : Pass} {position : Position} {target h : Handle} {cause : ProgramError}

/-! ## One occurrence -/

/-- The unknown handle for which an occurrence cannot be read. -/
inductive BlockedBy (pass : Pass) (position : Position) (target : Handle) : Handle → Prop where
  /-- The occurrence refers to nothing known, whatever its line. -/
  | target (hunknown : ¬ pass.program.Issued target) : BlockedBy pass position target target
  /-- The occurrence is a usage, and its line belongs to nothing known. -/
  | around {text : String} {h : Handle} (hissued : pass.program.Issued target)
      (elsewhere : ¬ pass.DeclaredHere position target) (line : pass.OnLine position text)
      (unmarked : ¬ pass.settings.importMark.toList <+: text.toList)
      (hat : pass.locator.declarationAt position.line = some h)
      (hunknown : ¬ pass.program.Issued h) : BlockedBy pass position target h

theorem examine_of_not_issued (hunknown : ¬ pass.program.Issued target) :
    pass.examine position target = .error (.unknownHandle target) := by
  rw [examine, (Program.unknown_of_not_issued hunknown).2.2.1]
  rfl

/-- What is asked about something known has an answer. -/
theorem exists_answers (hp : pass.program.Agreeing) (hissued : pass.program.Issued target)
    (position : Position) :
    ∃ outermost own symbol, pass.program.Issued outermost ∧
      pass.program.topLevelClass target = .ok outermost ∧
      pass.isOwnDeclaration position target outermost = .ok own ∧
      (own = true ↔ pass.DeclaredHere position target) ∧
      pass.program.symbol target = .ok symbol := by
  obtain ⟨d, hd⟩ := Program.issued_iff.1 hissued
  obtain ⟨outermost, hclass, houter⟩ := hp.exists_topLevelClass hissued
  obtain ⟨symbol, hsymbol⟩ := hp.exists_symbol hd
  obtain ⟨own, hown⟩ : ∃ own, pass.isOwnDeclaration position target outermost = .ok own := by
    rw [isOwnDeclaration, Program.placement_of_get hd]
    split
    · cases d.placement <;> exact ⟨_, rfl⟩
    · exact ⟨_, rfl⟩
  exact ⟨outermost, own, symbol, (hp.mem_classes_iff.1 hclass).1, houter, hown,
    isOwnDeclaration_eq_ok houter hown, hsymbol⟩

theorem exists_fileRecord (hp : pass.program.Agreeing) (hissued : pass.program.Issued target)
    {outermost : Handle} (houtermost : pass.program.Issued outermost) (symbol : Symbol)
    (r : UsageRecord) : ∃ filings, pass.fileRecord target outermost symbol r = .ok filings := by
  obtain ⟨d, hd⟩ := Program.issued_iff.1 hissued
  obtain ⟨o, ho⟩ := Program.issued_iff.1 houtermost
  obtain ⟨owner, howner⟩ := hp.exists_symbol ho
  obtain ⟨around, haround⟩ := hp.exists_declaringClass hd
  obtain ⟨a, ha⟩ := Program.issued_iff.1 (hp.issued_of_declaringClass haround)
  obtain ⟨aroundSymbol, haroundSymbol⟩ := hp.exists_symbol ha
  simp only [fileRecord, howner, hd, haround, haroundSymbol, bind, Except.bind, pure, Except.pure]
  split <;> exact ⟨_, rfl⟩

theorem examine_of_own {outermost : Handle}
    (houter : pass.program.topLevelClass target = .ok outermost)
    (hown : pass.isOwnDeclaration position target outermost = .ok true) :
    pass.examine position target = .ok .nothing := by
  rw [examine, houter]
  show (pass.isOwnDeclaration position target outermost >>= _) = _
  rw [hown]
  rfl

/-- What is left to ask about an occurrence of something known that is not declared there. -/
theorem examine_of_not_own {outermost : Handle} {symbol : Symbol}
    (houter : pass.program.topLevelClass target = .ok outermost)
    (hown : pass.isOwnDeclaration position target outermost = .ok false)
    (hsymbol : pass.program.symbol target = .ok symbol) :
    pass.examine position target =
      match lineAt? pass.lines position.line with
      | none => .ok (.skipped ⟨position, .lineOutOfRange position.line pass.lines.length⟩)
      | some text =>
        if pass.isImport text then .ok .nothing
        else do
          let r ← pass.record position text
          return .filed (← pass.fileRecord target outermost symbol r) := by
  rw [examine, houter]
  show (pass.isOwnDeclaration position target outermost >>= _) = _
  rw [hown]
  show (pass.program.symbol target >>= _) = _
  rw [hsymbol]
  rfl

theorem record_eq {around : Handle}
    (haround : (pass.locator.declarationAt position.line).getD pass.subject = around)
    (text : String) :
    pass.record position text =
      (pass.program.symbol around).map fun s =>
        ⟨s, pass.unit, text, position.line, position.offset⟩ := by
  rw [record, haround]
  cases pass.program.symbol around <;> rfl

theorem exists_record (hp : pass.program.Agreeing) {around : Handle}
    (haround : (pass.locator.declarationAt position.line).getD pass.subject = around)
    (hknown : pass.program.Issued around) (text : String) :
    ∃ r, pass.record position text = .ok r := by
  obtain ⟨a, ha⟩ := Program.issued_iff.1 hknown
  obtain ⟨s, hs⟩ := hp.exists_symbol ha
  rw [record_eq haround, hs]
  exact ⟨_, rfl⟩

theorem BlockedBy.examine (hp : pass.program.Agreeing)
    (hblocked : pass.BlockedBy position target h) :
    pass.examine position target = .error (.unknownHandle h) := by
  cases hblocked with
  | target hunknown => exact examine_of_not_issued hunknown
  | around hissued elsewhere line unmarked hat hunknown =>
    obtain ⟨outermost, own, symbol, -, houter, hown, hdeclared, hsymbol⟩ :=
      exists_answers hp hissued position
    obtain rfl : own = false := Bool.eq_false_iff.2 (mt hdeclared.1 elsewhere)
    have haround : (pass.locator.declarationAt position.line).getD pass.subject = h := by
      rw [hat, Option.getD_some]
    rw [examine_of_not_own houter hown hsymbol, lineAt?_eq_some.2 line]
    dsimp only
    rw [if_neg (mt isImport_iff.1 unmarked), record_eq haround,
      (Program.unknown_of_not_issued hunknown).2.2.2.2]
    rfl

theorem exists_blockedBy_of_examine (hp : pass.program.Agreeing)
    (hsubject : pass.program.Issued pass.subject)
    (hfailed : pass.examine position target = .error cause) :
    ∃ h, pass.BlockedBy position target h := by
  by_cases hissued : pass.program.Issued target
  case neg => exact ⟨target, .target hissued⟩
  obtain ⟨outermost, own, symbol, houtermost, houter, hown, hdeclared, hsymbol⟩ :=
    exists_answers hp hissued position
  cases own with
  | true => exact nomatch (examine_of_own houter hown).symm.trans hfailed
  | false =>
    rw [examine_of_not_own houter hown hsymbol] at hfailed
    split at hfailed
    · cases hfailed
    · next text hline =>
      split at hfailed
      · cases hfailed
      · next himport =>
        -- The line belongs to the class itself unless the layout says something else.
        obtain ⟨around, haround⟩ :
            ∃ around, (pass.locator.declarationAt position.line).getD pass.subject = around :=
          ⟨_, rfl⟩
        by_cases hknown : pass.program.Issued around
        · obtain ⟨r, hr⟩ := exists_record hp haround hknown text
          obtain ⟨filings, hfilings⟩ := exists_fileRecord hp hissued houtermost symbol r
          simp only [hr, bind, Except.bind, hfilings] at hfailed
          cases hfailed
        · cases hat : pass.locator.declarationAt position.line with
          | none =>
            rw [hat, Option.getD_none] at haround
            exact absurd (haround ▸ hsubject) hknown
          | some h =>
            obtain rfl : h = around := by rwa [hat, Option.getD_some] at haround
            exact ⟨h, .around hissued (mt hdeclared.2 Bool.false_ne_true) (lineAt?_eq_some.1 hline)
              (mt isImport_iff.2 himport) hat hknown⟩

/-- The only failure of reading an occurrence is a handle that is not known. -/
theorem examine_eq_error_iff (hp : pass.program.Agreeing)
    (hsubject : pass.program.Issued pass.subject) :
    pass.examine position target = .error cause ↔
      ∃ h, pass.BlockedBy position target h ∧ cause = .unknownHandle h := by
  constructor
  · intro hfailed
    obtain ⟨h, hblocked⟩ := exists_blockedBy_of_examine hp hsubject hfailed
    exact ⟨h, hblocked, Except.error.inj (hfailed.symm.trans (hblocked.examine hp))⟩
  · rintro ⟨h, hblocked, rfl⟩
    exact hblocked.examine hp

/-- If lines belong to what is known, only an occurrence of something unknown cannot be read. -/
theorem exists_blockedBy_iff
    (hlocator : ∀ line h, pass.locator.declarationAt line = some h → pass.program.Issued h) :
    (∃ h, pass.BlockedBy position target h) ↔ ¬ pass.program.Issued target := by
  constructor
  · rintro ⟨h, hunknown | ⟨_, _, _, _, hat, hunknown⟩⟩
    · exact hunknown
    · exact absurd (hlocator _ _ hat) hunknown
  · exact fun hunknown => ⟨target, .target hunknown⟩

/-! ## Several occurrences -/

/-- The unknown handle for which the first of the occurrences that cannot be read is so. -/
inductive FirstBlockedBy (pass : Pass) : List (Position × Handle) → Handle → Prop where
  | here {e : Position × Handle} {rest : List (Position × Handle)} {h : Handle}
      (hblocked : pass.BlockedBy e.1 e.2 h) : FirstBlockedBy pass (e :: rest) h
  | later {e : Position × Handle} {rest : List (Position × Handle)} {h : Handle}
      (hread : ∀ h', ¬ pass.BlockedBy e.1 e.2 h') (hrest : FirstBlockedBy pass rest h) :
      FirstBlockedBy pass (e :: rest) h

theorem exists_firstBlockedBy_iff {entries : List (Position × Handle)} :
    (∃ h, pass.FirstBlockedBy entries h) ↔ ∃ e ∈ entries, ∃ h, pass.BlockedBy e.1 e.2 h := by
  constructor
  · rintro ⟨h, hfirst⟩
    induction hfirst with
    | here hblocked => exact ⟨_, List.mem_cons_self, _, hblocked⟩
    | later _ _ ih =>
      obtain ⟨e, he, hblocked⟩ := ih
      exact ⟨e, List.mem_cons_of_mem _ he, hblocked⟩
  · rintro ⟨e, he, hblocked⟩
    induction entries with
    | nil => cases he
    | cons e' rest ih =>
      by_cases hnow : ∃ h, pass.BlockedBy e'.1 e'.2 h
      · obtain ⟨h, hnow⟩ := hnow
        exact ⟨h, .here hnow⟩
      · obtain rfl | he := List.mem_cons.1 he
        · exact absurd hblocked hnow
        · obtain ⟨h, hfirst⟩ := ih he
          exact ⟨h, .later (not_exists.1 hnow) hfirst⟩

/-- A pass is given up for the unknown handle of the first occurrence that cannot be read. -/
theorem findings_failure_eq_some_iff (hp : pass.program.Agreeing)
    (hsubject : pass.program.Issued pass.subject) {entries : List (Position × Handle)} :
    (pass.findings entries).failure = some cause ↔
      ∃ h, pass.FirstBlockedBy entries h ∧ cause = .unknownHandle h := by
  constructor
  · intro hfailed
    induction entries with
    | nil => cases hfailed
    | cons e rest ih =>
      cases hexamine : pass.examine e.1 e.2 with
      | error cause' =>
        simp only [findings, hexamine] at hfailed
        obtain rfl := Option.some.inj hfailed
        obtain ⟨h, hblocked, hcause⟩ := (examine_eq_error_iff hp hsubject).1 hexamine
        exact ⟨h, .here hblocked, hcause⟩
      | ok c =>
        simp only [findings, hexamine] at hfailed
        obtain ⟨h, hfirst, hcause⟩ := ih hfailed
        refine ⟨h, .later (fun h' hblocked => ?_) hfirst, hcause⟩
        rw [(examine_eq_error_iff hp hsubject).2 ⟨h', hblocked, rfl⟩] at hexamine
        cases hexamine
  · rintro ⟨h, hfirst, rfl⟩
    induction hfirst with
    | @here e rest h hblocked =>
      have hexamine := (examine_eq_error_iff hp hsubject).2 ⟨h, hblocked, rfl⟩
      simp only [findings, hexamine]
    | @later e rest h hread _ ih =>
      cases hexamine : pass.examine e.1 e.2 with
      | error cause =>
        obtain ⟨h', hblocked, -⟩ := (examine_eq_error_iff hp hsubject).1 hexamine
        exact absurd hblocked (hread h')
      | ok c => simpa only [findings, hexamine] using ih

end Pass

namespace Index

variable {p : Program} {subject : Handle} {unit : Symbol} (i : Index) (occurrences : Occurrences)
  (lines : List String) (locator : Locator)

/-! ## Indexing a class -/

/-- The error of an outcome is the failure of the findings. -/
theorem conclude_eq_failed_iff {found : Findings} {error : IndexingError} :
    (∃ n, (i.conclude unit found).2 = .failed n error) ↔
      ∃ cause, found.failure = some cause ∧ error = .aborted unit cause := by
  cases hfailure : found.failure with
  | none =>
    rw [conclude_of_failure_none i unit hfailure]
    constructor
    · rintro ⟨n, hended⟩
      dsimp only at hended
      split at hended <;> cases hended
    · rintro ⟨cause, ⟨⟩, -⟩
  | some cause =>
    rw [conclude_of_failure_some i unit hfailure]
    simp [eq_comm]

theorem addClass_eq_failed_iff (hp : p.Agreeing) (hunit : p.topLevelSymbol subject = .ok unit)
    {error : IndexingError} :
    (∃ n, (i.addClass p subject occurrences lines locator).2 = .failed n error) ↔
      ∃ h, Pass.FirstBlockedBy ⟨p, subject, unit, lines, locator, i.settings⟩ occurrences.toList h ∧
        error = .aborted unit (.unknownHandle h) := by
  have hissued : p.Issued subject := Program.issued_of_topLevelSymbol hunit
  rw [addClass_of_resolved i p subject occurrences lines locator hunit, conclude_eq_failed_iff]
  constructor
  · rintro ⟨cause, hfailure, rfl⟩
    obtain ⟨h, hfirst, rfl⟩ := (Pass.findings_failure_eq_some_iff hp hissued).1 hfailure
    exact ⟨h, hfirst, rfl⟩
  · rintro ⟨h, hfirst, rfl⟩
    exact ⟨_, (Pass.findings_failure_eq_some_iff hp hissued).2 ⟨h, hfirst, rfl⟩, rfl⟩

theorem isFailed_addClass_of_topLevelSymbol (hp : p.Agreeing)
    (hunit : p.topLevelSymbol subject = .ok unit) :
    (i.addClass p subject occurrences lines locator).2.isFailed = true ↔
      ∃ e ∈ occurrences.toList, ∃ h,
        Pass.BlockedBy ⟨p, subject, unit, lines, locator, i.settings⟩ e.1 e.2 h := by
  rw [← Pass.exists_firstBlockedBy_iff,
    addClass_of_resolved i p subject occurrences lines locator hunit, conclude_isFailed,
    Option.isSome_iff_exists]
  have hissued : p.Issued subject := Program.issued_of_topLevelSymbol hunit
  constructor
  · rintro ⟨cause, hfailure⟩
    obtain ⟨h, hfirst, -⟩ := (Pass.findings_failure_eq_some_iff hp hissued).1 hfailure
    exact ⟨h, hfirst⟩
  · rintro ⟨h, hfirst⟩
    exact ⟨_, (Pass.findings_failure_eq_some_iff hp hissued).2 ⟨h, hfirst, rfl⟩⟩

/-- Over any program that edits lead to, as long as handles have not run out: a pass fails if and
only if its subject is not a known top-level class, or an occurrence refers to something unknown, or
an occurrence that is a usage is on a line that belongs to something unknown. In the first case the
index stays as it was, and the error names the subject and says why; else it names the class and the
unknown handle of the first such occurrence in text order. With the layout that the program gives
the class, lines belong to what is known, so a pass over a top-level class then fails if and only if
an occurrence refers to something unknown, whatever the lines are. -/
theorem addClass_isFailed_iff (hp : p.Reachable) (hsize : p.size ≤ UInt32.size) (subject : Handle) :
    (∀ occurrences lines locator,
      let ended := i.addClass p subject occurrences lines locator
      let pass := fun unit => Pass.mk p subject unit lines locator i.settings
      (ended.2.isFailed = true ↔ (∃ cause, p.Refuses subject cause) ∨
        ∃ unit, p.topLevelSymbol subject = .ok unit ∧
          ∃ e ∈ occurrences.toList, ∃ h, (pass unit).BlockedBy e.1 e.2 h) ∧
      (∀ cause, p.Refuses subject cause → ended = (i, .failed 0 (.unresolved subject cause))) ∧
      ∀ unit, p.topLevelSymbol subject = .ok unit →
        p.symbol subject = .ok unit ∧
        ∀ error, (∃ n, ended.2 = .failed n error) ↔
          ∃ h, (pass unit).FirstBlockedBy occurrences.toList h ∧
            error = .aborted unit (.unknownHandle h)) ∧
    ∀ unit, p.topLevelSymbol subject = .ok unit → ∃ l, Layout.ofClass p subject = .ok l ∧
      ∀ occurrences lines, (i.addClass p subject occurrences lines l.locator).2.isFailed = true ↔
        ∃ e ∈ occurrences.toList, ¬ p.Issued e.2 := by
  have hagreeing : p.Agreeing := hp.agreeing hsize
  refine ⟨fun occurrences lines locator => ?_, fun unit hunit => ?_⟩
  · intro ended pass
    have hrefused : ∀ cause, p.Refuses subject cause →
        ended = (i, .failed 0 (.unresolved subject cause)) := fun cause hrefuses =>
      addClass_of_unresolved i p subject occurrences lines locator hrefuses.topLevelSymbol
    refine ⟨?_, hrefused, fun unit hunit => ⟨Program.symbol_of_topLevelSymbol hunit, fun error =>
      addClass_eq_failed_iff i occurrences lines locator hagreeing hunit⟩⟩
    cases hunit : p.topLevelSymbol subject with
    | error cause =>
      have hrefuses := Program.topLevelSymbol_eq_error_iff.1 hunit
      rw [hrefused cause hrefuses]
      exact ⟨fun _ => .inl ⟨cause, hrefuses⟩, fun _ => rfl⟩
    | ok unit =>
      have hnone : ¬ ∃ cause, p.Refuses subject cause := fun ⟨cause, hrefuses⟩ =>
        nomatch hunit.symm.trans hrefuses.topLevelSymbol
      rw [isFailed_addClass_of_topLevelSymbol i occurrences lines locator hagreeing hunit,
        or_iff_right hnone]
      constructor
      · exact fun hblocked => ⟨unit, rfl, hblocked⟩
      · rintro ⟨unit', ⟨⟩, hblocked⟩
        exact hblocked
  · have hissued : p.Issued subject := Program.issued_of_topLevelSymbol hunit
    have htop : p.topLevelClass subject = .ok subject :=
      Program.topLevelClass_of_topLevelSymbol hunit
    have hl := hagreeing.ofClass_of_issued hissued
    have hinside := Layout.inside_ofClass hp hsize htop hl
    refine ⟨_, hl, fun occurrences lines => ?_⟩
    rw [isFailed_addClass_of_topLevelSymbol i occurrences lines _ hagreeing hunit]
    refine exists_congr fun e => and_congr_right fun _ =>
      Pass.exists_blockedBy_iff fun line h hat => ?_
    exact Program.issued_of_topLevelClass (hinside.topLevelClass_of_declarationAt hat)

open Sample in
/-- A pass over a method is refused. If the third line is said to belong to something unknown,
a pass over the class fails at the first usage there, behind an import and the declaration of
the method; with the class's own layout it fails at the mention of something unknown, even
without any lines. -/
theorem addClass_isFailed_iff_client :
    let p := Pair.program
    let index := empty
    let unit := Symbol.ofClass "demo.Client"
    let locator : Locator := ⟨fun line => if line = 3 then some ⟨9⟩ else none, fun _ => none⟩
    p.Reachable ∧ p.size ≤ UInt32.size ∧
      index.addClass p Pair.clientRun ∅ [] locator =
        (index, .failed 0 (.unresolved Pair.clientRun (.notAClass Pair.clientRun))) ∧
      (∃ n, (index.addClass p Pair.client Pair.clientText.occurrences Pair.clientLines locator).2 =
        .failed n (.aborted unit (.unknownHandle ⟨9⟩))) ∧
      ∃ l, Layout.ofClass p Pair.client = .ok l ∧
        (index.addClass p Pair.client Pair.brokenText.occurrences [] l.locator).2.isFailed =
          true := by
  intro p index unit locator
  have hp : p.Reachable := ⟨_, rfl⟩
  have hsize : p.size ≤ UInt32.size := by decide +kernel
  have hunit : p.topLevelSymbol Pair.client = .ok unit := by rfl
  have hunknown : ¬ p.Issued ⟨9⟩ := by decide +kernel
  let pass : Pass := ⟨p, Pair.client, unit, Pair.clientLines, locator, index.settings⟩
  -- In front of the constructor, both targets are known and both lines belong to nothing else.
  have hfirst : pass.FirstBlockedBy Pair.clientText.occurrences.toList ⟨9⟩ := by
    have hfront : ∀ {position target}, p.Issued target → position.line ≠ 3 →
        ∀ h, ¬ pass.BlockedBy position target h := by
      rintro position target hissued hline h (htarget | ⟨_, _, _, _, hat, -⟩)
      · exact htarget hissued
      · exact nomatch (if_neg hline).symm.trans hat
    have hconstructor : pass.BlockedBy ⟨38, 3⟩ Pair.calleeConstructor ⟨9⟩ := by
      have line : pass.OnLine ⟨38, 3⟩ " new Callee().hit();" := ⟨by decide, rfl⟩
      refine .around (by decide +kernel) ?_ line (by decide +kernel) rfl hunknown
      rintro ⟨houter, -⟩
      exact absurd (Program.topLevelClass_eq_ok.1 houter).2 (by decide +kernel)
    exact .later (hfront (by decide +kernel) (by decide)) <|
      .later (hfront (by decide +kernel) (by decide)) <| .here hconstructor
  have hrefuses : p.Refuses Pair.clientRun (.notAClass Pair.clientRun) := .member rfl rfl
  obtain ⟨l, hl, hown⟩ := (index.addClass_isFailed_iff hp hsize Pair.client).2 unit hunit
  refine ⟨hp, hsize,
    ((index.addClass_isFailed_iff hp hsize Pair.clientRun).1 ∅ [] locator).2.1 _ hrefuses, ?_,
    l, hl, (hown _ _).2 ⟨(⟨42, 3⟩, ⟨9⟩), by decide +kernel, hunknown⟩⟩
  exact ((((index.addClass_isFailed_iff hp hsize Pair.client).1 Pair.clientText.occurrences
    Pair.clientLines locator).2.2 unit hunit).2 _).2 ⟨⟨9⟩, hfirst, rfl⟩

end Index

end CrossReference
