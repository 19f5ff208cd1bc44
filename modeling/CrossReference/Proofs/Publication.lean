import CrossReference.Proofs.Indexing

/-!
# Ways of publishing

A pass that comes to its end ends the same way and leaves the same index whether its records are
published together or each as it is found (`Index.addClass_publishing`). What a pass finds does not
depend on the way of publishing (`Pass.findings_congr`), and what it has found is entered in either
way as if streamed (`Index.enter_eq_stream`). Only a pass that is given up makes a difference
(`Index.addClass_of_failed`).
-/

namespace CrossReference

namespace Pass

variable (pass : Pass) {settings : UsageSettings}

theorem fileRecord_congr (h : settings.constructorUsesClass = pass.settings.constructorUsesClass)
    (target outermost : Handle) (symbol : Symbol) (record : UsageRecord) :
    fileRecord { pass with settings } target outermost symbol record =
      pass.fileRecord target outermost symbol record := by
  rw [fileRecord, fileRecord, h]

theorem examine_congr (hmark : settings.importMark = pass.settings.importMark)
    (hdouble : settings.constructorUsesClass = pass.settings.constructorUsesClass)
    (position : Position) (target : Handle) :
    examine { pass with settings } position target = pass.examine position target := by
  have himport : ∀ text, isImport { pass with settings } text = pass.isImport text := fun text => by
    rw [isImport, isImport, hmark]
  rw [examine, examine]
  simp only [himport, fileRecord_congr pass hdouble]
  -- The other questions that a pass asks are about the program and the text.
  rfl

/-- Of the settings a pass reads what marks an import and whether constructors count twice. -/
theorem findings_congr (hmark : settings.importMark = pass.settings.importMark)
    (hdouble : settings.constructorUsesClass = pass.settings.constructorUsesClass)
    (entries : List (Position × Handle)) :
    findings { pass with settings } entries = pass.findings entries := by
  induction entries with
  | nil => rfl
  | cons e rest ih => rw [findings, findings, examine_congr pass hmark hdouble, ih]

end Pass

namespace Index

open Sample

/-- The same index, set to another way of publishing. -/
def publishing (i : Index) (way : Publication) : Index :=
  { i with settings := { i.settings with publication := way } }

variable (i : Index) (way : Publication)

theorem stream_publishing (filings : List Filing) :
    (i.publishing way).stream filings = (i.stream filings).publishing way := by
  induction filings generalizing i with
  | nil => rfl
  | cons f rest ih => exact ih (i.file f)

variable (p : Program) (subject : Handle) (occurrences : Occurrences) (lines : List String)
  (locator : Locator)

theorem findings_publishing (unit : Symbol) (entries : List (Position × Handle)) :
    Pass.findings ⟨p, subject, unit, lines, locator, (i.publishing way).settings⟩ entries =
      Pass.findings ⟨p, subject, unit, lines, locator, i.settings⟩ entries :=
  @Pass.findings_congr ⟨p, subject, unit, lines, locator, i.settings⟩ (i.publishing way).settings
    rfl rfl entries

/-- A pass that comes to its end under one way of publishing does so under the other, reports
the same and leaves the same buckets, each with its owner and its records in order, and the same
list of classes. -/
theorem addClass_publishing (way' : Publication)
    (hdone : ((i.publishing way).addClass p subject occurrences lines locator).2.isFailed = false) :
    let one := (i.publishing way).addClass p subject occurrences lines locator
    let other := (i.publishing way').addClass p subject occurrences lines locator
    other.2 = one.2 ∧ other.1.buckets = one.1.buckets ∧ other.1.units = one.1.units := by
  intro one other
  obtain ⟨unit, hunit⟩ := exists_topLevelSymbol_of_done _ p subject occurrences lines locator hdone
  let found := Pass.findings ⟨p, subject, unit, lines, locator, i.settings⟩ occurrences.toList
  have hpass : ∀ way, (i.publishing way).addClass p subject occurrences lines locator =
      (i.publishing way).conclude unit found := fun way => by
    rw [addClass_of_resolved _ p subject occurrences lines locator hunit, findings_publishing]
  have hfailure : found.failure = none := by
    have hisFailed := conclude_isFailed (i.publishing way) unit found
    rw [← hpass way, hdone] at hisFailed
    exact Option.isSome_eq_false_iff.1 hisFailed.symm |> Option.isNone_iff_eq_none.1
  have hended : ∀ way, (i.publishing way).addClass p subject occurrences lines locator =
      (((i.stream found.filings).publishing way).markIndexed unit,
        if found.skipped.isEmpty then .complete found.filings.length
        else .incomplete found.filings.length found.skipped) := fun way => by
    rw [hpass way, conclude_of_failure_none _ unit hfailure, stream_publishing]
  have hone : one = _ := hended way
  have hother : other = _ := hended way'
  rw [hone, hother]
  exact ⟨rfl, rfl, rfl⟩

/-- A constructor and its class are filed twice with a method between them, so that three groups are
published where five records are streamed. -/
theorem addClass_publishing_interleaved :
    let index := empty.after Pair.program [.add Pair.calleeText]
    let occurrences : Occurrences := .ofList
      [(⟨38, 3⟩, Pair.calleeConstructor), (⟨47, 3⟩, Pair.calleeHit),
       (⟨60, 3⟩, Pair.calleeConstructor)]
    let streamed := (index.publishing .streaming).addClass Pair.program Pair.client occurrences
      Pair.clientLines Pair.clientLayout.locator
    let buffered := (index.publishing .buffered).addClass Pair.program Pair.client occurrences
      Pair.clientLines Pair.clientLayout.locator
    streamed.2.isFailed = false ∧ streamed.2.records = 5 ∧ streamed.1.size = 3 ∧
      buffered.2 = streamed.2 ∧ buffered.1.buckets = streamed.1.buckets ∧
      buffered.1.units = streamed.1.units := by
  intro index occurrences streamed buffered
  have hdone : streamed.2.isFailed = false := by decide
  have hrecords : streamed.2.records = 5 := by decide
  have hsize : streamed.1.size = 3 := by decide
  exact ⟨hdone, hrecords, hsize, addClass_publishing index .streaming Pair.program Pair.client
    occurrences Pair.clientLines Pair.clientLayout.locator .buffered hdone⟩

end Index

end CrossReference
