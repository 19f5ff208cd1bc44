import CrossReference.Batch.Basic

/-!
# Log

What each operation writes to the log. The events of an operation are a function of what it reads
and answers, so the operations themselves carry no log.
-/

namespace CrossReference

/-- How much an event matters. -/
inductive LogLevel where
  | debug
  | info
  | warn
deriving DecidableEq

def LogLevel.word : LogLevel → String
  | debug => "debug"
  | info => "info"
  | warn => "warn"

/-- An entry of the log. -/
structure LogEvent where
  level : LogLevel
  message : String
  /-- Named values, as text. -/
  fields : List (String × String)
deriving DecidableEq

/-- The event of a layout collected from a class. -/
def Layout.collected (l : Layout) (subject : Handle) : LogEvent :=
  ⟨.debug, "Collected declaration lines",
    [("class", subject.display), ("declarations", toString l.size)]⟩

/-- The event of an occurrence that a pass left out. -/
def Skipped.logged (s : Skipped) (unit : Symbol) : LogEvent :=
  ⟨.debug, "Skipping occurrence: " ++ s.reason.message,
    [("class", unit.display), ("position", s.position.display)]⟩

namespace Index

/-- The event with which a pass over a class ends. -/
def concluded (settings : UsageSettings) (unit : Symbol) (found : Findings) : LogEvent :=
  let count := toString (published settings found).length
  match found.failure with
  | none =>
    ⟨.debug, "Indexed class usages",
      [("class", unit.display), ("records", count), ("skipped", toString found.skipped.length)]⟩
  | some cause =>
    ⟨.warn, "Usage indexing failed",
      [("class", unit.display), ("published", count),
        ("error", (IndexingError.aborted unit cause).message)]⟩

def addClassLog (i : Index) (p : Program) (subject : Handle) (occurrences : Occurrences)
    (lines : List String) (locator : Locator) : List LogEvent :=
  match p.topLevelSymbol subject with
  | .error cause =>
    [⟨.warn, "Usage indexing failed",
      [("class", subject.display), ("error", (IndexingError.unresolved subject cause).message)]⟩]
  | .ok unit =>
    let pass : Pass := ⟨p, subject, unit, lines, locator, i.settings⟩
    let found := pass.findings occurrences.toList
    found.skipped.map (·.logged unit) ++ [concluded i.settings unit found]

/-- The log of indexing the text of a class. -/
def addLog (i : Index) (p : Program) (text : ClassText) : List LogEvent :=
  i.addClassLog p text.subject text.occurrences text.lines text.layout.locator

def retractLog (i : Index) (unit : Symbol) : List LogEvent :=
  let tally := (i.retract unit).2
  [⟨.debug, "Invalidated class usages",
    [("class", unit.display), ("removed_buckets", toString tally.buckets),
      ("removed_records", toString tally.records)]⟩]

/-- The log of retracting a class and indexing it again. -/
def refreshLog (i : Index) (p : Program) (text : ClassText) : List LogEvent :=
  match p.symbol text.subject with
  | .ok unit => i.retractLog unit ++ (i.retract unit).1.addLog p text
  | .error _ => i.addLog p text

/-- The log of one class of a batch. -/
def processLog (i : Index) (task : BatchTask) (p : Program) (text : ClassText) : List LogEvent :=
  match task with
  | .index => i.addLog p text
  | .refresh => i.refreshLog p text

/-- The log of the classes of a batch. -/
def processAllLog (i : Index) (task : BatchTask) (p : Program) : List ClassText → List LogEvent
  | [] => []
  | text :: rest =>
    i.processLog task p text ++ (i.process task p text).1.processAllLog task p rest

end Index

/-- The event with which a batch ends. -/
def BatchReport.concluded (r : BatchReport) (task : BatchTask) : LogEvent :=
  ⟨.info, task.title ++ " complete",
    [("classes", toString r.reports.length), ("indexed", toString r.complete),
      ("partial", toString r.incomplete), ("failed", toString r.failures.length),
      ("records", toString r.records)]⟩

def Index.batchLog (i : Index) (task : BatchTask) (p : Program) (texts : List ClassText) :
    List LogEvent :=
  i.processAllLog task p texts ++ [(i.runBatch task p texts).2.concluded task]

end CrossReference
