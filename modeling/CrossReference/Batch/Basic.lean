import CrossReference.Index.Basic

/-!
# Batches

A batch indexes the texts of many classes in their order, each as if it stood alone, and reports how
each of them went. A class that fails does not stop the others.
-/

namespace CrossReference

/-- What a batch does with each class. -/
inductive BatchTask where
  /-- Index it. -/
  | index
  /-- Retract it and index it again. -/
  | refresh
deriving DecidableEq

/-- The title under which a batch is announced. -/
def BatchTask.title : BatchTask → String
  | index => "Indexing usages"
  | refresh => "Re-indexing usages"

/-- How one class of a batch went. -/
structure ClassReport where
  subject : Handle
  outcome : Outcome
deriving DecidableEq

/-- How the classes of a batch went, in their order. -/
structure BatchReport where
  reports : List ClassReport
deriving DecidableEq

namespace BatchReport

/-- Number of classes that were indexed in full. -/
def complete (r : BatchReport) : Nat := r.reports.countP (·.outcome.isComplete)

/-- Number of classes with occurrences left out. -/
def incomplete (r : BatchReport) : Nat := r.reports.countP (·.outcome.isIncomplete)

def failures (r : BatchReport) : List ClassReport := r.reports.filter (·.outcome.isFailed)

/-- Number of records that reached the index. -/
def records (r : BatchReport) : Nat := r.reports.foldr (fun c later => c.outcome.records + later) 0

end BatchReport

namespace Index

/-- Carries out the task of a batch on one class. -/
def process (i : Index) (task : BatchTask) (p : Program) (text : ClassText) : Index × Outcome :=
  match task with
  | .index => i.add p text
  | .refresh =>
    let refreshed := i.refresh p text
    (refreshed.1, refreshed.2.2)

/-- Carries out the task of a batch on one class after another. -/
def processAll (i : Index) (task : BatchTask) (p : Program) :
    List ClassText → Index × List ClassReport
  | [] => (i, [])
  | text :: rest =>
    let step := i.process task p text
    let later := step.1.processAll task p rest
    (later.1, ⟨text.subject, step.2⟩ :: later.2)

def runBatch (i : Index) (task : BatchTask) (p : Program) (texts : List ClassText) :
    Index × BatchReport :=
  let processed := i.processAll task p texts
  (processed.1, ⟨processed.2⟩)

end Index

end CrossReference
