import CrossReference.Batch.Basic

/-!
# Progress

A batch announces its size, then each class as it is done, then its end. A progress bar counts these
events; a silent reporter ignores them.
-/

namespace CrossReference

/-- What a batch announces. -/
inductive ProgressEvent where
  | started (title : String) (classes : UInt64)
  | classDone (subject : Handle) (outcome : Outcome)
  | finished (failed : Nat)
deriving DecidableEq

/-- What a batch that ended with the given report has announced. -/
def BatchReport.progress (r : BatchReport) (task : BatchTask) : List ProgressEvent :=
  .started task.title (UInt64.ofNat r.reports.length)
    :: (r.reports.map fun c => .classDone c.subject c.outcome)
    ++ [.finished r.failures.length]

/-- A counter of classes. -/
structure ProgressBar where
  /-- Classes done; the counter is 64 bits wide. -/
  position : UInt64
  /-- Classes to do, if that is known. -/
  length : Option UInt64
  /-- Classes that failed. -/
  failed : Nat
deriving DecidableEq

namespace ProgressBar

/-- A bar that is drawn; it starts with nothing to do. -/
def drawn : ProgressBar := ⟨0, some 0, 0⟩

/-- A bar that is not drawn; it starts without a length. -/
def hidden : ProgressBar := ⟨0, none, 0⟩

/-- The bar after an event. Each class moves it on by one, also past its length; the end of a batch
moves it to its length. -/
def apply (bar : ProgressBar) : ProgressEvent → ProgressBar
  | .started _ classes => ⟨0, some classes, 0⟩
  | .classDone _ outcome =>
    { bar with
      position := bar.position + 1
      failed := if outcome.isFailed then bar.failed + 1 else bar.failed }
  | .finished _ => { bar with position := bar.length.getD bar.position }

def applyAll (bar : ProgressBar) (events : List ProgressEvent) : ProgressBar :=
  events.foldl apply bar

end ProgressBar

/-- Who listens to a batch. -/
inductive Reporter where
  | silent
  | bar (state : ProgressBar)
deriving DecidableEq

def Reporter.apply : Reporter → ProgressEvent → Reporter
  | silent, _ => silent
  | bar state, event => bar (state.apply event)

/-- The reporter that the settings ask for. -/
def BatchSettings.reporter (s : BatchSettings) : Reporter :=
  if s.showProgress then .bar .drawn else .silent

end CrossReference
