import CrossReference.Index.Basic

/-!
# Operations on the index

The ways in which an index changes, as data: the states of an index over a program are what lists of
operations leave of the empty one. An `Answer` holds what an operation reports about itself.
-/

namespace CrossReference

/-- One step in the life of an index. -/
inductive Operation where
  /-- Index one class from its parts. -/
  | addClass (subject : Handle) (occurrences : Occurrences) (lines : List String)
      (locator : Locator)
  /-- Index the text of a class. -/
  | add (text : ClassText)
  /-- Retract the class of a text and index the text. -/
  | refresh (text : ClassText)
  /-- Retract a class. -/
  | retract (unit : Symbol)
  /-- Remove everything. -/
  | clear

/-- The answers of an operation: what was retracted and how a pass ended, where it did so. -/
structure Answer where
  tally : Option Tally := none
  outcome : Option Outcome := none
deriving DecidableEq

namespace Index

/-- Carries out an operation over a program. -/
def perform (i : Index) (p : Program) : Operation → Index × Answer
  | .addClass subject occurrences lines locator =>
    let indexed := i.addClass p subject occurrences lines locator
    (indexed.1, { outcome := some indexed.2 })
  | .add text =>
    let indexed := i.add p text
    (indexed.1, { outcome := some indexed.2 })
  | .refresh text =>
    let refreshed := i.refresh p text
    (refreshed.1, { tally := some refreshed.2.1, outcome := some refreshed.2.2 })
  | .retract unit =>
    let swept := i.retract unit
    (swept.1, { tally := some swept.2 })
  | .clear => (i.clear, {})

/-- The index after operations carried out one after another. -/
def after (i : Index) (p : Program) (operations : List Operation) : Index :=
  operations.foldl (fun i o => (i.perform p o).1) i

/-- An index is reachable over a program if some list of operations leads to it from the empty index
with the same settings. -/
def Reachable (p : Program) (i : Index) : Prop :=
  ∃ operations, i = (empty i.settings).after p operations

end Index

end CrossReference
