import CrossReference.Index.Pass

/-!
# The usage index

For each declaration that is referred to, the index holds a bucket of the places that refer to it.
It is filled one top-level class at a time, and what a class contributed can be retracted again.

## Main definitions

- `Index` — buckets by target, the classes that were indexed, and settings
- `Index.query` — the known usages of a declaration
- `Index.addClass`, `Index.add` — index one class
- `Index.retract` — remove what a class contributed and what is known about its declarations
- `Index.refresh` — retract a class and index it again
-/

namespace CrossReference

/-- Usages by the declaration that is referred to. -/
structure Index where
  buckets : OrderedMap Symbol Bucket
  /-- The classes that have been indexed. -/
  units : OrderedSet Symbol
  settings : UsageSettings
deriving DecidableEq

namespace Index

def empty (settings : UsageSettings := {}) : Index := ⟨∅, ∅, settings⟩

instance : Inhabited Index := ⟨empty⟩

/-! ## Questions -/

/-- Every known usage of a declaration, in the order of filing. -/
def query (i : Index) (s : Symbol) : List UsageRecord :=
  match i.buckets.get? s with
  | some bucket => bucket.records
  | none => []

/-- The usages of a declaration given by its handle. -/
def queryHandle (i : Index) (p : Program) (h : Handle) : Except ProgramError (List UsageRecord) :=
  (p.symbol h).map i.query

def contains (i : Index) (s : Symbol) : Bool := i.buckets.contains s

def size (i : Index) : Nat := i.buckets.size

def isEmpty (i : Index) : Bool := i.buckets.isEmpty

def recordCount (i : Index) : Nat := (i.buckets.values.flatMap (·.records)).length

/-- The classes that have been indexed, in order. -/
def indexedClasses (i : Index) : List Symbol := i.units.keys

/-! ## Filing -/

/-- A bucket with more records. A new bucket belongs to the given class; one that is there
keeps its owner. -/
def extendBucket (owner : Symbol) (records : List UsageRecord) : Option Bucket → Bucket
  | some bucket => { bucket with records := bucket.records ++ records }
  | none => ⟨owner, records⟩

/-- Appends records to the bucket of a target. -/
def append (i : Index) (target owner : Symbol) (records : List UsageRecord) : Index :=
  { i with buckets := i.buckets.alter target fun known => some (extendBucket owner records known) }

def file (i : Index) (f : Filing) : Index := i.append f.target f.owner [f.record]

/-- Records of one target that are published together. -/
structure Group where
  target : Symbol
  /-- The owner that the first filing named. -/
  owner : Symbol
  records : List UsageRecord
deriving DecidableEq

/-- Adds a filing to the group of its target, or opens one at the end. -/
def addToGroups (f : Filing) : List Group → List Group
  | [] => [⟨f.target, f.owner, [f.record]⟩]
  | g :: rest =>
    if g.target = f.target then { g with records := g.records ++ [f.record] } :: rest
    else g :: addToGroups f rest

/-- Filings by target, in the order in which targets first occur. -/
def group (filings : List Filing) : List Group :=
  filings.foldl (fun groups f => addToGroups f groups) []

def appendGroup (i : Index) (g : Group) : Index := i.append g.target g.owner g.records

def publish (i : Index) (filings : List Filing) : Index :=
  (group filings).foldl appendGroup i

def stream (i : Index) (filings : List Filing) : Index := filings.foldl file i

def markIndexed (i : Index) (unit : Symbol) : Index := { i with units := i.units.insert unit () }

/-- The filings of a pass that reach the index: all of them, except that a buffered pass that is
given up publishes nothing. -/
def published (settings : UsageSettings) (found : Findings) : List Filing :=
  match settings.publication, found.failure with
  | .buffered, some _ => []
  | .buffered, none | .streaming, _ => found.filings

/-- Enters filings into the index in the way of publishing that is set. -/
def enter (i : Index) (filings : List Filing) : Index :=
  match i.settings.publication with
  | .buffered => i.publish filings
  | .streaming => i.stream filings

/-- Enters what a pass found. The class counts as indexed if the pass came to its end or left
records behind. -/
def conclude (i : Index) (unit : Symbol) (found : Findings) : Index × Outcome :=
  let filings := published i.settings found
  let entered := i.enter filings
  match found.failure with
  | none =>
    (entered.markIndexed unit,
      if found.skipped.isEmpty then .complete filings.length
      else .incomplete filings.length found.skipped)
  | some cause =>
    (if filings.isEmpty then entered else entered.markIndexed unit,
      .failed filings.length (.aborted unit cause))

/-- Indexes the occurrences of one top-level class. -/
def addClass (i : Index) (p : Program) (subject : Handle) (occurrences : Occurrences)
    (lines : List String) (locator : Locator) : Index × Outcome :=
  match p.topLevelSymbol subject with
  | .error cause => (i, .failed 0 (.unresolved subject cause))
  | .ok unit =>
    let pass : Pass := ⟨p, subject, unit, lines, locator, i.settings⟩
    i.conclude unit (pass.findings occurrences.toList)

/-- Indexes the generated text of a class with its own layout. -/
def add (i : Index) (p : Program) (text : ClassText) : Index × Outcome :=
  i.addClass p text.subject text.occurrences text.lines text.layout.locator

/-! ## Retraction -/

/-- What retracting a class leaves of a bucket: nothing if the class owns it or made all of its
records, else the records of other classes. -/
def sweepBucket (unit : Symbol) (bucket : Bucket) : Option Bucket :=
  if bucket.owner = unit then none
  else
    let kept := bucket.records.filter (·.unit ≠ unit)
    if kept.length < bucket.records.length && kept.isEmpty then none
    else some { bucket with records := kept }

/-- Number of records that an optional bucket holds. -/
def recordsOf : Option Bucket → Nat
  | some bucket => bucket.records.length
  | none => 0

/-- What retracting a class removes from one bucket. -/
def tallyBucket (unit : Symbol) (bucket : Bucket) : Tally :=
  let left := sweepBucket unit bucket
  { buckets := if left.isNone then 1 else 0
    records := bucket.records.length - recordsOf left }

/-- Removes what a class contributed and every bucket of a declaration inside it, and says how much
that was. Usages by other classes of what the class declares go too; they come back when those
classes are indexed again. -/
def retract (i : Index) (unit : Symbol) : Index × Tally :=
  ({ i with
      buckets := i.buckets.filterMap fun _ bucket => sweepBucket unit bucket
      units := i.units.erase unit },
    .sum (i.buckets.values.map (tallyBucket unit)))

/-- Retracts what a handle addresses, if the program still knows it. -/
def retractHandle (i : Index) (p : Program) (h : Handle) : Index × Tally :=
  match p.symbol h with
  | .ok unit => i.retract unit
  | .error _ => (i, {})

/-- Retracts the class of a text and indexes the text. -/
def refresh (i : Index) (p : Program) (text : ClassText) : Index × Tally × Outcome :=
  let swept := i.retractHandle p text.subject
  let indexed := swept.1.add p text
  (indexed.1, swept.2, indexed.2)

def clear (i : Index) : Index := empty i.settings

end Index

end CrossReference
