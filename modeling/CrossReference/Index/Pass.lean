import CrossReference.Index.Record

/-!
# Passes

A pass reads the occurrences of one class in text order and finds what each of them contributes to
the index. It does not touch the index: its findings are filings, to be published by the index.

## Main definitions

- `Pass` — what a pass reads
- `Pass.examine` — what one occurrence contributes
- `Pass.findings` — what all occurrences contribute, up to the first one that cannot be read
-/

namespace CrossReference

/-- A record on its way into a bucket. -/
structure Filing where
  /-- The declaration referred to. -/
  target : Symbol
  /-- The top-level class around the target. -/
  owner : Symbol
  record : UsageRecord
deriving DecidableEq

/-- What a pass reads. -/
structure Pass where
  program : Program
  /-- The top-level class that is read. -/
  subject : Handle
  /-- Its symbol. -/
  unit : Symbol
  /-- The lines of its text. -/
  lines : List String
  locator : Locator
  settings : UsageSettings

/-- What one occurrence contributes. -/
inductive Contribution where
  /-- Nothing: a declaration names itself, or an import is no usage. -/
  | nothing
  /-- Nothing, because the text has no such line. -/
  | skipped (what : Skipped)
  /-- Records to file, in this order. -/
  | filed (filings : List Filing)
deriving DecidableEq

namespace Contribution

def filings : Contribution → List Filing
  | filed fs => fs
  | nothing | skipped _ => []

/-- The left out occurrence of a contribution, if it is one. -/
def omissions : Contribution → List Skipped
  | skipped s => [s]
  | nothing | filed _ => []

end Contribution

/-- What the occurrences of a class contribute. -/
structure Findings where
  /-- The filings in text order. -/
  filings : List Filing := []
  /-- The occurrences left out, in text order. -/
  skipped : List Skipped := []
  /-- Why the pass was given up, if it was. -/
  failure : Option ProgramError := none
deriving DecidableEq

namespace Pass

/-- Whether the occurrence is the place where the text of the class declares the target. -/
def isOwnDeclaration (pass : Pass) (position : Position) (target outermost : Handle) :
    Except ProgramError Bool := do
  if outermost = pass.subject then
    match ← pass.program.placement target with
    | some placed => return placed.offset == position.offset
    | none => return false
  else return false

def isImport (pass : Pass) (line : String) : Bool :=
  pass.settings.importMark.toList.isPrefixOf line.toList

/-- The record of an occurrence on a line with the given text. -/
def record (pass : Pass) (position : Position) (text : String) :
    Except ProgramError UsageRecord := do
  let around := (pass.locator.declarationAt position.line).getD pass.subject
  return ⟨← pass.program.symbol around, pass.unit, text, position.line, position.offset⟩

/-- The filings of a record: under the symbol of the target, and for a constructor, if so set, under
its class as well. -/
def fileRecord (pass : Pass) (target outermost : Handle) (symbol : Symbol) (record : UsageRecord) :
    Except ProgramError (List Filing) := do
  let owner ← pass.program.symbol outermost
  let declaration ← pass.program.get target
  if pass.settings.constructorUsesClass && declaration.isConstructor then
    let around ← pass.program.symbol (← pass.program.declaringClass target)
    return [⟨symbol, owner, record⟩, ⟨around, owner, record⟩]
  else return [⟨symbol, owner, record⟩]

/-- What one occurrence contributes. A declaration of the class at its own place is nothing,
whatever its line; then the line has to exist, and has to be no import. -/
def examine (pass : Pass) (position : Position) (target : Handle) :
    Except ProgramError Contribution := do
  let outermost ← pass.program.topLevelClass target
  if ← pass.isOwnDeclaration position target outermost then return .nothing
  let symbol ← pass.program.symbol target
  match lineAt? pass.lines position.line with
  | none => return .skipped ⟨position, .lineOutOfRange position.line pass.lines.length⟩
  | some text =>
    if pass.isImport text then return .nothing
    let record ← pass.record position text
    return .filed (← pass.fileRecord target outermost symbol record)

/-- What a list of occurrences contributes, up to the first one that cannot be read. -/
def findings (pass : Pass) : List (Position × Handle) → Findings
  | [] => {}
  | (position, target) :: rest =>
    match pass.examine position target with
    | .error e => { failure := some e }
    | .ok contribution =>
      let later := pass.findings rest
      { later with
        filings := contribution.filings ++ later.filings
        skipped := contribution.omissions ++ later.skipped }

end Pass

end CrossReference
