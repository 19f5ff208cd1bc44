import CrossReference.Index.Pass
import CrossReference.Proofs.Containment
import Mathlib.Data.List.Forall2

/-!
# What a pass finds

`Pass.Reads` says, rule by rule, what one occurrence contributes; it fixes the contribution
(`Pass.Reads.unique`), and `Pass.examine` follows it (`Pass.reads_of_examine`). What is known about
the filings of a pass is proved from these rules and does not look at the computation again.

A pass over several occurrences either reads each of them (`Pass.forall₂_reads_of_findings`) or
stops at a first one that it cannot read; it then has found what the occurrences in front of that
one contribute, and nothing of what follows counts (`Pass.exists_first_failure`).
-/

namespace CrossReference

namespace Pass

variable {pass : Pass} {position : Position} {target : Handle}

/-- The occurrence is the place where the text of the class declares the target. -/
def DeclaredHere (pass : Pass) (position : Position) (target : Handle) : Prop :=
  pass.program.topLevelClass target = .ok pass.subject ∧
    ∃ placed, pass.program.placement target = .ok (some placed) ∧ placed.offset = position.offset

/-- The text has no line for the occurrence. -/
def LineMissing (pass : Pass) (position : Position) : Prop :=
  position.line = 0 ∨ pass.lines.length < position.line.toNat

/-- The occurrence stands on a line with the given text. -/
def OnLine (pass : Pass) (position : Position) (text : String) : Prop :=
  position.line ≠ 0 ∧ pass.lines[position.line.toNat - 1]? = some text

/-- The record of an occurrence: it lies within the declaration that covers its line, or else within
the class. -/
structure RecordedAs (pass : Pass) (position : Position) (text : String) (r : UsageRecord) :
    Prop where
  within : pass.program.symbol
    ((pass.locator.declarationAt position.line).getD pass.subject) = .ok r.within
  unit : r.unit = pass.unit
  text : r.text = text
  line : r.line = position.line
  offset : r.offset = position.offset

/-- What an occurrence contributes, one rule a case. -/
inductive Reads (pass : Pass) (position : Position) (target : Handle) : Contribution → Prop where
  /-- The place where the class declares the target is no usage. -/
  | declaration (here : pass.DeclaredHere position target) : Reads pass position target .nothing
  /-- A usage needs a line. -/
  | missing (elsewhere : ¬ pass.DeclaredHere position target) (line : pass.LineMissing position) :
      Reads pass position target
        (.skipped ⟨position, .lineOutOfRange position.line pass.lines.length⟩)
  /-- An import is no usage. -/
  | importLine {text : String} (elsewhere : ¬ pass.DeclaredHere position target)
      (line : pass.OnLine position text)
      (marked : pass.settings.importMark.toList <+: text.toList) :
      Reads pass position target .nothing
  /-- A usage is filed under the target. -/
  | usage {text : String} {outermost : Handle} {symbol owner : Symbol} {d : Declaration}
      {r : UsageRecord} (elsewhere : ¬ pass.DeclaredHere position target)
      (line : pass.OnLine position text)
      (unmarked : ¬ pass.settings.importMark.toList <+: text.toList)
      (hsymbol : pass.program.symbol target = .ok symbol)
      (hd : pass.program.get target = .ok d)
      (plain : pass.settings.constructorUsesClass = false ∨ d.isConstructor = false)
      (houter : pass.program.topLevelClass target = .ok outermost)
      (howner : pass.program.symbol outermost = .ok owner)
      (hr : pass.RecordedAs position text r) :
      Reads pass position target (.filed [⟨symbol, owner, r⟩])
  /-- The usage of a constructor is filed under its class as well, if so set. -/
  | construction {text : String} {outermost around : Handle} {symbol aroundSymbol owner : Symbol}
      {d : Declaration} {r : UsageRecord} (elsewhere : ¬ pass.DeclaredHere position target)
      (line : pass.OnLine position text)
      (unmarked : ¬ pass.settings.importMark.toList <+: text.toList)
      (hsymbol : pass.program.symbol target = .ok symbol)
      (hd : pass.program.get target = .ok d)
      (doubled : pass.settings.constructorUsesClass = true ∧ d.isConstructor = true)
      (haround : pass.program.declaringClass target = .ok around)
      (haroundSymbol : pass.program.symbol around = .ok aroundSymbol)
      (houter : pass.program.topLevelClass target = .ok outermost)
      (howner : pass.program.symbol outermost = .ok owner)
      (hr : pass.RecordedAs position text r) :
      Reads pass position target (.filed [⟨symbol, owner, r⟩, ⟨aroundSymbol, owner, r⟩])

/-! ## The rules fix the contribution -/

theorem OnLine.not_lineMissing {text : String} (h : pass.OnLine position text) :
    ¬ pass.LineMissing position := by
  rintro (hzero | hbeyond)
  · exact h.1 hzero
  · obtain ⟨hlt, -⟩ := List.getElem?_eq_some_iff.1 h.2
    omega

theorem OnLine.unique {text text' : String} (h : pass.OnLine position text)
    (h' : pass.OnLine position text') : text = text' :=
  Option.some.inj (h.2.symm.trans h'.2)

theorem RecordedAs.unique {text : String} {r r' : UsageRecord}
    (h : pass.RecordedAs position text r) (h' : pass.RecordedAs position text r') : r = r' := by
  obtain ⟨hwithin, hunit, htext, hline, hoffset⟩ := h
  obtain ⟨hwithin', hunit', htext', hline', hoffset'⟩ := h'
  have hsame : r.within = r'.within := Except.ok.inj (hwithin.symm.trans hwithin')
  cases r; cases r'
  simp_all

theorem Reads.unique {c c' : Contribution} (h : pass.Reads position target c)
    (h' : pass.Reads position target c') : c = c' := by
  -- Of two different rules, one requires what the other excludes.
  cases h with
  | declaration here =>
    cases h' with
    | declaration => rfl
    | importLine => rfl
    | missing elsewhere => exact absurd here elsewhere
    | usage elsewhere => exact absurd here elsewhere
    | construction elsewhere => exact absurd here elsewhere
  | missing elsewhere line =>
    cases h' with
    | declaration here => exact absurd here elsewhere
    | missing => rfl
    | importLine _ line' => exact absurd line line'.not_lineMissing
    | usage _ line' => exact absurd line line'.not_lineMissing
    | construction _ line' => exact absurd line line'.not_lineMissing
  | importLine elsewhere line marked =>
    cases h' with
    | declaration here => exact absurd here elsewhere
    | missing _ line' => exact absurd line' line.not_lineMissing
    | importLine => rfl
    | usage _ line' unmarked => exact absurd (line.unique line' ▸ marked) unmarked
    | construction _ line' unmarked => exact absurd (line.unique line' ▸ marked) unmarked
  | usage elsewhere line unmarked hsymbol hd plain houter howner hr =>
    cases h' with
    | declaration here => exact absurd here elsewhere
    | missing _ line' => exact absurd line' line.not_lineMissing
    | importLine _ line' marked => exact absurd (line'.unique line ▸ marked) unmarked
    | usage _ line' _ hsymbol' _ _ houter' howner' hr' =>
      obtain rfl := line.unique line'
      obtain rfl := hr.unique hr'
      simp_all
    | construction _ _ _ _ hd' doubled =>
      obtain rfl := Except.ok.inj (hd.symm.trans hd')
      simp_all
  | construction elsewhere line unmarked hsymbol hd doubled haround haroundSymbol houter howner
      hr =>
    cases h' with
    | declaration here => exact absurd here elsewhere
    | missing _ line' => exact absurd line' line.not_lineMissing
    | importLine _ line' marked => exact absurd (line'.unique line ▸ marked) unmarked
    | usage _ _ _ _ hd' plain =>
      obtain rfl := Except.ok.inj (hd.symm.trans hd')
      simp_all
    | construction _ line' _ hsymbol' _ _ haround' haroundSymbol' houter' howner' hr' =>
      obtain rfl := line.unique line'
      obtain rfl := hr.unique hr'
      simp_all

/-! ## Examining follows the rules -/

theorem isOwnDeclaration_eq_ok {outermost : Handle} {own : Bool}
    (houter : pass.program.topLevelClass target = .ok outermost)
    (h : pass.isOwnDeclaration position target outermost = .ok own) :
    own = true ↔ pass.DeclaredHere position target := by
  rw [DeclaredHere, houter, Except.ok.injEq]
  rw [isOwnDeclaration] at h
  split at h
  · next hsubject =>
    obtain ⟨placement, hplaced, h⟩ := bind_eq_ok.1 h
    simp only [hsubject, hplaced, true_and, Except.ok.injEq]
    cases placement with
    | none =>
      obtain rfl : false = own := Except.ok.inj h
      simp
    | some placed =>
      obtain rfl : (placed.offset == position.offset) = own := Except.ok.inj h
      simp
  · next hsubject =>
    obtain rfl : false = own := Except.ok.inj h
    simp [hsubject]

theorem lineAt?_eq_none : lineAt? pass.lines position.line = none ↔ pass.LineMissing position := by
  rw [lineAt?, LineMissing]
  split
  · next hzero => simp [hzero]
  · next hpos =>
    have hline : position.line.toNat ≠ 0 := fun h => hpos (UInt32.toNat_inj.1 h)
    rw [List.getElem?_eq_none_iff]
    constructor
    · intro hle
      exact .inr (by omega)
    · rintro (hzero | hlt)
      · exact absurd hzero hpos
      · omega

theorem lineAt?_eq_some {text : String} :
    lineAt? pass.lines position.line = some text ↔ pass.OnLine position text := by
  rw [lineAt?, OnLine]
  split
  · next hzero => simp [hzero]
  · next hpos => simp [hpos]

theorem isImport_iff {text : String} :
    pass.isImport text = true ↔ pass.settings.importMark.toList <+: text.toList := by
  rw [isImport, List.isPrefixOf_iff_prefix]

theorem recordedAs_of_record {text : String} {r : UsageRecord}
    (h : pass.record position text = .ok r) : pass.RecordedAs position text r := by
  rw [record] at h
  obtain ⟨within, hwithin, h⟩ := bind_eq_ok.1 h
  obtain rfl := Except.ok.inj h
  exact ⟨hwithin, rfl, rfl, rfl, rfl⟩

/-- The record of a usage is filed under the target, and under the class of a constructor
if so set. -/
theorem reads_of_fileRecord {text : String} {outermost : Handle} {symbol : Symbol} {r : UsageRecord}
    {filings : List Filing} (elsewhere : ¬ pass.DeclaredHere position target)
    (line : pass.OnLine position text)
    (unmarked : ¬ pass.settings.importMark.toList <+: text.toList)
    (hsymbol : pass.program.symbol target = .ok symbol)
    (houter : pass.program.topLevelClass target = .ok outermost)
    (hr : pass.RecordedAs position text r)
    (h : pass.fileRecord target outermost symbol r = .ok filings) :
    pass.Reads position target (.filed filings) := by
  rw [fileRecord] at h
  obtain ⟨owner, howner, h⟩ := bind_eq_ok.1 h
  obtain ⟨d, hd, h⟩ := bind_eq_ok.1 h
  split at h
  · next hdouble =>
    obtain ⟨around, haround, h⟩ := bind_eq_ok.1 h
    obtain ⟨aroundSymbol, haroundSymbol, h⟩ := bind_eq_ok.1 h
    obtain rfl := Except.ok.inj h
    exact .construction elsewhere line unmarked hsymbol hd ((Bool.and_eq_true _ _).mp hdouble)
      haround haroundSymbol houter howner hr
  · next hplain =>
    obtain rfl := Except.ok.inj h
    refine .usage elsewhere line unmarked hsymbol hd ?_ houter howner hr
    rw [← Bool.and_eq_false_iff]
    exact Bool.not_eq_true _ ▸ hplain

/-- What an occurrence is found to contribute is what the rules say. -/
theorem reads_of_examine {c : Contribution} (h : pass.examine position target = .ok c) :
    pass.Reads position target c := by
  rw [examine] at h
  obtain ⟨outermost, houter, h⟩ := bind_eq_ok.1 h
  obtain ⟨own, hown, h⟩ := bind_eq_ok.1 h
  have hdeclared := isOwnDeclaration_eq_ok houter hown
  cases own with
  | true =>
    obtain rfl : Contribution.nothing = c := Except.ok.inj h
    exact .declaration (hdeclared.1 rfl)
  | false =>
    have elsewhere : ¬ pass.DeclaredHere position target := fun here =>
      Bool.false_ne_true (hdeclared.2 here)
    -- The symbol is needed even where the line is then missing or an import.
    rw [if_neg Bool.false_ne_true] at h
    obtain ⟨symbol, hsymbol, h⟩ := bind_eq_ok.1 h
    cases hline : lineAt? pass.lines position.line with
    | none =>
      rw [hline] at h
      obtain rfl := Except.ok.inj h
      exact .missing elsewhere (lineAt?_eq_none.1 hline)
    | some text =>
      rw [hline] at h
      dsimp only at h
      have line := lineAt?_eq_some.1 hline
      split at h
      · next himport =>
        obtain rfl : Contribution.nothing = c := Except.ok.inj h
        exact .importLine elsewhere line (isImport_iff.1 himport)
      · next himport =>
        obtain ⟨r, hr, h⟩ := bind_eq_ok.1 h
        obtain ⟨filings, hfilings, h⟩ := bind_eq_ok.1 h
        obtain rfl : Contribution.filed filings = c := Except.ok.inj h
        exact reads_of_fileRecord elsewhere line (mt isImport_iff.2 himport) hsymbol houter
          (recordedAs_of_record hr) hfilings

theorem Reads.unit_eq {c : Contribution} (h : pass.Reads position target c) :
    ∀ f ∈ c.filings, f.record.unit = pass.unit := by
  cases h with
  | declaration | missing | importLine => simp [Contribution.filings]
  | usage _ _ _ _ _ _ _ _ hr => simp [Contribution.filings, hr.unit]
  | construction _ _ _ _ _ _ _ _ _ _ hr => simp [Contribution.filings, hr.unit]

/-! ## Several occurrences -/

/-- A pass that comes to its end has read every occurrence. -/
theorem forall₂_reads_of_findings {entries : List (Position × Handle)}
    (h : (pass.findings entries).failure = none) :
    ∃ contributions, List.Forall₂ (fun e c => pass.Reads e.1 e.2 c) entries contributions ∧
      (pass.findings entries).filings = contributions.flatMap (·.filings) ∧
      (pass.findings entries).skipped = contributions.flatMap (·.omissions) := by
  induction entries with
  | nil => exact ⟨[], .nil, rfl, rfl⟩
  | cons e rest ih =>
    obtain ⟨position, target⟩ := e
    rw [findings] at h ⊢
    cases hexamine : pass.examine position target with
    | error cause => simp [hexamine] at h
    | ok c =>
      rw [hexamine] at h
      obtain ⟨cs, hreads, hfilings, hskipped⟩ := ih h
      refine ⟨c :: cs, .cons (reads_of_examine hexamine) hreads, ?_, ?_⟩
      · simp [hfilings]
      · simp [hskipped]

/-- A pass that is given up has a first occurrence that it cannot read. Up to there it found what it
finds in the occurrences in front, and what follows does not count. -/
theorem exists_first_failure {entries : List (Position × Handle)} {cause : ProgramError}
    (h : (pass.findings entries).failure = some cause) :
    ∃ n < entries.length,
      pass.findings (entries.take n) = { pass.findings entries with failure := none } ∧
      pass.findings (entries.take (n + 1)) = pass.findings entries := by
  induction entries with
  | nil => simp [findings] at h
  | cons e rest ih =>
    obtain ⟨position, target⟩ := e
    rw [findings] at h
    -- Either this occurrence fails, or the first failure of the rest is the first failure.
    cases hexamine : pass.examine position target with
    | error cause' => exact ⟨0, by simp, by simp [findings, hexamine], by simp [findings, hexamine]⟩
    | ok c =>
      rw [hexamine] at h
      obtain ⟨n, hn, hfront, hwhole⟩ := ih h
      refine ⟨n + 1, Nat.succ_lt_succ hn, ?_, ?_⟩
      · rw [List.take_succ_cons, findings, findings, hexamine]
        simp [hfront]
      · rw [List.take_succ_cons, findings, findings, hexamine]
        simp [hwhole]

theorem exists_reads_of_mem_findings {entries : List (Position × Handle)} {f : Filing}
    (hf : f ∈ (pass.findings entries).filings) :
    ∃ e ∈ entries, ∃ c, pass.Reads e.1 e.2 c ∧ f ∈ c.filings := by
  induction entries with
  | nil => simp [findings] at hf
  | cons e rest ih =>
    obtain ⟨position, target⟩ := e
    rw [findings] at hf
    cases hexamine : pass.examine position target with
    | error cause => simp [hexamine] at hf
    | ok c =>
      rw [hexamine] at hf
      rcases List.mem_append.1 hf with hnow | hlater
      · exact ⟨_, List.mem_cons_self, c, reads_of_examine hexamine, hnow⟩
      · obtain ⟨e, he, hreads⟩ := ih hlater
        exact ⟨e, List.mem_cons_of_mem _ he, hreads⟩

end Pass

end CrossReference
