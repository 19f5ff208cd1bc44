import CrossReference.Index.Operation
import CrossReference.Proofs.Filing
import CrossReference.Proofs.Findings
import CrossReference.Sample

/-!
# Indexing a class

What indexing one class does to an index and what it reports. Everything that reaches the index is a
list of filings, `Index.filingsOf`, which does not depend on the index but for its settings; the
index then has these filings streamed into it, in either way of publishing.

## Main statements

- `Index.query_addClass_of_done` — after a pass that came to its end, each declaration has its
  earlier usages and behind them those that the rules of `Pass.Reads` give, in text order
- `Index.addClass_of_failed` — a pass that was given up leaves nothing in an index that is buffered,
  and in an index that is streamed exactly what stands in front of the first unreadable occurrence
- `Index.IsInvariant.of_reachable` — what passes, retractions and clearing keep holds of every index
  that operations can reach
-/

namespace CrossReference

namespace OrderedMap

variable {κ υ : Type} [Ord κ]

/-- The entries of the first `n` keys. -/
def take (m : OrderedMap κ υ) (n : Nat) : OrderedMap κ υ :=
  ⟨m.toList.take n, m.increasing.sublist (List.take_sublist n _)⟩

@[simp] theorem toList_take (m : OrderedMap κ υ) (n : Nat) :
    (m.take n).toList = m.toList.take n := rfl

end OrderedMap

namespace Index

open Sample

/-! ## Entering findings -/

variable (i : Index)

theorem published_of_failure_none {settings : UsageSettings} {found : Findings}
    (h : found.failure = none) : published settings found = found.filings := by
  rw [published, h]
  cases settings.publication <;> rfl

theorem conclude_of_failure_none (unit : Symbol) {found : Findings} (h : found.failure = none) :
    i.conclude unit found =
      ((i.stream found.filings).markIndexed unit,
        if found.skipped.isEmpty then .complete found.filings.length
        else .incomplete found.filings.length found.skipped) := by
  rw [conclude, published_of_failure_none h, h, enter_eq_stream]

/-- Of a pass that was given up, what reached the index is streamed into it, and the class is listed
if that was anything. -/
theorem conclude_of_failure_some (unit : Symbol) {found : Findings} {cause : ProgramError}
    (h : found.failure = some cause) :
    i.conclude unit found =
      (if (published i.settings found).isEmpty then i.stream (published i.settings found)
        else (i.stream (published i.settings found)).markIndexed unit,
        .failed (published i.settings found).length (.aborted unit cause)) := by
  rw [conclude, h, enter_eq_stream]

theorem conclude_buckets (unit : Symbol) (found : Findings) :
    (i.conclude unit found).1.buckets = (i.stream (published i.settings found)).buckets := by
  cases h : found.failure with
  | none =>
    rw [conclude_of_failure_none i unit h, published_of_failure_none h]
    rfl
  | some cause =>
    rw [conclude_of_failure_some i unit h]
    dsimp only
    split <;> rfl

theorem conclude_settings (unit : Symbol) (found : Findings) :
    (i.conclude unit found).1.settings = i.settings := by
  cases h : found.failure with
  | none =>
    rw [conclude_of_failure_none i unit h]
    exact stream_settings i _
  | some cause =>
    rw [conclude_of_failure_some i unit h]
    dsimp only
    split <;> exact stream_settings i _

theorem conclude_records (unit : Symbol) (found : Findings) :
    (i.conclude unit found).2.records = (published i.settings found).length := by
  cases h : found.failure with
  | none =>
    rw [conclude_of_failure_none i unit h, published_of_failure_none h]
    dsimp only
    split <;> rfl
  | some cause =>
    rw [conclude_of_failure_some i unit h]
    rfl

theorem conclude_isFailed (unit : Symbol) (found : Findings) :
    (i.conclude unit found).2.isFailed = found.failure.isSome := by
  cases h : found.failure with
  | none =>
    rw [conclude_of_failure_none i unit h]
    dsimp only
    split <;> rfl
  | some cause =>
    rw [conclude_of_failure_some i unit h]
    rfl

/-- A pass that was given up lists its class exactly if something of it reached the index. -/
theorem conclude_units_of_failure_some (unit : Symbol) {found : Findings} {cause : ProgramError}
    (h : found.failure = some cause) :
    (i.conclude unit found).1.units =
      if 0 < (published i.settings found).length then i.units.insert unit () else i.units := by
  rw [conclude_of_failure_some i unit h]
  cases published i.settings found with
  | nil => rfl
  | cons f rest =>
    have hpos : 0 < (f :: rest).length := Nat.succ_pos _
    rw [if_pos hpos]
    exact congrArg (·.insert unit ()) (stream_units i _)

theorem conclude_of_failure_buffered (unit : Symbol) {found : Findings} {cause : ProgramError}
    (h : found.failure = some cause) (hbuffered : i.settings.publication = .buffered) :
    i.conclude unit found = (i, .failed 0 (.aborted unit cause)) := by
  have hnothing : published i.settings found = [] := by rw [published, hbuffered, h]
  rw [conclude_of_failure_some i unit h, hnothing]
  rfl

/-- In a streamed index it does not matter to what is published whether a pass was given up. -/
theorem published_of_streaming {settings : UsageSettings} (h : settings.publication = .streaming)
    (found : Findings) : published settings found = found.filings := by
  rw [published, h]

theorem conclude_outcome_congr {j : Index} (unit : Symbol) (found : Findings)
    (h : i.settings = j.settings) : (i.conclude unit found).2 = (j.conclude unit found).2 := by
  cases hfailure : found.failure with
  | none => rw [conclude_of_failure_none i unit hfailure, conclude_of_failure_none j unit hfailure]
  | some cause =>
    rw [conclude_of_failure_some i unit hfailure, conclude_of_failure_some j unit hfailure, h]

/-! ## One class -/

variable (p : Program) (subject : Handle) (occurrences : Occurrences) (lines : List String)
  (locator : Locator)

/-- The filings that indexing a class brings into an index with the given settings. -/
def filingsOf (settings : UsageSettings) (p : Program) (subject : Handle)
    (occurrences : Occurrences) (lines : List String) (locator : Locator) : List Filing :=
  match p.topLevelSymbol subject with
  | .error _ => []
  | .ok unit =>
    published settings
      (Pass.findings ⟨p, subject, unit, lines, locator, settings⟩ occurrences.toList)

theorem addClass_of_unresolved {cause : ProgramError}
    (h : p.topLevelSymbol subject = .error cause) :
    i.addClass p subject occurrences lines locator =
      (i, .failed 0 (.unresolved subject cause)) := by
  rw [addClass, h]

theorem addClass_of_resolved {unit : Symbol} (h : p.topLevelSymbol subject = .ok unit) :
    i.addClass p subject occurrences lines locator =
      i.conclude unit
        (Pass.findings ⟨p, subject, unit, lines, locator, i.settings⟩ occurrences.toList) := by
  rw [addClass, h]

theorem addClass_buckets :
    (i.addClass p subject occurrences lines locator).1.buckets =
      (i.stream (filingsOf i.settings p subject occurrences lines locator)).buckets := by
  cases h : p.topLevelSymbol subject with
  | error cause =>
    rw [addClass_of_unresolved i p subject occurrences lines locator h, filingsOf, h]
    rfl
  | ok unit =>
    rw [addClass_of_resolved i p subject occurrences lines locator h, filingsOf, h,
      conclude_buckets]

@[simp] theorem addClass_settings :
    (i.addClass p subject occurrences lines locator).1.settings = i.settings := by
  cases h : p.topLevelSymbol subject with
  | error cause => rw [addClass_of_unresolved i p subject occurrences lines locator h]
  | ok unit =>
    rw [addClass_of_resolved i p subject occurrences lines locator h, conclude_settings]

theorem addClass_records :
    (i.addClass p subject occurrences lines locator).2.records =
      (filingsOf i.settings p subject occurrences lines locator).length := by
  cases h : p.topLevelSymbol subject with
  | error cause =>
    rw [addClass_of_unresolved i p subject occurrences lines locator h, filingsOf, h]
    rfl
  | ok unit =>
    rw [addClass_of_resolved i p subject occurrences lines locator h, filingsOf, h,
      conclude_records]

/-- How a pass ends does not depend on what the index holds. -/
theorem addClass_outcome_congr {j : Index} (h : i.settings = j.settings) :
    (i.addClass p subject occurrences lines locator).2 =
      (j.addClass p subject occurrences lines locator).2 := by
  cases hunit : p.topLevelSymbol subject with
  | error cause =>
    rw [addClass_of_unresolved i p subject occurrences lines locator hunit,
      addClass_of_unresolved j p subject occurrences lines locator hunit]
  | ok unit =>
    rw [addClass_of_resolved i p subject occurrences lines locator hunit,
      addClass_of_resolved j p subject occurrences lines locator hunit, h,
      conclude_outcome_congr i unit _ h]

theorem exists_topLevelSymbol_of_done
    (h : (i.addClass p subject occurrences lines locator).2.isFailed = false) :
    ∃ unit, p.topLevelSymbol subject = .ok unit := by
  cases hunit : p.topLevelSymbol subject with
  | ok unit => exact ⟨unit, rfl⟩
  | error cause =>
    rw [addClass_of_unresolved i p subject occurrences lines locator hunit] at h
    cases h

theorem query_addClass (s : Symbol) :
    (i.addClass p subject occurrences lines locator).1.query s =
      i.query s ++ recordsFor s (filingsOf i.settings p subject occurrences lines locator) := by
  rw [query_congr (addClass_buckets i p subject occurrences lines locator), query_stream]

theorem exists_reads_of_mem_filingsOf {settings : UsageSettings} {f : Filing}
    (hf : f ∈ filingsOf settings p subject occurrences lines locator) :
    ∃ unit, p.topLevelSymbol subject = .ok unit ∧ ∃ e ∈ occurrences.toList, ∃ c,
      Pass.Reads ⟨p, subject, unit, lines, locator, settings⟩ e.1 e.2 c ∧ f ∈ c.filings := by
  rw [filingsOf] at hf
  split at hf
  · cases hf
  · next unit hunit =>
    refine ⟨unit, hunit, Pass.exists_reads_of_mem_findings ?_⟩
    rw [published] at hf
    split at hf
    · cases hf
    · exact hf
    · exact hf

theorem topLevelSymbol_of_mem_filingsOf {settings : UsageSettings} {f : Filing}
    (hf : f ∈ filingsOf settings p subject occurrences lines locator) :
    p.topLevelSymbol subject = .ok f.record.unit := by
  obtain ⟨unit, hunit, e, -, c, hreads, hmem⟩ :=
    exists_reads_of_mem_filingsOf p subject occurrences lines locator hf
  rw [hunit, hreads.unit_eq f hmem]

/-- A pass lists its class unless it was given up and left nothing behind. -/
theorem addClass_units {unit : Symbol} (hunit : p.topLevelSymbol subject = .ok unit) :
    (i.addClass p subject occurrences lines locator).1.units =
      if (i.addClass p subject occurrences lines locator).2.isFailed = true ∧
          filingsOf i.settings p subject occurrences lines locator = [] then i.units
      else i.units.insert unit () := by
  rw [addClass_of_resolved i p subject occurrences lines locator hunit, conclude_isFailed,
    filingsOf, hunit]
  dsimp only
  cases hfailure : (Pass.findings ⟨p, subject, unit, lines, locator, i.settings⟩
      occurrences.toList).failure with
  | none =>
    rw [conclude_of_failure_none i _ hfailure]
    simp only [Option.isSome_none, Bool.false_eq_true, false_and, if_false]
    exact congrArg (·.insert unit ()) (stream_units i _)
  | some cause =>
    rw [conclude_units_of_failure_some i _ hfailure]
    simp only [Option.isSome_some, true_and, List.length_pos_iff, ne_eq, ite_not]

theorem addClass_units_of_mem_filingsOf {f : Filing}
    (hf : f ∈ filingsOf i.settings p subject occurrences lines locator) :
    (i.addClass p subject occurrences lines locator).1.units =
      i.units.insert f.record.unit () := by
  have hunit := topLevelSymbol_of_mem_filingsOf p subject occurrences lines locator hf
  have hleft : filingsOf i.settings p subject occurrences lines locator ≠ [] :=
    List.ne_nil_of_mem hf
  rw [addClass_units i p subject occurrences lines locator hunit, if_neg fun h => hleft h.2]

/-- A pass lists nothing but its own class. -/
theorem addClass_units_cases :
    (i.addClass p subject occurrences lines locator).1.units = i.units ∨
      ∃ unit, p.topLevelSymbol subject = .ok unit ∧
        (i.addClass p subject occurrences lines locator).1.units = i.units.insert unit () := by
  cases hunit : p.topLevelSymbol subject with
  | error cause =>
    rw [addClass_of_unresolved i p subject occurrences lines locator hunit]
    exact .inl rfl
  | ok unit =>
    rw [addClass_units i p subject occurrences lines locator hunit]
    split
    · exact .inl rfl
    · exact .inr ⟨unit, rfl, rfl⟩

/-! ## Passes that come to their end -/

/-- After a pass that came to its end, every occurrence has been read, in text order, by the rules
of `Pass.Reads`; each declaration has its earlier usages and behind them the records that were filed
under it, the class is listed, and the outcome counts all filings and names what was left out. -/
theorem query_addClass_of_done
    (hdone : (i.addClass p subject occurrences lines locator).2.isFailed = false) :
    ∃ unit, p.topLevelSymbol subject = .ok unit ∧ p.symbol subject = .ok unit ∧
      let pass : Pass := ⟨p, subject, unit, lines, locator, i.settings⟩
      let Reading := List.Forall₂ (fun e c => pass.Reads e.1 e.2 c) occurrences.toList
      let ended := i.addClass p subject occurrences lines locator
      (∃ contributions, Reading contributions) ∧
        ∀ contributions, Reading contributions →
          let filings := contributions.flatMap (·.filings)
          let skipped := contributions.flatMap (·.omissions)
          (∀ s, ended.1.query s = i.query s ++ recordsFor s filings) ∧
            ended.1.units = i.units.insert unit () ∧
            ended.2 =
              if skipped.isEmpty then .complete filings.length
              else .incomplete filings.length skipped := by
  obtain ⟨unit, hunit⟩ := exists_topLevelSymbol_of_done i p subject occurrences lines locator hdone
  refine ⟨unit, hunit, Program.symbol_of_topLevelSymbol hunit, ?_⟩
  intro pass Reading ended
  have hended : ended = i.conclude unit (pass.findings occurrences.toList) :=
    addClass_of_resolved i p subject occurrences lines locator hunit
  have hfailure : (pass.findings occurrences.toList).failure = none := by
    have hisFailed := conclude_isFailed i unit (pass.findings occurrences.toList)
    rw [← hended, hdone] at hisFailed
    exact Option.isSome_eq_false_iff.1 hisFailed.symm |> Option.isNone_iff_eq_none.1
  obtain ⟨read, hread, hfilings, hskipped⟩ := Pass.forall₂_reads_of_findings hfailure
  refine ⟨⟨read, hread⟩, fun contributions hcontributions => ?_⟩
  -- The rules leave no choice, so the given reading is the one that the pass made.
  have hunique : Relator.RightUnique fun (e : Position × Handle) c => pass.Reads e.1 e.2 c :=
    fun _ _ _ hc hc' => hc.unique hc'
  obtain rfl : contributions = read := hunique.forall₂ hcontributions hread
  intro filings skipped
  rw [hended, conclude_of_failure_none i unit hfailure, hfilings, hskipped]
  refine ⟨fun s => query_stream i filings s, ?_, rfl⟩
  rw [markIndexed, stream_units]

/-- In a small text, an import, a declaration and a mention without line are left aside, and two
usages of a constructor and a method are filed three times. -/
theorem query_addClass_client :
    (empty.addClass Pair.program Pair.client (.ofList Pair.clientOccurrences) Pair.clientLines
        Pair.clientLayout.locator).2.isFailed = false ∧
      ∃ unit contributions,
        let pass : Pass := ⟨Pair.program, Pair.client, unit, Pair.clientLines,
          Pair.clientLayout.locator, {}⟩
        List.Forall₂ (fun e c => pass.Reads e.1 e.2 c)
            (OrderedMap.ofList Pair.clientOccurrences).toList contributions ∧
          (contributions.flatMap (·.filings)).length = 3 := by
  have hdone : (empty.addClass Pair.program Pair.client (.ofList Pair.clientOccurrences)
      Pair.clientLines Pair.clientLayout.locator).2.isFailed = false := by decide
  obtain ⟨unit, -, -, ⟨contributions, hreads⟩, hmeaning⟩ :=
    query_addClass_of_done empty Pair.program Pair.client (.ofList Pair.clientOccurrences)
      Pair.clientLines Pair.clientLayout.locator hdone
  refine ⟨hdone, unit, contributions, hreads, ?_⟩
  obtain ⟨-, -, hended⟩ := hmeaning contributions hreads
  have hrecords := congrArg Outcome.records hended
  have hthree : (empty.addClass Pair.program Pair.client (.ofList Pair.clientOccurrences)
      Pair.clientLines Pair.clientLayout.locator).2.records = 3 := by decide
  rw [hthree] at hrecords
  split at hrecords <;> exact hrecords.symm

/-! ## Passes that are given up -/

/-- If the first failure is at occurrence `n`, a streamed index is filled up to there: the pass over
the occurrences in front comes to its end and leaves the same buckets, and one occurrence more makes
it the whole pass. -/
theorem exists_first_failure_of_streaming {unit : Symbol} {cause : ProgramError}
    (hstreaming : i.settings.publication = .streaming)
    (hunit : p.topLevelSymbol subject = .ok unit)
    (hcause : (Pass.findings ⟨p, subject, unit, lines, locator, i.settings⟩
      occurrences.toList).failure = some cause) :
    ∃ n < occurrences.size,
      (i.addClass p subject (occurrences.take n) lines locator).2.isFailed = false ∧
      i.addClass p subject (occurrences.take (n + 1)) lines locator =
        i.addClass p subject occurrences lines locator ∧
      (i.addClass p subject occurrences lines locator).1.buckets =
        (i.addClass p subject (occurrences.take n) lines locator).1.buckets ∧
      (i.addClass p subject occurrences lines locator).2.records =
        (i.addClass p subject (occurrences.take n) lines locator).2.records := by
  obtain ⟨n, hn, hfront, hwhole⟩ := Pass.exists_first_failure hcause
  have hpublished := published_of_streaming hstreaming
  -- Both passes are over the same class, so only their findings are compared.
  simp only [addClass_of_resolved i p subject _ lines locator hunit, OrderedMap.toList_take]
  refine ⟨n, hn, ?_, ?_, ?_, ?_⟩
  · rw [conclude_isFailed, hfront]
    rfl
  · rw [hwhole]
  · rw [conclude_buckets, conclude_buckets, hpublished, hpublished, hfront]
  · rw [conclude_records, conclude_records, hpublished, hpublished, hfront]

/-- A pass that was given up leaves a buffered index as it was, and so any index if the class is no
top-level class. A streamed index has the buckets that a pass over the occurrences in front of the
first unreadable one leaves: that pass comes to its end, and with one more occurrence it ends as the
whole pass does. The class is then listed if that published anything. -/
theorem addClass_of_failed
    (hfailed : (i.addClass p subject occurrences lines locator).2.isFailed = true) :
    let ended := i.addClass p subject occurrences lines locator
    (i.settings.publication = .buffered → ended.2.records = 0 ∧ ended.1 = i) ∧
    ((∀ unit, p.topLevelSymbol subject ≠ .ok unit) → ended.2.records = 0 ∧ ended.1 = i) ∧
    ∀ unit, i.settings.publication = .streaming → p.topLevelSymbol subject = .ok unit →
      ∃ n < occurrences.size,
        let front := i.addClass p subject (occurrences.take n) lines locator
        front.2.isFailed = false ∧
        i.addClass p subject (occurrences.take (n + 1)) lines locator = ended ∧
        ended.1.buckets = front.1.buckets ∧
        ended.2.records = front.2.records ∧
        ended.1.units = if 0 < ended.2.records then i.units.insert unit () else i.units := by
  intro ended
  cases hunit : p.topLevelSymbol subject with
  | error cause =>
    have hended : ended = (i, .failed 0 (.unresolved subject cause)) :=
      addClass_of_unresolved i p subject occurrences lines locator hunit
    rw [hended]
    exact ⟨fun _ => ⟨rfl, rfl⟩, fun _ => ⟨rfl, rfl⟩, fun _ _ h => nomatch h⟩
  | ok unit =>
    let pass : Pass := ⟨p, subject, unit, lines, locator, i.settings⟩
    have hended : ended = i.conclude unit (pass.findings occurrences.toList) :=
      addClass_of_resolved i p subject occurrences lines locator hunit
    obtain ⟨cause, hcause⟩ : ∃ cause, (pass.findings occurrences.toList).failure = some cause := by
      rw [← Option.isSome_iff_exists, ← conclude_isFailed i unit, ← hended]
      exact hfailed
    refine ⟨fun hbuffered => ?_, fun hnone => absurd rfl (hnone unit),
      fun unit' hstreaming hunit' => ?_⟩
    · rw [hended, conclude_of_failure_buffered i unit hcause hbuffered]
      exact ⟨rfl, rfl⟩
    · obtain rfl : unit = unit' := Except.ok.inj hunit'
      obtain ⟨n, hn, hfront, hwhole, hbuckets, hrecords⟩ :=
        exists_first_failure_of_streaming i p subject occurrences lines locator hstreaming
          hunit hcause
      refine ⟨n, hn, hfront, hwhole, hbuckets, hrecords, ?_⟩
      rw [hended, conclude_units_of_failure_some i unit hcause, conclude_records]

/-- A mention of something unknown behind two filed records: a streamed index keeps the two. -/
theorem addClass_of_failed_broken :
    let index := empty { publication := .streaming }
    let ended := index.addClass Pair.program Pair.client Pair.brokenText.occurrences
      Pair.clientLines Pair.clientLayout.locator
    ended.2.isFailed = true ∧
      ∃ n < Pair.brokenText.occurrences.size,
        let front := index.addClass Pair.program Pair.client (Pair.brokenText.occurrences.take n)
          Pair.clientLines Pair.clientLayout.locator
        front.2.isFailed = false ∧ front.2.records = 2 ∧ ended.1.buckets = front.1.buckets := by
  intro index ended
  have hfailed : ended.2.isFailed = true := by decide
  have hunit : Pair.program.topLevelSymbol Pair.client = .ok (.ofClass "demo.Client") := by rfl
  obtain ⟨n, hn, hfront, -, hbuckets, hrecords, -⟩ :=
    (addClass_of_failed index Pair.program Pair.client Pair.brokenText.occurrences Pair.clientLines
      Pair.clientLayout.locator hfailed).2.2 _ rfl hunit
  refine ⟨hfailed, n, hn, hfront, ?_, hbuckets⟩
  rw [← hrecords]
  decide

end Index

/-! ## Texts of classes -/

/-- The filings that indexing a text brings into an index with the given settings. -/
def ClassText.filings (text : ClassText) (settings : UsageSettings) (p : Program) : List Filing :=
  Index.filingsOf settings p text.subject text.occurrences text.lines text.layout.locator

namespace Index

variable (i : Index) (p : Program) (text : ClassText)

theorem topLevelSymbol_of_mem_recordsFor {settings : UsageSettings} {s : Symbol} {r : UsageRecord}
    (hr : r ∈ recordsFor s (text.filings settings p)) :
    p.topLevelSymbol text.subject = .ok r.unit := by
  obtain ⟨f, hf, -, rfl⟩ := mem_recordsFor.1 hr
  exact topLevelSymbol_of_mem_filingsOf p _ _ _ _ hf

theorem unit_eq_of_mem_recordsFor {settings : UsageSettings} {unit s : Symbol} {r : UsageRecord}
    (hunit : p.topLevelSymbol text.subject = .ok unit)
    (hr : r ∈ recordsFor s (text.filings settings p)) : r.unit = unit :=
  Except.ok.inj ((topLevelSymbol_of_mem_recordsFor p text hr).symm.trans hunit)

@[simp] theorem add_settings : (i.add p text).1.settings = i.settings :=
  addClass_settings i p _ _ _ _

theorem query_add (s : Symbol) :
    (i.add p text).1.query s = i.query s ++ recordsFor s (text.filings i.settings p) :=
  query_addClass i p _ _ _ _ s

/-! ## Runs -/

/-- A property of indexes that passes, retractions and clearing keep. -/
structure IsInvariant (p : Program) (P : Index → Prop) : Prop where
  addClass : ∀ {i} subject occurrences lines locator, P i →
    P (i.addClass p subject occurrences lines locator).1
  retract : ∀ {i} unit, P i → P (i.retract unit).1
  clear : ∀ {i}, P i → P i.clear

section

variable {i p} {P : Index → Prop} (hP : IsInvariant p P)

include hP

theorem IsInvariant.perform (hi : P i) (o : Operation) : P (i.perform p o).1 := by
  cases o with
  | addClass subject occurrences lines locator =>
    exact hP.addClass subject occurrences lines locator hi
  | add text => exact hP.addClass _ _ _ _ hi
  | refresh text =>
    have hswept : P (i.retractHandle p text.subject).1 := by
      rw [retractHandle]
      split
      · exact hP.retract _ hi
      · exact hi
    exact hP.addClass _ _ _ _ hswept
  | retract unit => exact hP.retract unit hi
  | clear => exact hP.clear hi

theorem IsInvariant.after (hi : P i) (operations : List Operation) : P (i.after p operations) := by
  induction operations generalizing i with
  | nil => exact hi
  | cons o rest ih => exact ih (hP.perform hi o)

theorem IsInvariant.of_reachable (hempty : P (empty i.settings)) (hi : i.Reachable p) : P i := by
  obtain ⟨operations, hoperations⟩ := hi
  rw [hoperations]
  exact hP.after hempty operations

end

/-- Settings are for the life of an index. -/
theorem isInvariant_settings (settings : UsageSettings) :
    IsInvariant p fun i => i.settings = settings where
  addClass _ _ _ _ hi := (addClass_settings _ p _ _ _ _).trans hi
  retract _ hi := hi
  clear hi := hi

theorem perform_settings (o : Operation) : (i.perform p o).1.settings = i.settings :=
  (isInvariant_settings p i.settings).perform rfl o

theorem after_settings (operations : List Operation) :
    (i.after p operations).settings = i.settings :=
  (isInvariant_settings p i.settings).after rfl operations

theorem reachable_after (settings : UsageSettings) (operations : List Operation) :
    ((empty settings).after p operations).Reachable p := by
  refine ⟨operations, ?_⟩
  rw [after_settings]
  rfl

theorem after_append (earlier later : List Operation) :
    i.after p (earlier ++ later) = (i.after p earlier).after p later :=
  List.foldl_append

/-- Texts indexed one after another each bring their own records. -/
theorem query_after_adds (texts : List ClassText) (s : Symbol) :
    (i.after p (texts.map .add)).query s =
      i.query s ++ texts.flatMap fun text => recordsFor s (text.filings i.settings p) := by
  induction texts generalizing i with
  | nil => simp [after]
  | cons text rest ih =>
    have hrest := ih (i.add p text).1
    rw [add_settings, query_add] at hrest
    rw [List.flatMap_cons, ← List.append_assoc]
    exact hrest

end Index

end CrossReference
