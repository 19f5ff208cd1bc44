import CrossReference.Proofs.BatchOrder

/-!
# Runs

A run carries out operations one after another, each over the program as it is at that time, and
collects their answers. Along a run the books are exact: what outcomes report is filed and what
tallies report is removed, so the number of records is the difference of the two sums
(`Index.recordCount_run_eq_sub`). Each step keeps the balance (`Index.recordCount_perform`), hence
the run does (`Index.recordCount_run`).
-/

namespace CrossReference

/-- An operation and the program that it is carried out over. -/
structure Step where
  program : Program
  operation : Operation

namespace Answer

/-- Number of records that reached the index. -/
def recordsFiled (a : Answer) : Nat := a.outcome.elim 0 (·.records)

/-- Number of records that were retracted. -/
def recordsRemoved (a : Answer) : Nat := a.tally.elim 0 (·.records)

end Answer

namespace Index

open Sample

variable {i : Index} {p : Program}

/-- The index after some steps, and what each of them has answered. -/
def run (i : Index) : List Step → Index × List Answer
  | [] => (i, [])
  | step :: rest =>
    let performed := i.perform step.program step.operation
    let later := performed.1.run rest
    (later.1, performed.2 :: later.2)

theorem run_cons (i : Index) (step : Step) (rest : List Step) :
    i.run (step :: rest) =
      (((i.perform step.program step.operation).1.run rest).1,
        (i.perform step.program step.operation).2 ::
          ((i.perform step.program step.operation).1.run rest).2) := rfl

/-! ## One step -/

theorem recordCount_retractHandle (i : Index) (p : Program) (h : Handle) :
    (i.retractHandle p h).1.recordCount + (i.retractHandle p h).2.records = i.recordCount := by
  rw [retractHandle]
  split
  · exact recordCount_retract i _
  · rfl

theorem size_retractHandle (i : Index) (p : Program) (h : Handle) :
    (i.retractHandle p h).1.size + (i.retractHandle p h).2.buckets = i.size := by
  rw [retractHandle]
  split
  · exact size_retract i _
  · rfl

/-- What an operation leaves of the index before it starts a pass, if it does. -/
def sweptBy (i : Index) (p : Program) : Operation → Index
  | .addClass _ _ _ _ | .add _ | .clear => i
  | .refresh text => (i.retractHandle p text.subject).1
  | .retract unit => (i.retract unit).1

/-- A retraction, also one that a refresh starts with, lowers the numbers of buckets and of records
by what its tally reports. -/
theorem count_sweptBy (i : Index) (p : Program) (o : Operation) {tally : Tally}
    (htally : tally ∈ (i.perform p o).2.tally) :
    (i.sweptBy p o).size + tally.buckets = i.size ∧
      (i.sweptBy p o).recordCount + tally.records = i.recordCount := by
  cases o with
  | addClass | add | clear => cases htally
  | refresh text =>
    obtain rfl := Option.some.inj htally
    exact ⟨size_retractHandle i p text.subject, recordCount_retractHandle i p text.subject⟩
  | retract unit =>
    obtain rfl := Option.some.inj htally
    exact ⟨size_retract i unit, recordCount_retract i unit⟩

/-- Only clearing changes the number of records without an account of it. -/
theorem recordCount_perform (i : Index) (p : Program) {o : Operation} (ho : o ≠ .clear) :
    (i.perform p o).1.recordCount + (i.perform p o).2.recordsRemoved =
      i.recordCount + (i.perform p o).2.recordsFiled := by
  cases o with
  | addClass subject occurrences lines locator =>
    exact recordCount_addClass i p subject occurrences lines locator
  | add text => exact recordCount_addClass i p _ _ _ _
  | refresh text =>
    have hswept := recordCount_retractHandle i p text.subject
    have hfiled : (i.refresh p text).1.recordCount =
        (i.retractHandle p text.subject).1.recordCount + (i.refresh p text).2.2.records :=
      recordCount_addClass _ p _ _ _ _
    show (i.refresh p text).1.recordCount + (i.retractHandle p text.subject).2.records =
      i.recordCount + (i.refresh p text).2.2.records
    omega
  | retract unit => exact recordCount_retract i unit
  | clear => exact absurd rfl ho

/-! ## Whole runs -/

theorem recordCount_run (i : Index) {steps : List Step}
    (hsteps : ∀ step ∈ steps, step.operation ≠ .clear) :
    (i.run steps).1.recordCount + ((i.run steps).2.map (·.recordsRemoved)).sum =
      i.recordCount + ((i.run steps).2.map (·.recordsFiled)).sum := by
  induction steps generalizing i with
  | nil => rfl
  | cons step rest ih =>
    obtain ⟨hstep, hrest⟩ := List.forall_mem_cons.1 hsteps
    have hfirst := i.recordCount_perform step.program hstep
    have hlater := ih (i.perform step.program step.operation).1 hrest
    rw [run_cons, List.map_cons, List.map_cons, List.sum_cons, List.sum_cons]
    dsimp only
    omega

/-! ## Batches -/

/-- A batch raises the number of records by what its report counts. -/
theorem recordCount_runBatch (i : Index) (p : Program) (texts : List ClassText) :
    (i.runBatch .index p texts).1.recordCount =
      i.recordCount + (i.runBatch .index p texts).2.records := by
  induction texts generalizing i with
  | nil => rfl
  | cons text rest ih =>
    have hfirst : (i.add p text).1.recordCount = i.recordCount + (i.add p text).2.records :=
      recordCount_addClass i p _ _ _ _
    have hrest := ih (i.add p text).1
    rw [hfirst, Nat.add_assoc] at hrest
    exact hrest

theorem recordCount_congr {j : Index} (h : i.buckets = j.buckets) :
    i.recordCount = j.recordCount := by
  rw [recordCount, recordCount, h]

/-- So do its passes if they run at one time. -/
theorem recordCount_afterTurns (i : Index) (p : Program) {texts : List ClassText} {turns : List Nat}
    (ended : List ClassText)
    (hdone : ((Race.start i p (texts.map (·.passInput))).after (turns.map .append)).Done) :
    (i.afterTurns p texts turns ended).recordCount =
      i.recordCount + (i.runBatch .index p texts).2.records := by
  obtain ⟨made, hbuckets, hperm⟩ := exists_buckets_afterTurns ended hdone
  let inTurn := texts.flatMap (·.passInput.appends i.settings p)
  have hbatch : (i.runBatch .index p texts).1.buckets = (i.appendAll inTurn).buckets := by
    rw [runBatch_fst]
    exact buckets_after_adds i p texts
  calc (i.afterTurns p texts turns ended).recordCount
      = i.recordCount + (made.map (·.records.length)).sum :=
        (recordCount_congr hbuckets).trans (recordCount_appendAll i made)
    _ = i.recordCount + (inTurn.map (·.records.length)).sum := by rw [(hperm.map _).sum_eq]
    _ = (i.runBatch .index p texts).1.recordCount :=
        ((recordCount_congr hbatch).trans (recordCount_appendAll i inTurn)).symm
    _ = i.recordCount + (i.runBatch .index p texts).2.records := recordCount_runBatch i p texts

/-! ## The books of an index -/

/-- Take any run from an empty index in which nothing is cleared; its passes may be given up, and
the program may change on the way. The number of records is what outcomes have reported filed
less what tallies have reported removed. On the way each retraction, also one that a refresh
starts with, lowers the numbers of buckets and of records by what its tally reports. And a batch
raises the number of records by what its report counts, whether its passes run one after another
or at one time. -/
theorem recordCount_run_eq_sub (settings : UsageSettings) {steps : List Step}
    (hsteps : ∀ step ∈ steps, step.operation ≠ .clear) :
    let ended := (empty settings).run steps
    let filed := (ended.2.map (·.recordsFiled)).sum
    let removed := (ended.2.map (·.recordsRemoved)).sum
    (removed ≤ filed ∧ ended.1.recordCount = filed - removed) ∧
    (∀ earlier step later, steps = earlier ++ step :: later →
      let before := ((empty settings).run earlier).1
      let swept := before.sweptBy step.program step.operation
      ∀ tally ∈ (before.perform step.program step.operation).2.tally,
        swept.size + tally.buckets = before.size ∧
          swept.recordCount + tally.records = before.recordCount) ∧
    ∀ p texts,
      let batch := ended.1.runBatch .index p texts
      batch.1.recordCount = ended.1.recordCount + batch.2.records ∧
      ∀ (turns : List Nat) (last : List ClassText),
        ((Race.start ended.1 p (texts.map (·.passInput))).after (turns.map .append)).Done →
        (ended.1.afterTurns p texts turns last).recordCount =
          ended.1.recordCount + batch.2.records := by
  intro ended filed removed
  have hbooks : ended.1.recordCount + removed = 0 + filed := recordCount_run (empty settings) hsteps
  refine ⟨⟨by omega, by omega⟩, fun earlier step later _ => ?_, fun p texts => ?_⟩
  · intro before swept tally htally
    exact before.count_sweptBy step.program step.operation htally
  · intro batch
    exact ⟨recordCount_runBatch _ p texts, fun turns last hdone =>
      recordCount_afterTurns ended.1 p last hdone⟩

/-- A client is indexed, refreshed with a text whose pass is given up behind two records, and
loses these when the class that it uses is retracted, at a time when the program has its
declarations in another order. Then it is indexed once more, and another time in turns with the
class that it uses. -/
theorem recordCount_run_eq_sub_broken :
    let steps : List Step :=
      [⟨Pair.program, .add Pair.clientText⟩, ⟨Pair.program, .refresh Pair.brokenText⟩,
        ⟨Pair.shuffledProgram, .retract (.ofClass "demo.Callee")⟩,
        ⟨Pair.program, .add Pair.clientText⟩]
    let ended := (empty { publication := .streaming }).run steps
    let texts := [Pair.clientText, Pair.calleeText]
    let turns := [0, 0, 1, 0]
    (∀ step ∈ steps, step.operation ≠ .clear) ∧
      (ended.2.map (·.recordsFiled)).sum = 8 ∧ (ended.2.map (·.recordsRemoved)).sum = 5 ∧
      ended.1.recordCount = 3 ∧
      (ended.1.afterTurns Pair.program texts turns texts.reverse).recordCount = 6 := by
  intro steps ended texts turns
  have hsteps : ∀ step ∈ steps, step.operation ≠ .clear := by simp [steps]
  have hfiled : (ended.2.map (·.recordsFiled)).sum = 8 := by decide +kernel
  have hremoved : (ended.2.map (·.recordsRemoved)).sum = 5 := by decide +kernel
  have hreported : (ended.1.runBatch .index Pair.program texts).2.records = 3 := by decide +kernel
  obtain ⟨⟨-, hcount⟩, -, hbatch⟩ := recordCount_run_eq_sub { publication := .streaming } hsteps
  have hthree : ended.1.recordCount = 3 := hcount.trans (by rw [hfiled, hremoved])
  have hturns := (hbatch Pair.program texts).2 turns texts.reverse (by decide +kernel)
  rw [hreported, hthree] at hturns
  exact ⟨hsteps, hfiled, hremoved, hthree, hturns⟩

end Index

end CrossReference
