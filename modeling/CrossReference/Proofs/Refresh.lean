import CrossReference.Proofs.Attainable

/-!
# Refreshing one class

Retracting a class undoes a pass over it: in an index without empty buckets, which every attainable
index is, retracting behind the pass leaves what retracting in front of it leaves
(`Index.retract_addClass`). So a pass can be taken back to the record, however it ended, and
refreshing a class again changes nothing (`Index.retract_add_retract`). Class names play no part in
this, nor does the program over which the index was filled.
-/

namespace CrossReference

namespace Index

open Sample

variable {i j : Index} {p : Program} {unit : Symbol}

theorem filter_unit_ne_eq_nil {records : List UsageRecord} (h : ∀ r ∈ records, r.unit = unit) :
    records.filter (·.unit ≠ unit) = [] := by
  refine List.filter_eq_nil_iff.2 fun r hr => ?_
  simpa using h r hr

/-! ## Retraction behind a pass -/

/-- Records of the class that is retracted make no difference, neither in a bucket that was there
nor in one that they have opened. -/
theorem sweepBucket_extendBucket {owner : Symbol} {records : List UsageRecord}
    (hne : records ≠ []) (hunit : ∀ r ∈ records, r.unit = unit) {known : Option Bucket}
    (hknown : ∀ bucket ∈ known, bucket.records ≠ []) :
    sweepBucket unit (extendBucket owner records known) = known.bind (sweepBucket unit) := by
  have hgone : records.filter (·.unit ≠ unit) = [] := filter_unit_ne_eq_nil hunit
  cases known with
  | none =>
    have hopened : (extendBucket owner records none).records ≠ [] := hne
    rw [sweepBucket_of_records_ne_nil hopened, if_pos (.inr hgone)]
    rfl
  | some bucket =>
    have hold : bucket.records ≠ [] := hknown bucket rfl
    have hlonger : (extendBucket owner records (some bucket)).records ≠ [] :=
      List.append_ne_nil_of_left_ne_nil hold records
    have hkept : (extendBucket owner records (some bucket)).records.filter (·.unit ≠ unit) =
        bucket.records.filter (·.unit ≠ unit) := by
      show (bucket.records ++ records).filter _ = _
      rw [List.filter_append, hgone, List.append_nil]
    rw [Option.bind_some, sweepBucket_of_records_ne_nil hold, sweepBucket_of_records_ne_nil hlonger,
      hkept]
    rfl

theorem retract_congr (hbuckets : i.buckets = j.buckets)
    (hunits : i.units.erase unit = j.units.erase unit) (hsettings : i.settings = j.settings) :
    (i.retract unit).1 = (j.retract unit).1 := by
  rw [retract, retract]
  simp only [hbuckets, hunits, hsettings]

theorem retract_append (hi : i.NoEmptyBucket) (target owner : Symbol) {records : List UsageRecord}
    (hne : records ≠ []) (hunit : ∀ r ∈ records, r.unit = unit) :
    ((i.append target owner records).retract unit).1 = (i.retract unit).1 := by
  refine ext_get? (fun s => ?_) rfl rfl
  rw [get?_retract, get?_retract, get?_append]
  by_cases hs : s = target
  · subst hs
    rw [if_pos rfl, Option.bind_some]
    exact sweepBucket_extendBucket hne hunit fun bucket hbucket => hi hbucket
  · rw [if_neg hs]

theorem retract_stream (hi : i.NoEmptyBucket) {filings : List Filing}
    (hunit : ∀ f ∈ filings, f.record.unit = unit) :
    ((i.stream filings).retract unit).1 = (i.retract unit).1 := by
  induction filings generalizing i with
  | nil => rfl
  | cons f rest ih =>
    have hrecord : ∀ r ∈ [f.record], r.unit = unit := fun r hr => by
      rw [List.mem_singleton.1 hr]
      exact hunit f List.mem_cons_self
    rw [stream_cons, ih (hi.file f) fun g hg => hunit g (List.mem_cons_of_mem _ hg)]
    exact retract_append hi f.target f.owner (List.cons_ne_nil f.record []) hrecord

/-- Retracting a class leaves the same whether a pass over the class came before or not. -/
theorem retract_addClass (hi : i.NoEmptyBucket) {subject : Handle}
    (hunit : p.topLevelSymbol subject = .ok unit) (occurrences : Occurrences)
    (lines : List String) (locator : Locator) :
    ((i.addClass p subject occurrences lines locator).1.retract unit).1 = (i.retract unit).1 := by
  let filings := filingsOf i.settings p subject occurrences lines locator
  have hfilings : ∀ f ∈ filings, f.record.unit = unit := fun f hf =>
    Except.ok.inj
      ((topLevelSymbol_of_mem_filingsOf p subject occurrences lines locator hf).symm.trans hunit)
  have hunits : (i.addClass p subject occurrences lines locator).1.units.erase unit =
      (i.stream filings).units.erase unit := by
    rw [stream_units]
    rcases addClass_units_cases i p subject occurrences lines locator with hsame | ⟨own, hown, hnew⟩
    · rw [hsame]
    · -- The pass has listed no other class than the one that is retracted.
      obtain rfl : own = unit := Except.ok.inj (hown.symm.trans hunit)
      rw [hnew, OrderedMap.erase_insert]
  calc ((i.addClass p subject occurrences lines locator).1.retract unit).1
      = ((i.stream filings).retract unit).1 :=
        retract_congr (addClass_buckets i p subject occurrences lines locator) hunits
          ((addClass_settings i p subject occurrences lines locator).trans
            (stream_settings i filings).symm)
    _ = (i.retract unit).1 := retract_stream hi hfilings

/-! ## Retraction twice -/

/-- A retraction reports by how much the index gets smaller. -/
theorem retract_eq_of_fst_eq (h : (i.retract unit).1 = j) :
    j.size ≤ i.size ∧
      i.retract unit =
        (j, { buckets := i.size - j.size, records := i.recordCount - j.recordCount }) := by
  have hsize := i.size_retract unit
  have hcount := i.recordCount_retract unit
  rw [h] at hsize hcount
  have hbuckets : (i.retract unit).2.buckets = i.size - j.size := by omega
  have hrecords : (i.retract unit).2.records = i.recordCount - j.recordCount := by omega
  refine ⟨by omega, Prod.ext h ?_⟩
  rw [← hbuckets, ← hrecords]

theorem bind_sweepBucket_sweepBucket {bucket : Bucket} (h : bucket.records ≠ []) :
    (sweepBucket unit bucket).bind (sweepBucket unit) = sweepBucket unit bucket := by
  rw [sweepBucket_of_records_ne_nil h]
  split
  · rfl
  · next hstays =>
    obtain ⟨howner, hkept⟩ := not_or.1 hstays
    have hagain : (bucket.records.filter (·.unit ≠ unit)).filter (·.unit ≠ unit) =
        bucket.records.filter (·.unit ≠ unit) := by
      rw [List.filter_filter]
      simp
    rw [Option.bind_some, sweepBucket_of_records_ne_nil hkept]
    dsimp only
    rw [hagain, if_neg hstays]

/-- A second retraction finds nothing more to remove. -/
theorem retract_retract (hi : i.NoEmptyBucket) (unit : Symbol) :
    ((i.retract unit).1.retract unit).1 = (i.retract unit).1 := by
  refine ext_get? (fun s => ?_) (OrderedMap.erase_erase i.units unit) rfl
  rw [get?_retract, get?_retract]
  cases h : i.buckets.get? s with
  | none => rfl
  | some bucket =>
    rw [Option.bind_some]
    exact bind_sweepBucket_sweepBucket (hi h)

/-! ## Taking a pass back -/

theorem refresh_of_resolved {text : ClassText} (hunit : p.topLevelSymbol text.subject = .ok unit) :
    i.refresh p text =
      (((i.retract unit).1.add p text).1, (i.retract unit).2,
        ((i.retract unit).1.add p text).2) := by
  rw [refresh, retractHandle, Program.symbol_of_topLevelSymbol hunit]

theorem retract_add (hi : i.NoEmptyBucket) {text : ClassText}
    (hunit : p.topLevelSymbol text.subject = .ok unit) :
    (((i.retract unit).1.add p text).1.retract unit).1 = (i.retract unit).1 := by
  have hswept : (i.retract unit).1.NoEmptyBucket := hi.retract unit
  calc (((i.retract unit).1.add p text).1.retract unit).1
      = ((i.retract unit).1.retract unit).1 := retract_addClass hswept hunit _ _ _
    _ = (i.retract unit).1 := retract_retract hi unit

/-- In an index from which a class has been retracted, a pass over the class, however it ends, can
be taken back: retracting the class restores the index and reports the records that the pass
reported and the buckets that it opened. Refreshing a class is such a retraction and such a pass; so
refreshing it once more changes nothing and ends the same way. The index may have been filled while
the program was another. -/
theorem retract_add_retract (hi : i.Attainable) (text : ClassText)
    (hunit : p.topLevelSymbol text.subject = .ok unit) :
    let swept := (i.retract unit).1
    let indexed := swept.add p text
    let once := i.refresh p text
    let twice := once.1.refresh p text
    (swept.size ≤ indexed.1.size ∧
      indexed.1.retract unit =
        (swept, { buckets := indexed.1.size - swept.size, records := indexed.2.records })) ∧
    once = (indexed.1, (i.retract unit).2, indexed.2) ∧
    twice.1 = once.1 ∧ twice.2.2 = once.2.2 := by
  intro swept indexed once twice
  have hundone : (indexed.1.retract unit).1 = swept := retract_add hi.noEmptyBucket hunit
  have honce : once = (indexed.1, (i.retract unit).2, indexed.2) := refresh_of_resolved hunit
  refine ⟨?_, honce, ?_⟩
  · have hfiled : indexed.1.recordCount = swept.recordCount + indexed.2.records :=
      recordCount_addClass swept p _ _ _ _
    have hrecords : indexed.1.recordCount - swept.recordCount = indexed.2.records := by omega
    rw [← hrecords]
    exact retract_eq_of_fst_eq hundone
  · have htwice : twice = once.1.refresh p text := rfl
    rw [htwice, refresh_of_resolved hunit, honce]
    dsimp only
    rw [hundone]
    exact ⟨rfl, rfl⟩

/-- The class that is used also uses itself and its method `hit`, until the place of the latter use
turns out to be where `hit` is declared. Over the program that knows this, a pass over the user
opens one bucket and is given up behind two records; both are taken back. -/
theorem retract_add_retract_pair :
    let own : ClassText := { Pair.calleeText with
      occurrences := .ofList [(⟨5, 1⟩, Pair.calleeHit), (⟨6, 1⟩, Pair.callee)] }
    let index := (empty { publication := .streaming }).after Pair.program
      [.add own, .add Pair.clientText]
    let placed := Pair.program.afterEdit (.place Pair.calleeHit ⟨5, 1⟩)
    let callee := Symbol.ofClass "demo.Callee"
    let client := Symbol.ofClass "demo.Client"
    let hit := Symbol.ofMethod "demo.Callee" "hit" "()V"
    let swept := (index.retract client).1
    let indexed := swept.add placed Pair.brokenText
    let once := index.refresh placed Pair.brokenText
    index.Attainable ∧ placed.topLevelSymbol Pair.brokenText.subject = .ok client ∧
      (index.usagesBy callee hit).length = 1 ∧
      ((empty.add placed own).1.usagesBy callee hit).length = 0 ∧
      indexed.2.isFailed = true ∧
      indexed.1.retract client = (swept, { buckets := 1, records := 2 }) ∧
      once = (indexed.1, (index.retract client).2, indexed.2) ∧
      (once.1.refresh placed Pair.brokenText).1 = once.1 := by
  intro own index placed callee client hit swept indexed once
  have hindex : index.Attainable := (Attainable.empty _).after Pair.program _
  have hunit : placed.topLevelSymbol Pair.brokenText.subject = .ok client := by rfl
  obtain ⟨⟨-, hundone⟩, honce, htwice, -⟩ := retract_add_retract hindex Pair.brokenText hunit
  have hsizes : indexed.1.size - swept.size = 1 := by decide +kernel
  have hrecords : indexed.2.records = 2 := by decide +kernel
  rw [hsizes, hrecords] at hundone
  have hused : (index.usagesBy callee hit).length = 1 := by decide +kernel
  have hdeclared : ((empty.add placed own).1.usagesBy callee hit).length = 0 := by decide +kernel
  have hfailed : indexed.2.isFailed = true := by decide +kernel
  exact ⟨hindex, hunit, hused, hdeclared, hfailed, hundone, honce, htwice⟩

end Index

end CrossReference
