import CrossReference.Proofs.Accounting
import CrossReference.Proofs.Ownership

/-!
# Consistency of the index

What holds of an index at every time, whatever operations led to it, passes that were given up
included (`Index.Consistent`): no bucket is empty, each record is by a class that counts as indexed,
and each stands on a line that can hold a usage. Beside it stands the ownership of buckets
(`Index.OwnersDeclared`); `Index.Reachable.wellFormed` puts both in the words of the questions that
an index answers.
-/

namespace CrossReference

namespace Index

open Sample

variable {i : Index} {p : Program}

/-! ## Empty buckets -/

/-- No bucket is without records. -/
def NoEmptyBucket (i : Index) : Prop :=
  ∀ ⦃s : Symbol⦄ ⦃bucket : Bucket⦄, i.buckets.get? s = some bucket → bucket.records ≠ []

theorem noEmptyBucket_empty (settings : UsageSettings) : (empty settings).NoEmptyBucket :=
  fun _ _ h => nomatch h

theorem NoEmptyBucket.append (hi : i.NoEmptyBucket) (target owner : Symbol)
    {records : List UsageRecord} (hne : records ≠ []) :
    (i.append target owner records).NoEmptyBucket := by
  intro s bucket h
  rw [get?_append] at h
  split at h
  · obtain rfl := Option.some.inj h
    cases i.buckets.get? target with
    | none => exact hne
    | some known => exact List.append_ne_nil_of_right_ne_nil _ hne
  · exact hi h

theorem NoEmptyBucket.file (hi : i.NoEmptyBucket) (f : Filing) : (i.file f).NoEmptyBucket :=
  hi.append f.target f.owner (List.cons_ne_nil f.record [])

theorem NoEmptyBucket.stream (hi : i.NoEmptyBucket) (filings : List Filing) :
    (i.stream filings).NoEmptyBucket := by
  induction filings generalizing i with
  | nil => exact hi
  | cons f rest ih => exact ih (hi.file f)

theorem NoEmptyBucket.addClass (hi : i.NoEmptyBucket) (p : Program) (subject : Handle)
    (occurrences : Occurrences) (lines : List String) (locator : Locator) :
    (i.addClass p subject occurrences lines locator).1.NoEmptyBucket := by
  intro s bucket h
  rw [addClass_buckets] at h
  exact hi.stream _ h

theorem NoEmptyBucket.retract (hi : i.NoEmptyBucket) (unit : Symbol) :
    (i.retract unit).1.NoEmptyBucket := by
  intro s left h
  rw [get?_retract] at h
  obtain ⟨bucket, hbucket, hleft⟩ := Option.bind_eq_some_iff.1 h
  rw [sweepBucket_of_records_ne_nil (hi hbucket)] at hleft
  split at hleft
  · cases hleft
  · next hstays =>
    obtain rfl := Option.some.inj hleft
    exact fun hnil => hstays (.inr hnil)

/-! ## The invariant -/

/-- What every operation keeps. -/
structure Consistent (i : Index) (p : Program) : Prop where
  noEmptyBucket : i.NoEmptyBucket
  /-- A record is by a top-level class that is listed as indexed. -/
  unit_listed : ∀ ⦃s r⦄, r ∈ i.query s →
    (∃ subject, p.topLevelSymbol subject = .ok r.unit) ∧ i.units.contains r.unit = true
  /-- A record stands on a line of the text that is no import. -/
  line_usable : ∀ ⦃s r⦄, r ∈ i.query s →
    r.line ≠ 0 ∧ ¬ i.settings.importMark.toList <+: r.text.toList

theorem consistent_empty (settings : UsageSettings) : (empty settings).Consistent p where
  noEmptyBucket := noEmptyBucket_empty settings
  unit_listed _ _ hr := nomatch hr
  line_usable _ _ hr := nomatch hr

theorem line_usable_of_reads {pass : Pass} {position : Position} {target : Handle}
    {c : Contribution} (h : pass.Reads position target c) :
    ∀ f ∈ c.filings,
      f.record.line ≠ 0 ∧ ¬ pass.settings.importMark.toList <+: f.record.text.toList := by
  cases h with
  | declaration | missing | importLine => simp [Contribution.filings]
  | usage _ line unmarked _ _ _ _ _ hr =>
    simpa [Contribution.filings, hr.line, hr.text] using ⟨line.1, unmarked⟩
  | construction _ line unmarked _ _ _ _ _ _ _ hr =>
    simpa [Contribution.filings, hr.line, hr.text] using ⟨line.1, unmarked⟩

theorem contains_units_addClass (i : Index) (p : Program) (subject : Handle)
    (occurrences : Occurrences) (lines : List String) (locator : Locator) {unit : Symbol}
    (h : i.units.contains unit = true) :
    (i.addClass p subject occurrences lines locator).1.units.contains unit = true := by
  rcases addClass_units_cases i p subject occurrences lines locator with hsame | ⟨own, -, hown⟩
  · rw [hsame, h]
  · rw [hown]
    exact (OrderedMap.contains_insert_iff _ _ _ _).2 (.inr h)

theorem Consistent.addClass (hi : i.Consistent p) (subject : Handle) (occurrences : Occurrences)
    (lines : List String) (locator : Locator) :
    (i.addClass p subject occurrences lines locator).1.Consistent p where
  noEmptyBucket := hi.noEmptyBucket.addClass p subject occurrences lines locator
  unit_listed s r hr := by
    rw [query_addClass, List.mem_append] at hr
    rcases hr with hold | hnew
    · obtain ⟨hclass, hlisted⟩ := hi.unit_listed hold
      exact ⟨hclass, contains_units_addClass i p subject occurrences lines locator hlisted⟩
    · obtain ⟨f, hf, -, rfl⟩ := mem_recordsFor.1 hnew
      have hunit := topLevelSymbol_of_mem_filingsOf p subject occurrences lines locator hf
      rw [addClass_units_of_mem_filingsOf i p subject occurrences lines locator hf]
      exact ⟨⟨subject, hunit⟩, (OrderedMap.contains_insert_iff _ _ _ _).2 (.inl rfl)⟩
  line_usable s r hr := by
    rw [addClass_settings]
    rw [query_addClass, List.mem_append] at hr
    rcases hr with hold | hnew
    · exact hi.line_usable hold
    · obtain ⟨f, hf, -, rfl⟩ := mem_recordsFor.1 hnew
      obtain ⟨unit, -, e, -, c, hreads, hmem⟩ :=
        exists_reads_of_mem_filingsOf p subject occurrences lines locator hf
      exact line_usable_of_reads hreads f hmem

theorem mem_query_retract {unit s : Symbol} {r : UsageRecord}
    (hr : r ∈ (i.retract unit).1.query s) : r ∈ i.query s ∧ r.unit ≠ unit := by
  rw [query_retract] at hr
  split at hr
  · cases hr
  · simpa using hr

theorem Consistent.retract (hi : i.Consistent p) (unit : Symbol) :
    (i.retract unit).1.Consistent p where
  noEmptyBucket := hi.noEmptyBucket.retract unit
  unit_listed s r hr := by
    -- The class is no longer listed, and none of its records is left.
    obtain ⟨hold, hne⟩ := mem_query_retract hr
    obtain ⟨hclass, hlisted⟩ := hi.unit_listed hold
    exact ⟨hclass, (OrderedMap.contains_erase_iff _ _ _).2 ⟨hne, hlisted⟩⟩
  line_usable s r hr := hi.line_usable (mem_query_retract hr).1

theorem isInvariant_consistent (p : Program) : IsInvariant p (·.Consistent p) where
  addClass _ _ _ _ hi := hi.addClass _ _ _ _
  retract unit hi := hi.retract unit
  clear _ := consistent_empty _

theorem Reachable.consistent (hi : i.Reachable p) : i.Consistent p :=
  (isInvariant_consistent p).of_reachable (consistent_empty i.settings) hi

/-! ## What the answers of an index have to do with each other -/

theorem Consistent.contains_iff (hi : i.Consistent p) (s : Symbol) :
    i.contains s = true ↔ i.query s ≠ [] := by
  rw [contains, OrderedMap.contains]
  constructor
  · intro h
    obtain ⟨bucket, hbucket⟩ := Option.isSome_iff_exists.1 h
    rw [query_of_get? hbucket]
    exact hi.noEmptyBucket hbucket
  · intro h
    obtain ⟨r, hr⟩ := List.exists_mem_of_ne_nil _ h
    exact Option.isSome_iff_exists.2 (exists_get?_of_mem_query hr)

theorem Consistent.isEmpty_iff (hi : i.Consistent p) : i.isEmpty = true ↔ i.recordCount = 0 := by
  rw [isEmpty, OrderedMap.isEmpty, List.isEmpty_iff, recordCount_eq_total, OrderedMap.total,
    List.sum_eq_zero_iff_forall_eq_nat]
  constructor
  · intro hnone
    simp [hnone]
  · intro hzero
    refine List.eq_nil_iff_forall_not_mem.2 fun e he => ?_
    have hlength := hzero _ (List.mem_map.2 ⟨e, he, rfl⟩)
    exact hi.noEmptyBucket ((OrderedMap.mem_toList_iff _).1 he) (List.length_eq_zero_iff.1 hlength)

/-- With distinct class names, the owner of a bucket is the outermost class around every declaration
with the symbol of the bucket. -/
theorem OwnersDeclared.symbol_topLevelClass (hi : i.OwnersDeclared p) (hp : p.Sound)
    (hnames : p.ClassNamesDistinct) {s owner : Symbol} (howner : i.bucketOwner? s = some owner)
    {h : Handle} (hs : p.symbol h = .ok s) :
    ∃ c, p.topLevelClass h = .ok c ∧ p.symbol c = .ok owner := by
  obtain ⟨h', c, hs', hc, hsymbol⟩ := hi howner
  exact ⟨c, (hp.topLevelClass_eq_of_symbol_eq hnames hs hs').trans hc, hsymbol⟩

/-- At every time no bucket is empty, so a declaration has a bucket exactly if usages of it are
known, and the index is empty exactly if it counts no record. Each record is by a listed
top-level class, and stands on a line that exists and is no import. Each bucket is for a
declaration of the program, and owned by the outermost class around it. Classes are listed in
strictly increasing order. -/
theorem Reachable.wellFormed (hprogram : p.Reachable) (hnames : p.ClassNamesDistinct)
    (hi : i.Reachable p) :
    ((∀ bucket ∈ i.buckets.values, bucket.records ≠ []) ∧
      (∀ s, i.contains s = true ↔ i.query s ≠ []) ∧
      (i.isEmpty = true ↔ i.recordCount = 0)) ∧
    (∀ s, ∀ r ∈ i.query s,
      (∃ subject, p.topLevelSymbol subject = .ok r.unit) ∧ r.unit ∈ i.indexedClasses ∧
      ¬ i.settings.importMark.toList <+: r.text.toList ∧ 1 ≤ r.line) ∧
    (∀ s owner, i.bucketOwner? s = some owner →
      (∃ h, p.symbol h = .ok s) ∧
      ∀ h, p.symbol h = .ok s → ∃ c, p.topLevelClass h = .ok c ∧ p.symbol c = .ok owner) ∧
    i.indexedClasses.Pairwise fun a b => compare a b = .lt := by
  have hp : p.Sound := hprogram.sound
  have hconsistent : i.Consistent p := hi.consistent
  have howners : i.OwnersDeclared p := hi.ownersDeclared hp
  refine ⟨⟨fun bucket hbucket => ?_, hconsistent.contains_iff, hconsistent.isEmpty_iff⟩,
    fun s r hr => ?_, fun s owner howner => ?_, ?_⟩
  · obtain ⟨s, hs⟩ := (OrderedMap.mem_values_iff _).1 hbucket
    exact hconsistent.noEmptyBucket hs
  · obtain ⟨hclass, hlisted⟩ := hconsistent.unit_listed hr
    obtain ⟨hline, hmark⟩ := hconsistent.line_usable hr
    refine ⟨hclass, (OrderedMap.mem_keys_iff _).2 hlisted, hmark, ?_⟩
    have hpos : r.line.toNat ≠ 0 := fun hzero => hline (UInt32.toNat_inj.1 hzero)
    rw [UInt32.le_iff_toNat_le]
    exact Nat.one_le_iff_ne_zero.2 hpos
  · obtain ⟨h, -, hs, -, -⟩ := howners howner
    exact ⟨⟨h, hs⟩, fun h' hs' => howners.symbol_topLevelClass hp hnames howner hs'⟩
  · exact List.pairwise_map.2 i.units.increasing

/-- A class is indexed, then refreshed with a text whose pass is given up half-way: the
bucket that lost its only record is gone, and the records in front of the failure count as
those of a listed class. -/
theorem wellFormed_broken :
    let index := (empty { publication := .streaming }).after Pair.program
      [.add Pair.clientText, .refresh Pair.brokenText]
    let hit := Symbol.ofMethod "demo.Callee" "hit" "()V"
    Pair.program.ClassNamesDistinct ∧ index.contains hit = false ∧ index.query hit = [] ∧
      index.recordCount = 2 ∧ index.isEmpty = false ∧
      ∀ s, ∀ r ∈ index.query s, r.unit ∈ index.indexedClasses := by
  intro index hit
  have hnames : Pair.program.ClassNamesDistinct := by decide
  obtain ⟨⟨-, hcontains, hempty⟩, hrecords, -, -⟩ :=
    Reachable.wellFormed (i := index) ⟨_, rfl⟩ hnames (reachable_after Pair.program _ _)
  have hnothing : index.query hit = [] := by decide
  have htwo : index.recordCount = 2 := by decide
  refine ⟨hnames, ?_, hnothing, htwo, ?_, fun s r hr => (hrecords s r hr).2.1⟩
  · rw [← Bool.not_eq_true, hcontains]
    exact fun h => h hnothing
  · rw [← Bool.not_eq_true, hempty, htwo]
    decide

end Index

end CrossReference
