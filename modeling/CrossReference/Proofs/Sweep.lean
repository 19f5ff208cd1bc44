import CrossReference.Proofs.Attainable
import CrossReference.Proofs.Refresh

/-!
# What a retraction leaves

In an index without empty buckets, which every attainable index is, retracting a class leaves a
bucket exactly if another class owns it and another class has a record in it
(`Index.get?_retract_eq_some_iff`). Retracting the class again removes nothing. Two classes may be
retracted in either order (`Index.retract_comm`): what each of them removes depends on the order,
what both remove does not.
-/

namespace CrossReference

namespace Index

open Sample

variable {i : Index} {unit other : Symbol}

/-! ## One bucket -/

theorem sweepBucket_eq_some_iff {bucket left : Bucket} (h : bucket.records ≠ []) :
    sweepBucket unit bucket = some left ↔
      bucket.owner ≠ unit ∧ (∃ r ∈ bucket.records, r.unit ≠ unit) ∧
        left = { bucket with records := bucket.records.filter (·.unit ≠ unit) } := by
  have hkept : bucket.records.filter (·.unit ≠ unit) ≠ [] ↔
      ∃ r ∈ bucket.records, r.unit ≠ unit := by
    simp [List.filter_eq_nil_iff]
  rw [sweepBucket_of_records_ne_nil h, ← hkept]
  split
  · next hgone => exact ⟨nofun, fun hstays => absurd hgone (not_or.2 ⟨hstays.1, hstays.2.1⟩)⟩
  · next hstays =>
    obtain ⟨howner, hne⟩ := not_or.1 hstays
    rw [Option.some.injEq, eq_comm]
    exact ⟨fun heq => ⟨howner, hne, heq⟩, fun h => h.2.2⟩

/-- Two retractions leave of a bucket what neither class owns or has made. -/
theorem bind_sweepBucket_eq_some_iff {bucket left : Bucket} (h : bucket.records ≠ []) :
    (sweepBucket unit bucket).bind (sweepBucket other) = some left ↔
      (bucket.owner ≠ unit ∧ bucket.owner ≠ other) ∧
        (∃ r ∈ bucket.records, r.unit ≠ unit ∧ r.unit ≠ other) ∧
        left = { bucket with
          records := bucket.records.filter fun r => r.unit ≠ unit ∧ r.unit ≠ other } := by
  have hboth : (bucket.records.filter (·.unit ≠ unit)).filter (·.unit ≠ other) =
      bucket.records.filter fun r => r.unit ≠ unit ∧ r.unit ≠ other := by
    rw [List.filter_filter]
    exact List.filter_congr fun r _ => by simp [Bool.and_comm]
  rw [Option.bind_eq_some_iff]
  constructor
  · rintro ⟨kept, hkept, hleft⟩
    obtain ⟨howner, ⟨r, hr, hunit⟩, rfl⟩ := (sweepBucket_eq_some_iff h).1 hkept
    have hne : bucket.records.filter (·.unit ≠ unit) ≠ [] :=
      List.ne_nil_of_mem (List.mem_filter.2 ⟨hr, decide_eq_true hunit⟩)
    obtain ⟨howner', ⟨r', hr', hother⟩, rfl⟩ := (sweepBucket_eq_some_iff hne).1 hleft
    obtain ⟨hold, hunit'⟩ := List.mem_filter.1 hr'
    exact ⟨⟨howner, howner'⟩, ⟨r', hold, of_decide_eq_true hunit', hother⟩, by rw [hboth]⟩
  · rintro ⟨⟨howner, howner'⟩, ⟨r, hr, hunit, hother⟩, rfl⟩
    have hmem : r ∈ bucket.records.filter (·.unit ≠ unit) :=
      List.mem_filter.2 ⟨hr, decide_eq_true hunit⟩
    refine ⟨_, (sweepBucket_eq_some_iff h).2 ⟨howner, ⟨r, hr, hunit⟩, rfl⟩, ?_⟩
    refine (sweepBucket_eq_some_iff (List.ne_nil_of_mem hmem)).2 ⟨howner', ⟨r, hmem, hother⟩, ?_⟩
    rw [hboth]

theorem bind_sweepBucket_comm {bucket : Bucket} (h : bucket.records ≠ []) :
    (sweepBucket unit bucket).bind (sweepBucket other) =
      (sweepBucket other bucket).bind (sweepBucket unit) := by
  refine Option.ext fun left => ?_
  have hsame : bucket.records.filter (fun r => r.unit ≠ unit ∧ r.unit ≠ other) =
      bucket.records.filter fun r => r.unit ≠ other ∧ r.unit ≠ unit :=
    List.filter_congr fun r _ => decide_eq_decide.2 and_comm
  have hexists : (∃ r ∈ bucket.records, r.unit ≠ unit ∧ r.unit ≠ other) ↔
      ∃ r ∈ bucket.records, r.unit ≠ other ∧ r.unit ≠ unit :=
    exists_congr fun r => and_congr_right fun _ => and_comm
  rw [bind_sweepBucket_eq_some_iff h, bind_sweepBucket_eq_some_iff h, hsame, hexists,
    and_comm (a := _ ≠ unit)]

/-! ## All buckets -/

/-- A bucket that is left was there before, is not owned by the class, and held a record of another
class; it keeps its owner and the records of other classes in their order. -/
theorem get?_retract_eq_some_iff (hi : i.NoEmptyBucket) {s : Symbol} {left : Bucket} :
    (i.retract unit).1.buckets.get? s = some left ↔
      ∃ bucket, i.buckets.get? s = some bucket ∧ bucket.owner ≠ unit ∧
        (∃ r ∈ bucket.records, r.unit ≠ unit) ∧
        left = { bucket with records := bucket.records.filter (·.unit ≠ unit) } := by
  rw [get?_retract, Option.bind_eq_some_iff]
  exact exists_congr fun bucket => and_congr_right fun hbucket =>
    sweepBucket_eq_some_iff (hi hbucket)

theorem retract_comm (hi : i.NoEmptyBucket) (unit other : Symbol) :
    ((i.retract unit).1.retract other).1 = ((i.retract other).1.retract unit).1 := by
  refine ext_get? (fun s => ?_) (i.units.erase_comm unit other) rfl
  rw [get?_retract, get?_retract, get?_retract, get?_retract]
  cases h : i.buckets.get? s with
  | none => rfl
  | some bucket =>
    rw [Option.bind_some, Option.bind_some]
    exact bind_sweepBucket_comm (hi h)

/-! ## Tallies -/

/-- A second retraction of a class has nothing to report. -/
theorem retract_retract_eq (hi : i.NoEmptyBucket) (unit : Symbol) :
    (i.retract unit).1.retract unit = ((i.retract unit).1, {}) := by
  rw [(retract_eq_of_fst_eq (retract_retract hi unit)).2, Nat.sub_self, Nat.sub_self]

theorem tallies_retract_comm (hi : i.NoEmptyBucket) (unit other : Symbol) :
    (i.retract unit).2.buckets + ((i.retract unit).1.retract other).2.buckets =
        (i.retract other).2.buckets + ((i.retract other).1.retract unit).2.buckets ∧
      (i.retract unit).2.records + ((i.retract unit).1.retract other).2.records =
        (i.retract other).2.records + ((i.retract other).1.retract unit).2.records := by
  have hsame := retract_comm hi unit other
  have hsize := i.size_retract unit
  have hsize' := i.size_retract other
  have hlater := (i.retract unit).1.size_retract other
  have hlater' := (i.retract other).1.size_retract unit
  have hcount := i.recordCount_retract unit
  have hcount' := i.recordCount_retract other
  have hrest := (i.retract unit).1.recordCount_retract other
  have hrest' := (i.retract other).1.recordCount_retract unit
  rw [hsame] at hlater hrest
  omega

/-- Whatever led to the index: after a class is retracted, a declaration has a bucket exactly if it
had one that the class does not own and in which another class has a record; the bucket keeps its
owner and, in their order, the records of other classes. The class is no longer listed, all others
are. Retracting it again changes nothing and reports nothing. Two classes may be retracted in either
order: the index is the same, and so is what both tallies add up to. -/
theorem Attainable.get?_retract_iff_and_comm (hi : i.Attainable) (unit : Symbol) :
    let swept := i.retract unit
    (∀ s left, swept.1.buckets.get? s = some left ↔
      ∃ bucket, i.buckets.get? s = some bucket ∧ bucket.owner ≠ unit ∧
        (∃ r ∈ bucket.records, r.unit ≠ unit) ∧
        left = { bucket with records := bucket.records.filter (·.unit ≠ unit) }) ∧
    swept.1.indexedClasses = i.indexedClasses.filter (· ≠ unit) ∧
    swept.1.retract unit = (swept.1, {}) ∧
    ∀ other,
      let second := swept.1.retract other
      let swept' := i.retract other
      let second' := swept'.1.retract unit
      second.1 = second'.1 ∧
        swept.2.buckets + second.2.buckets = swept'.2.buckets + second'.2.buckets ∧
        swept.2.records + second.2.records = swept'.2.records + second'.2.records := by
  intro swept
  have hfull : i.NoEmptyBucket := hi.noEmptyBucket
  exact ⟨fun s left => get?_retract_eq_some_iff hfull, i.units.keys_erase unit,
    retract_retract_eq hfull unit, fun other =>
      ⟨retract_comm hfull unit other, tallies_retract_comm hfull unit other⟩⟩

/-- Two classes use a nested class and a method of a third class, which also calls one of them. The
two classes that are retracted take seven and two records with them in one order, four and five in
the other. -/
theorem get?_retract_iff_and_comm_nest :
    let busyTill : ClassText := { Nest.tillText with
      occurrences := .ofList [(⟨39, 3⟩, Nest.itemConstructor), (⟨50, 3⟩, Nest.bagFill)] }
    let busyBag : ClassText := { Nest.bagText with
      occurrences := .ofList
        [(⟨32, 3⟩, Nest.tillSell), (⟨39, 3⟩, Nest.itemConstructor), (⟨50, 3⟩, Nest.bagFill)] }
    let index := empty.after Nest.program [.add Nest.shopText, .add busyTill, .add busyBag]
    let shop := Symbol.ofClass "demo.Shop"
    let till := Symbol.ofClass "demo.Till"
    index.Attainable ∧
      (index.retract shop).2.records = 7 ∧ ((index.retract shop).1.retract till).2.records = 2 ∧
      (index.retract till).2.records = 4 ∧ ((index.retract till).1.retract shop).2.records = 5 ∧
      ((index.retract shop).1.retract till).1 = ((index.retract till).1.retract shop).1 := by
  intro busyTill busyBag index shop till
  have hindex : index.Attainable := (reachable_after Nest.program _ _).attainable
  have hshop : (index.retract shop).2.records = 7 := by decide +kernel
  have hthen : ((index.retract shop).1.retract till).2.records = 2 := by decide +kernel
  have htill : (index.retract till).2.records = 4 := by decide +kernel
  obtain ⟨-, -, -, hcomm⟩ := hindex.get?_retract_iff_and_comm shop
  obtain ⟨hsame, -, htotal⟩ := hcomm till
  refine ⟨hindex, hshop, hthen, htill, ?_, hsame⟩
  omega

end Index

end CrossReference
