import CrossReference.Proofs.Indexing
import CrossReference.Proofs.Retraction
import Mathlib.Algebra.BigOperators.Group.List.Basic
import Mathlib.Algebra.GroupWithZero.Nat

/-!
# Accounting

Outcomes and tallies are exact: a pass raises the number of records by what its outcome reports
(`Index.recordCount_addClass`), and a retraction lowers the numbers of records and of buckets by
what its tally reports (`Index.recordCount_retract`, `Index.size_retract`).

Both numbers are totals over the buckets, with each bucket weighing its records or weighing one. How
a total changes is a fact about ordered maps: replacing one value replaces its weight
(`OrderedMap.total_alter`).
-/

namespace CrossReference

namespace OrderedMap

variable {κ υ : Type}

theorem sum_consValue (weight : υ → Nat) (key : κ) (value : Option υ) (rest : List (κ × υ)) :
    ((consValue key value rest).map fun e => weight e.2).sum =
      value.elim 0 weight + (rest.map fun e => weight e.2).sum := by
  cases value with
  | none => simp [consValue]
  | some v => simp [consValue]

variable [Ord κ]

/-- What the values of a map weigh together. -/
def total (weight : υ → Nat) (m : OrderedMap κ υ) : Nat :=
  (m.toList.map fun e => weight e.2).sum

theorem sum_alterEntries [Std.TransOrd κ] [Std.LawfulEqOrd κ] (weight : υ → Nat) (key : κ)
    (f : Option υ → Option υ) {entries : List (κ × υ)} (h : KeysIncrease entries) :
    ((alterEntries key f entries).map fun e => weight e.2).sum +
        (lookup key entries).elim 0 weight =
      (entries.map fun e => weight e.2).sum + (f (lookup key entries)).elim 0 weight := by
  induction entries with
  | nil => simp [alterEntries, sum_consValue, lookup]
  | cons head rest ih =>
    obtain ⟨k, v⟩ := head
    rw [alterEntries]
    split
    · next hlt =>
      -- The key stands in front of all entries, so it had no value.
      rw [sum_consValue, lookup_cons_of_lt h hlt, Option.elim_none]
      omega
    · next heq =>
      have hsome : lookup key ((k, v) :: rest) = some v := by rw [lookup, if_pos heq]
      rw [sum_consValue, hsome, Option.elim_some, List.map_cons, List.sum_cons]
      dsimp only
      omega
    · next hgt =>
      have hih := ih (List.pairwise_cons.1 h).2
      rw [lookup_cons_of_gt hgt, List.map_cons, List.sum_cons, List.map_cons, List.sum_cons]
      omega

/-- New total and old weight of the key are old total and new weight of the key. -/
theorem total_alter [Std.TransOrd κ] [Std.LawfulEqOrd κ] (weight : υ → Nat) (m : OrderedMap κ υ)
    (key : κ) (f : Option υ → Option υ) :
    (m.alter key f).total weight + (m.get? key).elim 0 weight =
      m.total weight + (f (m.get? key)).elim 0 weight :=
  sum_alterEntries weight key f m.increasing

theorem total_filterMap (weight : υ → Nat) (m : OrderedMap κ υ) (f : κ → υ → Option υ) :
    (m.filterMap f).total weight = (m.toList.map fun e => (f e.1 e.2).elim 0 weight).sum := by
  show ((m.toList.filterMap (keepEntry f)).map fun e => weight e.2).sum = _
  induction m.toList with
  | nil => rfl
  | cons e rest ih =>
    rw [List.map_cons, List.sum_cons, ← ih, List.filterMap_cons, keepEntry]
    cases f e.1 e.2 with
    | none => simp
    | some v => simp

end OrderedMap

theorem Tally.buckets_sum (tallies : List Tally) :
    (Tally.sum tallies).buckets = (tallies.map (·.buckets)).sum := by
  induction tallies with
  | nil => rfl
  | cons t rest ih => rw [Tally.sum, List.map_cons, List.sum_cons, ← ih]

theorem Tally.records_sum (tallies : List Tally) :
    (Tally.sum tallies).records = (tallies.map (·.records)).sum := by
  induction tallies with
  | nil => rfl
  | cons t rest ih => rw [Tally.sum, List.map_cons, List.sum_cons, ← ih]

namespace Index

variable (i : Index)

theorem size_eq_total : i.size = i.buckets.total fun _ => 1 := by
  simp [size, OrderedMap.size, OrderedMap.total]

theorem recordCount_eq_total : i.recordCount = i.buckets.total (·.records.length) := by
  simp [recordCount, OrderedMap.values, OrderedMap.total, List.length_flatMap, Function.comp_def]

/-! ## Records that are filed -/

theorem recordsOf_eq_elim (known : Option Bucket) :
    recordsOf known = known.elim 0 (·.records.length) := by
  cases known <;> rfl

theorem length_records_extendBucket (owner : Symbol) (records : List UsageRecord)
    (known : Option Bucket) :
    (extendBucket owner records known).records.length = recordsOf known + records.length := by
  cases known with
  | none => simp [extendBucket, recordsOf]
  | some bucket => simp [extendBucket, recordsOf]

theorem recordCount_append (target owner : Symbol) (records : List UsageRecord) :
    (i.append target owner records).recordCount = i.recordCount + records.length := by
  have htotal := i.buckets.total_alter (·.records.length) target
    fun known => some (extendBucket owner records known)
  have hafter : (i.append target owner records).recordCount = _ := recordCount_eq_total _
  rw [append] at hafter
  rw [Option.elim_some, length_records_extendBucket, ← recordsOf_eq_elim, ← hafter,
    ← recordCount_eq_total] at htotal
  rw [append]
  omega

theorem recordCount_stream (filings : List Filing) :
    (i.stream filings).recordCount = i.recordCount + filings.length := by
  induction filings generalizing i with
  | nil => rfl
  | cons f rest ih =>
    rw [stream_cons, ih, file, recordCount_append, List.length_singleton, List.length_cons]
    omega

/-- A pass raises the number of records by as many as its outcome reports, also if it
was given up. -/
theorem recordCount_addClass (p : Program) (subject : Handle) (occurrences : Occurrences)
    (lines : List String) (locator : Locator) :
    (i.addClass p subject occurrences lines locator).1.recordCount =
      i.recordCount + (i.addClass p subject occurrences lines locator).2.records := by
  have hbuckets := addClass_buckets i p subject occurrences lines locator
  rw [recordCount_eq_total, hbuckets, ← recordCount_eq_total, recordCount_stream, addClass_records]

/-! ## Records that are retracted -/

theorem recordsOf_sweepBucket_le (unit : Symbol) (bucket : Bucket) :
    recordsOf (sweepBucket unit bucket) ≤ bucket.records.length := by
  rw [sweepBucket]
  split
  · exact Nat.zero_le _
  · dsimp only
    split
    · exact Nat.zero_le _
    · exact List.length_filter_le _ _

/-- If each bucket weighs what is left of it and what its tally counts together, then so
do all buckets. -/
theorem total_retract (unit : Symbol) (weight : Bucket → Nat) (count : Tally → Nat)
    (h : ∀ bucket, (sweepBucket unit bucket).elim 0 weight + count (tallyBucket unit bucket) =
      weight bucket) :
    (i.retract unit).1.buckets.total weight +
        ((i.buckets.values.map (tallyBucket unit)).map count).sum =
      i.buckets.total weight := by
  have hleft := i.buckets.total_filterMap weight fun _ bucket => sweepBucket unit bucket
  rw [retract, hleft, OrderedMap.values, List.map_map, List.map_map, ← List.sum_map_add,
    OrderedMap.total]
  exact congrArg List.sum (List.map_congr_left fun e _ => h e.2)

/-- A retraction lowers the number of records by as many as its tally reports. -/
theorem recordCount_retract (unit : Symbol) :
    (i.retract unit).1.recordCount + (i.retract unit).2.records = i.recordCount := by
  have htotal := i.total_retract unit (·.records.length) (·.records) fun bucket => by
    have hle := recordsOf_sweepBucket_le unit bucket
    rw [← recordsOf_eq_elim, tallyBucket]
    dsimp only
    omega
  rw [recordCount_eq_total, recordCount_eq_total i, ← htotal, ← Tally.records_sum]
  rfl

/-- A retraction lowers the number of buckets by as many as its tally reports. -/
theorem size_retract (unit : Symbol) :
    (i.retract unit).1.size + (i.retract unit).2.buckets = i.size := by
  have htotal := i.total_retract unit (fun _ => 1) (·.buckets) fun bucket => by
    rw [tallyBucket]
    cases sweepBucket unit bucket <;> rfl
  rw [size_eq_total, size_eq_total i, ← htotal, ← Tally.buckets_sum]
  rfl

end Index

end CrossReference
