import CrossReference.Proofs.Filing

/-!
# Retraction

What retracting a class leaves, declaration by declaration. A bucket that the class owns goes as a
whole; any other bucket loses exactly the records that the class made, and keeps its owner if it
stays. `Index.query_retract` says this of the records, `Index.bucketOwner?_retract` of the owners.
-/

namespace CrossReference

namespace Index

theorem owner_of_sweepBucket {unit : Symbol} {bucket left : Bucket}
    (h : sweepBucket unit bucket = some left) : left.owner = bucket.owner ∧ left.owner ≠ unit := by
  rw [sweepBucket] at h
  split at h
  · cases h
  · next howner =>
    -- Both remaining branches keep the owner; only the second one keeps the bucket.
    dsimp only at h
    split at h
    · cases h
    · cases h
      exact ⟨rfl, howner⟩

theorem sweepBucket_of_owner {unit : Symbol} {bucket : Bucket} (h : bucket.owner = unit) :
    sweepBucket unit bucket = none := by
  rw [sweepBucket, if_pos h]

/-- Whether or not a bucket of another class stays, the records left are those of other classes. -/
theorem records_sweepBucket {unit : Symbol} {bucket : Bucket} (h : bucket.owner ≠ unit) :
    ((sweepBucket unit bucket).map (·.records)).getD [] =
      bucket.records.filter (·.unit ≠ unit) := by
  rw [sweepBucket, if_neg h]
  dsimp only
  split
  · next hgone =>
    -- The bucket is dropped because nothing of it is kept.
    have hempty : (bucket.records.filter (·.unit ≠ unit)).isEmpty = true :=
      (Bool.and_eq_true _ _ ▸ hgone).2
    exact (List.isEmpty_iff.1 hempty).symm
  · rfl

/-- Of a bucket with records something stays exactly if another class owns it and some record is by
another class. -/
theorem sweepBucket_of_records_ne_nil {unit : Symbol} {bucket : Bucket} (h : bucket.records ≠ []) :
    sweepBucket unit bucket =
      if bucket.owner = unit ∨ bucket.records.filter (·.unit ≠ unit) = [] then none
      else some { bucket with records := bucket.records.filter (·.unit ≠ unit) } := by
  rw [sweepBucket]
  by_cases howner : bucket.owner = unit
  · rw [if_pos howner, if_pos (.inl howner)]
  · rw [if_neg howner]
    dsimp only
    generalize bucket.records.filter (·.unit ≠ unit) = kept
    cases kept with
    | nil =>
      -- Nothing is kept of what was there, so something was removed.
      have hpos : 0 < bucket.records.length := List.length_pos_iff.2 h
      simp [hpos]
    | cons r rest => simp [howner]

variable (i : Index) (unit : Symbol)

@[simp] theorem retract_settings : (i.retract unit).1.settings = i.settings := rfl

@[simp] theorem retractHandle_settings (p : Program) (h : Handle) :
    (i.retractHandle p h).1.settings = i.settings := by
  rw [retractHandle]
  split <;> rfl

theorem get?_retract (s : Symbol) :
    (i.retract unit).1.buckets.get? s = (i.buckets.get? s).bind (sweepBucket unit) :=
  OrderedMap.get?_filterMap _ _ _

/-- What remains known about a declaration: nothing if the class owned its bucket, else the records
of other classes. -/
theorem query_retract (s : Symbol) :
    (i.retract unit).1.query s =
      if i.bucketOwner? s = some unit then [] else (i.query s).filter (·.unit ≠ unit) := by
  rw [query, get?_retract, bucketOwner?, query]
  cases i.buckets.get? s with
  | none => rfl
  | some bucket =>
    by_cases howner : bucket.owner = unit
    · rw [Option.bind_some, sweepBucket_of_owner howner, Option.map_some,
        if_pos (congrArg some howner)]
    · have hne : (some bucket).map (·.owner) ≠ some unit := fun h => howner (Option.some.inj h)
      rw [if_neg hne, Option.bind_some, ← records_sweepBucket howner]
      cases sweepBucket unit bucket with
      | none => rfl
      | some left => rfl

theorem bucketOwner?_retract {s owner : Symbol}
    (h : (i.retract unit).1.bucketOwner? s = some owner) :
    i.bucketOwner? s = some owner ∧ owner ≠ unit := by
  rw [bucketOwner?, get?_retract, Option.map_eq_some_iff] at h
  obtain ⟨left, hleft, rfl⟩ := h
  obtain ⟨bucket, hbucket, hsweep⟩ := Option.bind_eq_some_iff.1 hleft
  obtain ⟨howner, hne⟩ := owner_of_sweepBucket hsweep
  refine ⟨?_, hne⟩
  rw [bucketOwner?, hbucket, howner]
  rfl

end Index

end CrossReference
