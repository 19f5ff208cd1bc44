import CrossReference.Index.Basic
import CrossReference.OrderedMap.Lemmas

/-!
# Filing

What it does to an index when records are filed, seen through `Index.query` and
`Index.bucketOwner?`. Filing one record after another appends to each declaration the records that
name it, in their order, and a bucket keeps the owner that its first filing named.

Publishing target by target leaves the same index as filing one by one (`Index.publish_eq_stream`):
groups have different targets, so a record may join its group before the groups behind it are
published. Every later statement is therefore about `Index.stream` alone.
-/

namespace CrossReference

namespace Index

/-- The class that owns the bucket of a declaration, if there is a bucket. -/
def bucketOwner? (i : Index) (s : Symbol) : Option Symbol :=
  (i.buckets.get? s).map (·.owner)

/-- The records that filings bring to one declaration, in order. -/
def recordsFor (s : Symbol) (filings : List Filing) : List UsageRecord :=
  (filings.filter (·.target = s)).map (·.record)

@[simp] theorem recordsFor_nil (s : Symbol) : recordsFor s [] = [] := rfl

theorem recordsFor_cons (s : Symbol) (f : Filing) (filings : List Filing) :
    recordsFor s (f :: filings) =
      (if s = f.target then [f.record] else []) ++ recordsFor s filings := by
  by_cases h : s = f.target
  · subst h
    simp [recordsFor]
  · simp [recordsFor, h, Ne.symm h]

theorem recordsFor_append (s : Symbol) (front behind : List Filing) :
    recordsFor s (front ++ behind) = recordsFor s front ++ recordsFor s behind := by
  rw [recordsFor, List.filter_append, List.map_append]
  rfl

theorem mem_recordsFor {s : Symbol} {filings : List Filing} {r : UsageRecord} :
    r ∈ recordsFor s filings ↔ ∃ f ∈ filings, f.target = s ∧ f.record = r := by
  simp [recordsFor, and_assoc]

theorem query_of_get? {i : Index} {s : Symbol} {bucket : Bucket}
    (h : i.buckets.get? s = some bucket) : i.query s = bucket.records := by
  rw [query, h]

theorem exists_get?_of_mem_query {i : Index} {s : Symbol} {r : UsageRecord} (hr : r ∈ i.query s) :
    ∃ bucket, i.buckets.get? s = some bucket := by
  cases h : i.buckets.get? s with
  | none =>
    rw [query, h] at hr
    cases hr
  | some bucket => exact ⟨bucket, rfl⟩

theorem query_eq_nil_of_bucketOwner?_eq_none {i : Index} {s : Symbol}
    (h : i.bucketOwner? s = none) : i.query s = [] := by
  rw [bucketOwner?, Option.map_eq_none_iff] at h
  rw [query, h]

theorem query_congr {i j : Index} (h : i.buckets = j.buckets) (s : Symbol) :
    i.query s = j.query s := by
  rw [query, query, h]

theorem bucketOwner?_congr {i j : Index} (h : i.buckets = j.buckets) (s : Symbol) :
    i.bucketOwner? s = j.bucketOwner? s := by
  rw [bucketOwner?, bucketOwner?, h]

/-! ## One append -/

variable (i : Index)

theorem get?_append (target owner : Symbol) (records : List UsageRecord) (s : Symbol) :
    (i.append target owner records).buckets.get? s =
      if s = target then some (extendBucket owner records (i.buckets.get? target))
      else i.buckets.get? s :=
  OrderedMap.get?_alter _ _ _ _

@[simp] theorem append_settings (target owner : Symbol) (records : List UsageRecord) :
    (i.append target owner records).settings = i.settings := rfl

@[simp] theorem append_units (target owner : Symbol) (records : List UsageRecord) :
    (i.append target owner records).units = i.units := rfl

theorem query_append (target owner : Symbol) (records : List UsageRecord) (s : Symbol) :
    (i.append target owner records).query s =
      i.query s ++ if s = target then records else [] := by
  rw [query, get?_append]
  by_cases h : s = target
  · subst h
    rw [if_pos rfl, if_pos rfl, query]
    cases i.buckets.get? s with
    | none => rfl
    | some bucket => rfl
  · rw [if_neg h, if_neg h, List.append_nil, query]

theorem bucketOwner?_append (target owner : Symbol) (records : List UsageRecord) (s : Symbol) :
    (i.append target owner records).bucketOwner? s =
      if s = target then some ((i.bucketOwner? s).getD owner) else i.bucketOwner? s := by
  rw [bucketOwner?, get?_append]
  by_cases h : s = target
  · subst h
    rw [if_pos rfl, if_pos rfl, bucketOwner?]
    cases i.buckets.get? s with
    | none => rfl
    | some bucket => rfl
  · rw [if_neg h, if_neg h, bucketOwner?]

theorem ext_get? {i j : Index} (hbuckets : ∀ s, i.buckets.get? s = j.buckets.get? s)
    (hunits : i.units = j.units) (hsettings : i.settings = j.settings) : i = j := by
  have hmap : i.buckets = j.buckets := OrderedMap.ext_get? hbuckets
  cases i; cases j; simp_all

theorem append_comm {s t : Symbol} (h : s ≠ t) (o o' : Symbol) (rs rs' : List UsageRecord) :
    (i.append s o rs).append t o' rs' = (i.append t o' rs').append s o rs := by
  refine ext_get? (fun u => ?_) rfl rfl
  simp only [get?_append, if_neg h, if_neg (Ne.symm h)]
  by_cases hs : u = s
  · have ht : u ≠ t := fun ht => h (hs.symm.trans ht)
    rw [if_neg ht, if_pos hs, if_pos hs]
  · rw [if_neg hs, if_neg hs]

/-- A second append to a bucket only lengthens the first: the owner it names is not needed. -/
theorem append_append (s o o' : Symbol) (rs rs' : List UsageRecord) :
    (i.append s o rs).append s o' rs' = i.append s o (rs ++ rs') := by
  refine ext_get? (fun u => ?_) rfl rfl
  simp only [get?_append, if_true]
  by_cases hs : u = s
  · rw [if_pos hs, if_pos hs]
    cases i.buckets.get? s with
    | none => rfl
    | some bucket => simp [extendBucket]
  · rw [if_neg hs, if_neg hs, if_neg hs]

/-! ## Records one after another -/

@[simp] theorem stream_nil : i.stream [] = i := rfl

theorem stream_cons (f : Filing) (filings : List Filing) :
    i.stream (f :: filings) = (i.file f).stream filings := rfl

@[simp] theorem stream_settings (filings : List Filing) :
    (i.stream filings).settings = i.settings := by
  induction filings generalizing i with
  | nil => rfl
  | cons f rest ih => rw [stream_cons, ih, file, append_settings]

@[simp] theorem stream_units (filings : List Filing) :
    (i.stream filings).units = i.units := by
  induction filings generalizing i with
  | nil => rfl
  | cons f rest ih => rw [stream_cons, ih, file, append_units]

theorem query_stream (filings : List Filing) (s : Symbol) :
    (i.stream filings).query s = i.query s ++ recordsFor s filings := by
  induction filings generalizing i with
  | nil => simp
  | cons f rest ih =>
    rw [stream_cons, ih, file, query_append, recordsFor_cons, List.append_assoc]

/-- A bucket was there before, with its owner, or some filing for it names the owner. -/
theorem bucketOwner?_stream {s owner : Symbol} {filings : List Filing}
    (h : (i.stream filings).bucketOwner? s = some owner) :
    i.bucketOwner? s = some owner ∨ ∃ f ∈ filings, f.target = s ∧ f.owner = owner := by
  induction filings generalizing i with
  | nil => exact .inl h
  | cons f rest ih =>
    rw [stream_cons] at h
    rcases ih _ h with h | ⟨g, hg, hgs⟩
    · -- There was a bucket after `f` was filed; only if it is new does `f` name its owner.
      rw [file, bucketOwner?_append] at h
      by_cases hs : s = f.target
      · rw [if_pos hs] at h
        cases ho : i.bucketOwner? s with
        | none =>
          rw [ho] at h
          exact .inr ⟨f, List.mem_cons_self, hs.symm, Option.some.inj h⟩
        | some o =>
          rw [ho] at h
          exact .inl h
      · rw [if_neg hs] at h
        exact .inl h
    · exact .inr ⟨g, List.mem_cons_of_mem _ hg, hgs⟩

/-! ## Records target by target -/

theorem mem_target_addToGroups {f : Filing} {groups : List Group} {s : Symbol} :
    s ∈ (addToGroups f groups).map Group.target ↔
      s = f.target ∨ s ∈ groups.map Group.target := by
  induction groups with
  | nil => simp [addToGroups]
  | cons g rest ih =>
    rw [addToGroups]
    split
    · next hg => simp [hg]
    · rw [List.map_cons, List.mem_cons, ih, List.map_cons, List.mem_cons]
      exact or_left_comm

theorem nodup_addToGroups {f : Filing} {groups : List Group}
    (h : (groups.map Group.target).Nodup) : ((addToGroups f groups).map Group.target).Nodup := by
  induction groups with
  | nil => simp [addToGroups]
  | cons g rest ih =>
    obtain ⟨hg, hrest⟩ := List.nodup_cons.1 h
    rw [addToGroups]
    split
    · exact h
    · next hne =>
      refine List.nodup_cons.2 ⟨fun hmem => ?_, ih hrest⟩
      rcases mem_target_addToGroups.1 hmem with heq | hmem
      · exact hne heq
      · exact hg hmem

/-- A record filed before groups of other targets may as well be filed behind them. -/
theorem foldl_appendGroup_file (f : Filing) {groups : List Group}
    (h : f.target ∉ groups.map Group.target) :
    groups.foldl appendGroup (i.file f) = (groups.foldl appendGroup i).file f := by
  induction groups generalizing i with
  | nil => rfl
  | cons g rest ih =>
    -- One exchange with the first group, the others by induction.
    have hne : f.target ≠ g.target := fun heq => h (by simp [heq])
    have hrest : f.target ∉ rest.map Group.target := fun hmem =>
      h (List.mem_cons_of_mem _ hmem)
    have hswap : appendGroup (i.file f) g = (appendGroup i g).file f := by
      rw [appendGroup, file, append_comm i hne]
      rfl
    rw [List.foldl_cons, List.foldl_cons, hswap, ih _ hrest]

/-- Adding a record to its group is filing it after all groups. -/
theorem foldl_appendGroup_addToGroups (f : Filing) {groups : List Group}
    (h : (groups.map Group.target).Nodup) :
    (addToGroups f groups).foldl appendGroup i = (groups.foldl appendGroup i).file f := by
  induction groups generalizing i with
  | nil => rfl
  | cons g rest ih =>
    obtain ⟨hg, hrest⟩ := List.nodup_cons.1 h
    rw [addToGroups]
    split
    · next heq =>
      -- The record joins this group, and none of the groups behind has its target.
      have hjoin : appendGroup i { g with records := g.records ++ [f.record] } =
          (appendGroup i g).file f := by
        rw [file, ← heq]
        exact (append_append i g.target g.owner f.owner g.records [f.record]).symm
      rw [List.foldl_cons, hjoin, foldl_appendGroup_file _ _ (heq ▸ hg)]
      rfl
    · exact ih _ hrest

theorem foldl_appendGroup_foldl_addToGroups (filings : List Filing) (groups : List Group)
    (h : (groups.map Group.target).Nodup) :
    (filings.foldl (fun groups f => addToGroups f groups) groups).foldl appendGroup i =
      (groups.foldl appendGroup i).stream filings := by
  induction filings generalizing groups with
  | nil => rfl
  | cons f rest ih =>
    rw [List.foldl_cons, ih _ (nodup_addToGroups h), foldl_appendGroup_addToGroups i f h]
    rfl

/-- Publishing target by target leaves what filing one by one leaves. -/
theorem publish_eq_stream (filings : List Filing) : i.publish filings = i.stream filings :=
  foldl_appendGroup_foldl_addToGroups i filings [] List.nodup_nil

/-- The way of publishing makes no difference to what is entered. -/
theorem enter_eq_stream (filings : List Filing) : i.enter filings = i.stream filings := by
  rw [enter]
  split
  · exact publish_eq_stream i filings
  · rfl

end Index

end CrossReference
