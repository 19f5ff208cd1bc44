import CrossReference.Proofs.Consistency
import CrossReference.Proofs.Interleaving

/-!
# Attainable indexes

The indexes that can come about (`Index.Attainable`): the program may change between one operation
and the next, and passes may run one after another or at one time. Those that are reached over one
program are among them (`Index.Reachable.attainable`). Every append brings records, so no bucket of
an attainable index is empty (`Index.Attainable.noEmptyBucket`).
-/

namespace CrossReference

/-! ## Appends bring records -/

namespace Index

theorem records_ne_nil_of_mem_addToGroups {f : Filing} {groups : List Group}
    (hgroups : ∀ g ∈ groups, g.records ≠ []) : ∀ g ∈ addToGroups f groups, g.records ≠ [] := by
  induction groups with
  | nil =>
    intro g hg
    obtain rfl := List.mem_singleton.1 hg
    exact List.cons_ne_nil _ _
  | cons first rest ih =>
    obtain ⟨hfirst, hrest⟩ := List.forall_mem_cons.1 hgroups
    rw [addToGroups]
    split
    · have hlonger : first.records ++ [f.record] ≠ [] :=
        List.append_ne_nil_of_right_ne_nil _ (List.cons_ne_nil _ _)
      exact List.forall_mem_cons.2 ⟨hlonger, hrest⟩
    · exact List.forall_mem_cons.2 ⟨hfirst, ih hrest⟩

theorem records_ne_nil_of_mem_appendsOf (settings : UsageSettings) (filings : List Filing) :
    ∀ g ∈ appendsOf settings filings, g.records ≠ [] := by
  rw [appendsOf]
  split
  · exact List.foldlRecOn (motive := fun groups : List Group => ∀ g ∈ groups, g.records ≠ [])
      filings _ (List.forall_mem_nil _)
      fun _ hgroups _ _ => records_ne_nil_of_mem_addToGroups hgroups
  · intro g hg
    obtain ⟨f, -, rfl⟩ := List.mem_map.1 hg
    exact List.cons_ne_nil _ _

end Index

namespace Race

/-- No bucket is empty, and each append that is still to be made brings records. -/
structure Full (r : Race) : Prop where
  noEmptyBucket : r.index.NoEmptyBucket
  waiting : ∀ appends ∈ r.waiting, ∀ g ∈ appends, g.records ≠ []

variable {r : Race} {i : Index}

theorem full_start (hi : i.NoEmptyBucket) (p : Program) (family : List PassInput) :
    (start i p family).Full where
  noEmptyBucket := hi
  waiting appends happends := by
    obtain ⟨input, -, rfl⟩ := List.mem_map.1 happends
    exact Index.records_ne_nil_of_mem_appendsOf i.settings _

theorem Full.turn (hr : r.Full) (t : Turn) : (r.turn t).Full := by
  cases t with
  | append number =>
    obtain heq | ⟨g, rest, hwaiting, heq⟩ := r.turn_append_cases number
    · rw [heq]
      exact hr
    · obtain ⟨hg, hrest⟩ := List.forall_mem_cons.1 (hr.waiting _ (List.mem_of_getElem? hwaiting))
      rw [heq]
      refine ⟨hr.noEmptyBucket.append g.target g.owner hg, fun appends happends => ?_⟩
      rcases List.mem_or_eq_of_mem_set happends with hold | rfl
      · exact hr.waiting appends hold
      · exact hrest
  | retract swept => exact ⟨hr.noEmptyBucket.retract swept, hr.waiting⟩

theorem Full.after (hr : r.Full) (turns : List Turn) : (r.after turns).Full := by
  induction turns generalizing r with
  | nil => exact hr
  | cons t rest ih => exact ih (hr.turn t)

end Race

/-! ## Attainable indexes -/

namespace Index

/-- The indexes that can come about. Operations are carried out one after another, each over the
program as it is at that time; and passes run at one time, with retractions between their appends.
An index in such a race is attainable at any moment, whatever classes are listed by then. -/
inductive Attainable : Index → Prop where
  | empty (settings : UsageSettings) : Attainable (empty settings)
  | perform {i : Index} (p : Program) (o : Operation) (hi : Attainable i) :
      Attainable (i.perform p o).1
  | race {i : Index} (p : Program) (family : List PassInput) (turns : List Turn)
      (listed : OrderedSet Symbol) (hi : Attainable i) :
      Attainable { ((Race.start i p family).after turns).index with units := listed }

variable {i : Index} {p : Program}

theorem Attainable.after (hi : i.Attainable) (p : Program) (operations : List Operation) :
    (i.after p operations).Attainable := by
  induction operations generalizing i with
  | nil => exact hi
  | cons o rest ih => exact ih (hi.perform p o)

theorem Reachable.attainable (hi : i.Reachable p) : i.Attainable := by
  obtain ⟨operations, hoperations⟩ := hi
  rw [hoperations]
  exact (Attainable.empty i.settings).after p operations

theorem isInvariant_noEmptyBucket (p : Program) : IsInvariant p NoEmptyBucket where
  addClass _ _ _ _ hi := hi.addClass p _ _ _ _
  retract unit hi := hi.retract unit
  clear _ := noEmptyBucket_empty _

theorem Attainable.noEmptyBucket (hi : i.Attainable) : i.NoEmptyBucket := by
  induction hi with
  | empty settings => exact noEmptyBucket_empty settings
  | perform p o _ ih => exact (isInvariant_noEmptyBucket p).perform ih o
  | race p family turns listed _ ih =>
    exact ((Race.full_start ih p family).after turns).noEmptyBucket

end Index

end CrossReference
