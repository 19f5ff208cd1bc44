import CrossReference.Proofs.Ownership

/-!
# Retraction and containment

A retraction looks at what each bucket and each record say about the class they belong to.
`Index.sweepInside` does without these entries: it asks the program in which class the target of a
bucket and the declaration around a usage lie. If every text comes with the layout that the program
gives its class, both leave the same usages (`Index.query_retract_eq_sweepInside`), because a pass
then finds around a usage nothing but declarations of the class that it is over
(`Index.PlacedInside`).
-/

namespace CrossReference

/-! ## Layouts of a class -/

namespace Layout

variable {l : Layout} {p : Program} {c : Handle}

/-- All that a layout places lies in one outermost class. -/
def Inside (l : Layout) (p : Program) (c : Handle) : Prop :=
  ∀ ⦃line h⦄, l.declarations.get? line = some h → p.topLevelClass h = .ok c

theorem Inside.declare (hl : l.Inside p c) {h : Handle} (hc : p.topLevelClass h = .ok c)
    (line : UInt32) : (l.declare line h).Inside p c := by
  intro line' h' hget
  rw [Layout.declare, OrderedMap.get?_insert] at hget
  split at hget
  · obtain rfl := Option.some.inj hget
    exact hc
  · exact hl hget

theorem Inside.declarePlaced (hl : l.Inside p c) {h : Handle} (hc : p.topLevelClass h = .ok c)
    {placed : Layout} (hplaced : declarePlaced p l h = .ok placed) : placed.Inside p c := by
  obtain ⟨placement, -, hplaced⟩ := bind_eq_ok.1 hplaced
  cases placement with
  | none =>
    obtain rfl : l = placed := Except.ok.inj hplaced
    exact hl
  | some position =>
    obtain rfl : l.declare position.line h = placed := Except.ok.inj hplaced
    exact hl.declare hc position.line

theorem Inside.foldlM_declarePlaced (hl : l.Inside p c) {hs : List Handle}
    (hhs : ∀ h ∈ hs, p.topLevelClass h = .ok c) {placed : Layout}
    (hplaced : hs.foldlM (Layout.declarePlaced p) l = .ok placed) : placed.Inside p c := by
  induction hs generalizing l with
  | nil =>
    obtain rfl : l = placed := Except.ok.inj hplaced
    exact hl
  | cons h rest ih =>
    obtain ⟨hc, hrest⟩ := List.forall_mem_cons.1 hhs
    rw [List.foldlM_cons, bind_eq_ok] at hplaced
    obtain ⟨next, hnext, hplaced⟩ := hplaced
    exact ih (hl.declarePlaced hc hnext) hrest hplaced

/-- The layout that the program gives a class places only what lies in the outermost class around
that class. -/
theorem inside_ofClass (hp : p.Reachable) (hsize : p.size ≤ UInt32.size) {subject : Handle}
    (hc : p.topLevelClass subject = .ok c) (hl : ofClass p subject = .ok l) : l.Inside p c := by
  have hempty : empty.Inside p c := fun _ _ h => nomatch h
  exact hempty.foldlM_declarePlaced (fun h hh => hp.topLevelClass_of_mem_descendants hsize hc hh) hl

theorem Inside.topLevelClass_of_declarationAt (hl : l.Inside p c) {line : UInt32} {h : Handle}
    (hat : l.locator.declarationAt line = some h) : p.topLevelClass h = .ok c := by
  obtain ⟨e, he, rfl⟩ := Option.map_eq_some_iff.1 hat
  exact hl (OrderedMap.get?_of_floor? he)

end Layout

/-- The text comes with the layout that the program gives its class, and with any instructions. -/
def ClassText.HasOwnLayout (text : ClassText) (p : Program) : Prop :=
  ∃ layout instructions, Layout.ofClass p text.subject = .ok layout ∧
    text.layout = layout.addInstructions instructions

/-- The texts that an operation indexes come with their own layouts. -/
def Operation.UsesOwnLayout (p : Program) : Operation → Prop
  | addClass _ _ _ _ => False
  | add text | refresh text => text.HasOwnLayout p
  | retract _ | clear => True

/-- The declaration around a usage lies in the class that the pass is over, if all lines of the text
do so. -/
theorem Pass.Reads.declaredIn_within {pass : Pass} {position : Position} {target : Handle}
    {c : Contribution} (h : pass.Reads position target c)
    (hsubject : pass.program.topLevelSymbol pass.subject = .ok pass.unit)
    (hlocator : ∀ line h, pass.locator.declarationAt line = some h →
      pass.program.topLevelClass h = .ok pass.subject) :
    ∀ f ∈ c.filings, pass.program.DeclaredIn f.record.within pass.unit := by
  have hrecord : ∀ {text r}, pass.RecordedAs position text r →
      pass.program.DeclaredIn r.within pass.unit := by
    intro text r hr
    refine ⟨_, pass.subject, hr.within, ?_, Program.symbol_of_topLevelSymbol hsubject⟩
    cases hat : pass.locator.declarationAt position.line with
    | none => exact Program.topLevelClass_of_topLevelSymbol hsubject
    | some around => exact hlocator position.line around hat
  cases h with
  | declaration | missing | importLine => simp [Contribution.filings]
  | usage _ _ _ _ _ _ _ _ hr => simpa [Contribution.filings] using hrecord hr
  | construction _ _ _ _ _ _ _ _ _ _ hr => simpa [Contribution.filings] using hrecord hr

namespace Index

open Sample

variable {i : Index} {p : Program} {s unit : Symbol}

/-! ## The sweep through the program -/

/-- What the sweep leaves of a bucket: nothing if its target lies in the class, else the usages from
outside the class. -/
def sweepBucketInside (p : Program) (unit target : Symbol) (bucket : Bucket) : Option Bucket :=
  if p.DeclaredIn target unit then none
  else some { bucket with records := bucket.records.filter fun r => ¬ p.DeclaredIn r.within unit }

/-- Removes every usage from inside a class and every bucket of a declaration inside it, as the
program says what lies inside. -/
def sweepInside (i : Index) (p : Program) (unit : Symbol) : Index :=
  { i with
    buckets := i.buckets.filterMap (sweepBucketInside p unit)
    units := i.units.erase unit }

theorem query_sweepInside (i : Index) (p : Program) (unit s : Symbol) :
    (i.sweepInside p unit).query s =
      if p.DeclaredIn s unit then []
      else (i.query s).filter fun r => ¬ p.DeclaredIn r.within unit := by
  rw [query, sweepInside, OrderedMap.get?_filterMap, query]
  cases i.buckets.get? s with
  | none => simp
  | some bucket =>
    rw [Option.bind_some, sweepBucketInside]
    by_cases hinside : p.DeclaredIn s unit
    · rw [if_pos hinside, if_pos hinside]
    · rw [if_neg hinside, if_neg hinside]

/-! ## Where usages lie -/

/-- Each usage lies in a declaration inside the class that made it. -/
def PlacedInside (i : Index) (p : Program) : Prop :=
  ∀ ⦃s r⦄, r ∈ i.query s → p.DeclaredIn r.within r.unit

theorem placedInside_empty (settings : UsageSettings) : (empty settings).PlacedInside p :=
  fun _ _ hr => absurd hr List.not_mem_nil

theorem PlacedInside.add (hi : i.PlacedInside p) (hp : p.Reachable) (hsize : p.size ≤ UInt32.size)
    {text : ClassText} (htext : text.HasOwnLayout p) : (i.add p text).1.PlacedInside p := by
  intro s r hr
  rw [query_add, List.mem_append] at hr
  rcases hr with hold | hnew
  · exact hi hold
  · obtain ⟨f, hf, -, rfl⟩ := mem_recordsFor.1 hnew
    obtain ⟨unit, hunit, e, -, c, hreads, hmem⟩ :=
      exists_reads_of_mem_filingsOf p text.subject text.occurrences text.lines
        text.layout.locator hf
    rw [hreads.unit_eq f hmem]
    obtain ⟨layout, instructions, hlayout, hown⟩ := htext
    have hinside : layout.Inside p text.subject :=
      Layout.inside_ofClass hp hsize (Program.topLevelClass_of_topLevelSymbol hunit) hlayout
    refine hreads.declaredIn_within hunit (fun line h hat => ?_) f hmem
    -- Instructions have no part in which declaration a line belongs to.
    rw [hown] at hat
    exact hinside.topLevelClass_of_declarationAt hat

theorem PlacedInside.retract (hi : i.PlacedInside p) (unit : Symbol) :
    (i.retract unit).1.PlacedInside p := by
  intro s r hr
  rw [query_retract] at hr
  split at hr
  · exact absurd hr List.not_mem_nil
  · exact hi (List.mem_of_mem_filter hr)

theorem PlacedInside.perform (hi : i.PlacedInside p) (hp : p.Reachable)
    (hsize : p.size ≤ UInt32.size) {o : Operation} (ho : o.UsesOwnLayout p) :
    (i.perform p o).1.PlacedInside p := by
  cases o with
  | addClass => exact ho.elim
  | add text => exact hi.add hp hsize ho
  | refresh text =>
    have hswept : (i.retractHandle p text.subject).1.PlacedInside p := by
      rw [retractHandle]
      split
      · exact hi.retract _
      · exact hi
    exact hswept.add hp hsize ho
  | retract unit => exact hi.retract unit
  | clear => exact placedInside_empty _

theorem PlacedInside.after (hi : i.PlacedInside p) (hp : p.Reachable) (hsize : p.size ≤ UInt32.size)
    {operations : List Operation} (hoperations : ∀ o ∈ operations, o.UsesOwnLayout p) :
    (i.after p operations).PlacedInside p := by
  induction operations generalizing i with
  | nil => exact hi
  | cons o rest ih =>
    obtain ⟨ho, hrest⟩ := List.forall_mem_cons.1 hoperations
    exact ih (hi.perform hp hsize ho) hrest

/-! ## Both sweeps -/

/-- An index that texts with their own layouts lead to, among retractions and clearings. -/
def ReachableByOwnLayouts (i : Index) (p : Program) : Prop :=
  ∃ operations, (∀ o ∈ operations, o.UsesOwnLayout p) ∧ i = (empty i.settings).after p operations

/-- If texts come with their own layouts, a retraction leaves the same usages of every declaration
as the sweep through the program, which removes what lies in a declaration of the class and drops
the buckets of its declarations. Every declaration has to have a handle of its own: once handles
have run out, the last one stands for several declarations, so that a layout may place what the
program puts into another class. -/
theorem query_retract_eq_sweepInside (hp : p.Reachable) (hsize : p.size ≤ UInt32.size)
    (hnames : p.ClassNamesDistinct) (hi : i.ReachableByOwnLayouts p) (unit s : Symbol) :
    (i.retract unit).1.query s = (i.sweepInside p unit).query s := by
  obtain ⟨operations, hoperations, hi⟩ := hi
  have howners : i.OwnersDeclared p := by
    rw [hi]
    exact (ownersDeclared_empty i.settings).after hp.sound operations
  have hplaced : i.PlacedInside p := by
    rw [hi]
    exact (placedInside_empty i.settings).after hp hsize hoperations
  rw [query_retract, query_sweepInside]
  by_cases hinside : p.DeclaredIn s unit
  · -- Whoever opened the bucket, its owner is the class in which the target is declared.
    rw [if_pos hinside]
    cases howner : i.bucketOwner? s with
    | none =>
      rw [query_eq_nil_of_bucketOwner?_eq_none howner]
      simp
    | some owner => rw [(howners howner).unique hp.sound hnames hinside, if_pos rfl]
  · rw [if_neg hinside, if_neg fun howner => hinside (howners howner)]
    refine List.filter_congr fun r hr => ?_
    have hwithin : r.unit = unit ↔ p.DeclaredIn r.within unit :=
      ⟨fun h => h ▸ hplaced hr, (hplaced hr).unique hp.sound hnames⟩
    exact decide_eq_decide.2 (not_congr hwithin)

/-- Two uses of the constructor of a nested class, the first one inside the outer class: after
retracting the other user, that one is left. -/
theorem query_retract_eq_sweepInside_nest :
    let index := (empty {}).after Nest.program [.refresh Nest.shopText, .add Nest.tillText]
    let constructor := Symbol.ofMethod "demo.Shop$Item" "<init>" "()V"
    (index.query constructor).length = 2 ∧
      ((index.retract (.ofClass "demo.Till")).1.query constructor).length = 1 ∧
      ∀ unit s, (index.retract unit).1.query s = (index.sweepInside Nest.program unit).query s := by
  intro index constructor
  have hprogram : Nest.program.Reachable := ⟨_, rfl⟩
  have hshop : Nest.shopText.HasOwnLayout Nest.program :=
    ⟨Nest.shopText.layout, [], by decide +kernel, by decide +kernel⟩
  have htill : Nest.tillText.HasOwnLayout Nest.program :=
    ⟨Nest.tillText.layout, [], by decide +kernel, by decide +kernel⟩
  have hindex : index.ReachableByOwnLayouts Nest.program := by
    refine ⟨[.refresh Nest.shopText, .add Nest.tillText], ?_, ?_⟩
    · simp [Operation.UsesOwnLayout, hshop, htill]
    · rw [after_settings]
      rfl
  exact ⟨by decide +kernel, by decide +kernel,
    query_retract_eq_sweepInside hprogram (by decide +kernel) (by decide +kernel) hindex⟩

end Index

end CrossReference
