import CrossReference.Batch.Progress
import CrossReference.Proofs.BatchRefresh
import CrossReference.Proofs.Interleaving

/-!
# Batches in any order

The texts of a batch are given in some order, and passes over them may run at one time. Neither
shows in the index but in the order of the records of a bucket (`Index.SameUpToOrder`): a batch
makes the appends of its passes, which may be made in any order, and lists the classes of its
passes, which form a set. How a class goes depends on its text and the settings alone, so each one
is reported as if it stood alone, and a progress bar counts the same whoever ends first. In a
buffered index a pass that is given up does nothing (`Index.runBatch_of_perm`).
-/

namespace CrossReference

/-! ## Progress -/

namespace ProgressBar

theorem applyAll_append (bar : ProgressBar) (events later : List ProgressEvent) :
    bar.applyAll (events ++ later) = (bar.applyAll events).applyAll later := List.foldl_append

/-- Classes that are done leave the length of the bar alone. -/
theorem applyAll_classDone (bar : ProgressBar) (reports : List ClassReport) :
    let ended := bar.applyAll (reports.map fun c => .classDone c.subject c.outcome)
    ended.length = bar.length ∧
      ended.failed = bar.failed + (reports.filter (·.outcome.isFailed)).length := by
  induction reports generalizing bar with
  | nil => exact ⟨rfl, rfl⟩
  | cons c rest ih =>
    obtain ⟨hlength, hfailed⟩ := ih (bar.apply (.classDone c.subject c.outcome))
    refine ⟨hlength, hfailed.trans ?_⟩
    rw [List.filter_cons, apply]
    by_cases hc : c.outcome.isFailed = true
    · simp [hc, Nat.add_assoc, Nat.add_comm 1]
    · simp [hc]

/-- Whatever it showed before, at the end of a batch the bar shows the number of its classes, and
has counted the failed ones. -/
theorem applyAll_progress (bar : ProgressBar) (r : BatchReport) (task : BatchTask) :
    let ended := bar.applyAll (r.progress task)
    ended.position = UInt64.ofNat r.reports.length ∧ ended.failed = r.failures.length := by
  intro ended
  let announced := bar.apply (.started task.title (UInt64.ofNat r.reports.length))
  let counted := announced.applyAll (r.reports.map fun c => .classDone c.subject c.outcome)
  have hended : ended = counted.apply (.finished r.failures.length) := applyAll_append announced _ _
  obtain ⟨hlength, hfailed⟩ := announced.applyAll_classDone r.reports
  rw [hended]
  constructor
  · have hto : counted.length = some (UInt64.ofNat r.reports.length) := hlength
    show counted.length.getD counted.position = _
    rw [hto, Option.getD_some]
  · exact hfailed.trans (Nat.zero_add _)

end ProgressBar

/-! ## Outcomes and listed classes -/

/-- How indexing the text goes on its own. -/
def ClassText.outcome (text : ClassText) (settings : UsageSettings) (p : Program) : Outcome :=
  ((Index.empty settings).add p text).2

/-- The class that indexing the text adds to the list of indexed classes: none if it is no top-level
class, or if the pass is given up and has left nothing behind. -/
def ClassText.listing (text : ClassText) (settings : UsageSettings) (p : Program) : Option Symbol :=
  match p.topLevelSymbol text.subject with
  | .error _ => none
  | .ok unit =>
    if (text.outcome settings p).isFailed = true ∧ text.filings settings p = [] then none
    else some unit

/-- Keys may be inserted into a set in any order. -/
theorem OrderedMap.insert_comm {κ : Type} [Ord κ] [Std.TransOrd κ] [Std.LawfulEqOrd κ]
    [DecidableEq κ] (keys : OrderedSet κ) (a b : κ) :
    (keys.insert a ()).insert b () = (keys.insert b ()).insert a () := by
  refine ext_get? fun key => ?_
  simp only [get?_insert]
  by_cases ha : key = a <;> by_cases hb : key = b <;> simp [ha, hb]

namespace Index

variable {i j : Index} {p : Program}

/-- The list of indexed classes after passes over some texts have ended one after another. -/
def listAll (i : Index) (p : Program) (texts : List ClassText) : OrderedSet Symbol :=
  (texts.filterMap (·.listing i.settings p)).foldl (fun units unit => units.insert unit ()) i.units

/-- How a text goes does not depend on what the index holds. -/
theorem add_outcome (i : Index) (p : Program) (text : ClassText) :
    (i.add p text).2 = text.outcome i.settings p :=
  addClass_outcome_congr i p _ _ _ _ rfl

theorem add_units (i : Index) (p : Program) (text : ClassText) :
    (i.add p text).1.units = i.listAll p [text] := by
  rw [listAll, List.filterMap_cons, ClassText.listing]
  cases hunit : p.topLevelSymbol text.subject with
  | error cause =>
    rw [add, addClass_of_unresolved _ _ _ _ _ _ hunit]
    rfl
  | ok unit =>
    have hunits : (i.add p text).1.units =
        if (i.add p text).2.isFailed = true ∧ text.filings i.settings p = [] then i.units
        else i.units.insert unit () := addClass_units i p _ _ _ _ hunit
    rw [hunits, add_outcome]
    by_cases hnothing : (text.outcome i.settings p).isFailed = true ∧
        text.filings i.settings p = []
    · simp only [if_pos hnothing, List.filterMap_nil, List.foldl_nil]
    · simp only [if_neg hnothing, List.filterMap_nil, List.foldl_cons, List.foldl_nil]

theorem units_after_adds (i : Index) (p : Program) (texts : List ClassText) :
    (i.after p (texts.map .add)).units = i.listAll p texts := by
  induction texts generalizing i with
  | nil => rfl
  | cons text rest ih =>
    have hrest : (i.after p ((text :: rest).map .add)).units = (i.add p text).1.listAll p rest :=
      ih (i.add p text).1
    rw [hrest, listAll, add_units, add_settings, listAll, listAll, ← List.foldl_append,
      ← List.filterMap_append]
    rfl

theorem listAll_of_perm (i : Index) (p : Program) {texts order : List ClassText}
    (hperm : order.Perm texts) : i.listAll p order = i.listAll p texts :=
  (hperm.filterMap _).foldl_eq' (fun a _ b _ keys => keys.insert_comm a b) _

/-! ## The same index up to order -/

/-- The two indexes differ at most in the order in which records of one declaration were filed. -/
structure SameUpToOrder (i j : Index) : Prop where
  keys : i.buckets.keys = j.buckets.keys
  owner : ∀ s, i.bucketOwner? s = j.bucketOwner? s
  recordCount : i.recordCount = j.recordCount
  query : ∀ s, (i.query s).Perm (j.query s)
  units : i.units = j.units

theorem appendAll_buckets_congr (h : i.buckets = j.buckets) (appends : List Group) :
    (i.appendAll appends).buckets = (j.appendAll appends).buckets := by
  induction appends generalizing i j with
  | nil => exact h
  | cons g rest ih =>
    refine ih ?_
    rw [appendGroup, appendGroup, append, append, h]

/-- A batch makes the appends of its passes one after another. -/
theorem buckets_after_adds (i : Index) (p : Program) (texts : List ClassText) :
    (i.after p (texts.map .add)).buckets =
      (i.appendAll (texts.flatMap (·.passInput.appends i.settings p))).buckets := by
  induction texts generalizing i with
  | nil => rfl
  | cons text rest ih =>
    have hrest : (i.after p ((text :: rest).map .add)).buckets = _ := ih (i.add p text).1
    have hfirst : (i.add p text).1.buckets =
        (i.appendAll (text.passInput.appends i.settings p)).buckets :=
      text.passInput.buckets_addClass i p
    rw [hrest, add_settings, List.flatMap_cons, appendAll_buckets_congr hfirst]
    exact congrArg Index.buckets List.foldl_append.symm

theorem declaredIn_of_mem_appends (hp : p.Sound) {settings : UsageSettings} {texts : List ClassText}
    {g : Group} (hg : g ∈ texts.flatMap (·.passInput.appends settings p)) :
    p.DeclaredIn g.target g.owner := by
  obtain ⟨text, -, hg⟩ := List.mem_flatMap.1 hg
  exact (text.passInput.owns_appends settings hp g hg).1

/-- Two indexes come from one by the same appends in different orders, and list the same classes. -/
theorem sameUpToOrder_of_appends (hp : p.Sound) (hnames : p.ClassNamesDistinct)
    {made made' : List Group} {k k' : Index}
    (hmade : ∀ g ∈ made, p.DeclaredIn g.target g.owner) (hperm : made.Perm made')
    (hk : k.buckets = (i.appendAll made).buckets) (hk' : k'.buckets = (i.appendAll made').buckets)
    (hunits : k.units = k'.units) : k.SameUpToOrder k' := by
  obtain ⟨hkeys, howner, hcount, hquery⟩ := appendAll_of_perm hp hnames i hmade hperm
  refine ⟨?_, fun s => ?_, ?_, fun s => ?_, hunits⟩
  · rw [hk, hk', hkeys]
  · rw [bucketOwner?_congr hk, bucketOwner?_congr hk', howner]
  · rw [Index.recordCount, Index.recordCount, hk, hk']
    exact hcount
  · rw [query_congr hk, query_congr hk']
    exact hquery s

/-! ## Passes at one time -/

/-- The index after passes over texts that run at one time: they make their appends in turns, and
list their classes in the order in which they end. -/
def afterTurns (i : Index) (p : Program) (texts : List ClassText) (turns : List Nat)
    (ended : List ClassText) : Index :=
  { ((Race.start i p (texts.map (·.passInput))).after (turns.map .append)).index with
    units := i.listAll p ended }

/-- Passes that run at one time make the appends of all of them, in some order. -/
theorem exists_buckets_afterTurns {texts : List ClassText} {turns : List Nat}
    (ended : List ClassText)
    (hdone : ((Race.start i p (texts.map (·.passInput))).after (turns.map .append)).Done) :
    ∃ made, (i.afterTurns p texts turns ended).buckets = (i.appendAll made).buckets ∧
      made.Perm (texts.flatMap (·.passInput.appends i.settings p)) := by
  have hturns : ∀ swept, Turn.retract swept ∉ turns.map Turn.append := fun swept hmem => by
    obtain ⟨number, -, heq⟩ := List.mem_map.1 hmem
    cases heq
  obtain ⟨made, hmade, hperm⟩ := hdone.exists_made hturns
  have hwaiting : (Race.start i p (texts.map (·.passInput))).waiting.flatten =
      texts.flatMap (·.passInput.appends i.settings p) := by
    rw [Race.start, List.map_map]
    rfl
  refine ⟨made, ?_, hwaiting ▸ hperm⟩
  rw [afterTurns, hmade]
  rfl

theorem sameUpToOrder_afterTurns (hp : p.Sound) (hnames : p.ClassNamesDistinct) (i : Index)
    {texts ended : List ClassText} (hended : ended.Perm texts) {turns : List Nat}
    (hdone : ((Race.start i p (texts.map (·.passInput))).after (turns.map .append)).Done) :
    (i.afterTurns p texts turns ended).SameUpToOrder (i.after p (texts.map .add)) := by
  obtain ⟨made, hbuckets, hperm⟩ := exists_buckets_afterTurns ended hdone
  have hdeclared : ∀ g ∈ made, p.DeclaredIn g.target g.owner := fun g hg =>
    declaredIn_of_mem_appends hp (hperm.mem_iff.1 hg)
  refine sameUpToOrder_of_appends hp hnames hdeclared hperm hbuckets
    (buckets_after_adds i p texts) ?_
  rw [units_after_adds]
  exact listAll_of_perm i p hended

/-! ## Batches -/

theorem reports_runBatch (i : Index) (p : Program) (texts : List ClassText) :
    (i.runBatch .index p texts).2.reports =
      texts.map fun text => ⟨text.subject, text.outcome i.settings p⟩ := by
  show (i.processAll .index p texts).2 = _
  induction texts generalizing i with
  | nil => rfl
  | cons text rest ih =>
    have hrest := ih (i.add p text).1
    rw [add_settings] at hrest
    rw [List.map_cons, ← hrest, ← add_outcome]
    rfl

theorem sameUpToOrder_after_adds (hp : p.Sound) (hnames : p.ClassNamesDistinct) (i : Index)
    {texts order : List ClassText} (hperm : order.Perm texts) :
    (i.after p (order.map .add)).SameUpToOrder (i.after p (texts.map .add)) := by
  refine sameUpToOrder_of_appends hp hnames (fun g hg => declaredIn_of_mem_appends hp hg)
    (hperm.flatMap_right _) (buckets_after_adds i p order) (buckets_after_adds i p texts) ?_
  rw [units_after_adds, units_after_adds]
  exact listAll_of_perm i p hperm

/-- A pass that is given up leaves a buffered index as it was. -/
theorem add_of_failed_buffered {text : ClassText} (hbuffered : i.settings.publication = .buffered)
    (hfailed : (text.outcome i.settings p).isFailed = true) : (i.add p text).1 = i := by
  rw [← add_outcome] at hfailed
  cases hunit : p.topLevelSymbol text.subject with
  | error cause => rw [add, addClass_of_unresolved _ _ _ _ _ _ hunit]
  | ok unit =>
    rw [add, addClass_of_resolved _ _ _ _ _ _ hunit] at hfailed ⊢
    rw [conclude_isFailed] at hfailed
    obtain ⟨cause, hcause⟩ := Option.isSome_iff_exists.1 hfailed
    rw [conclude_of_failure_buffered i unit hcause hbuffered]

theorem after_adds_of_buffered (hbuffered : i.settings.publication = .buffered) (p : Program)
    (texts : List ClassText) :
    i.after p (texts.map .add) =
      i.after p ((texts.filter fun text => !(text.outcome i.settings p).isFailed).map .add) := by
  induction texts generalizing i with
  | nil => rfl
  | cons text rest ih =>
    have hrest := ih (i := (i.add p text).1) (by rw [add_settings, hbuffered])
    rw [add_settings] at hrest
    have hcons : i.after p ((text :: rest).map .add) =
        (i.add p text).1.after p (rest.map .add) := rfl
    rw [hcons, hrest]
    by_cases hfailed : (text.outcome i.settings p).isFailed = true
    · rw [List.filter_cons_of_neg (by simp [hfailed]), add_of_failed_buffered hbuffered hfailed]
    · rw [List.filter_cons_of_pos (by simp [hfailed])]
      rfl

/-- Let class names be distinct, and some texts be indexed in a batch, in whatever index; texts may
stand in it more than once, and need not be texts of top-level classes.

The index that a batch of the same texts in another order leaves differs at most in the order of
records, and so does the index that the passes leave if they run at one time. In every order the
batch reports each text in its turn, as it would go on its own. A buffered index is what the texts
leave that do not fail. Whichever class ends first, a progress bar ends at the number of texts and
has counted those that failed. -/
theorem runBatch_of_perm (hprogram : p.Reachable) (hnames : p.ClassNamesDistinct) (i : Index)
    {texts order : List ClassText} (hperm : order.Perm texts) :
    let ended := i.runBatch .index p texts
    let reordered := i.runBatch .index p order
    let alone := fun text : ClassText => ((empty i.settings).add p text).2
    reordered.1.SameUpToOrder ended.1 ∧
    (∀ (turns : List Nat) (last : List ClassText), last.Perm texts →
      ((Race.start i p (texts.map (·.passInput))).after (turns.map .append)).Done →
      (i.afterTurns p texts turns last).SameUpToOrder ended.1) ∧
    (ended.2.reports = texts.map (fun text => ⟨text.subject, alone text⟩) ∧
      reordered.2.reports = order.map fun text => ⟨text.subject, alone text⟩) ∧
    (i.settings.publication = .buffered →
      ended.1 = (i.runBatch .index p (texts.filter fun text => !(alone text).isFailed)).1) ∧
    ∀ (bar : ProgressBar) (completed : BatchReport), completed.reports.Perm ended.2.reports →
      let final := bar.applyAll (completed.progress .index)
      final.position = UInt64.ofNat texts.length ∧ final.failed = ended.2.failures.length := by
  intro ended reordered alone
  have hended : ended.1 = i.after p (texts.map .add) := runBatch_fst .index texts
  have hreordered : reordered.1 = i.after p (order.map .add) := runBatch_fst .index order
  have hreports : ended.2.reports = texts.map fun text => ⟨text.subject, alone text⟩ :=
    reports_runBatch i p texts
  refine ⟨?_, fun turns last hlast hdone => ?_, ⟨hreports, reports_runBatch i p order⟩,
    fun hbuffered => ?_, fun bar completed hcompleted => ?_⟩
  · rw [hended, hreordered]
    exact sameUpToOrder_after_adds hprogram.sound hnames i hperm
  · rw [hended]
    exact sameUpToOrder_afterTurns hprogram.sound hnames i hlast hdone
  · rw [hended, runBatch_fst]
    exact after_adds_of_buffered hbuffered p texts
  · intro final
    obtain ⟨hposition, hfailed⟩ := bar.applyAll_progress completed .index
    have hlength : completed.reports.length = texts.length := by
      rw [hcompleted.length_eq, hreports, List.length_map]
    refine ⟨hposition.trans (congrArg UInt64.ofNat hlength), hfailed.trans ?_⟩
    exact (hcompleted.filter _).length_eq

open Sample in
/-- A batch in which a text stands twice, another one is given up behind its first usage, and a
third one is that of a nested class. The batch the other way round, and passes that take turns,
leave the same index up to the order of records, which differs; buffered, the two failing texts
might as well be left out. A bar that was in use counts five classes, two of them failed. -/
theorem runBatch_of_perm_nest :
    let broken : ClassText := { Nest.tillText with
      occurrences := .ofList [(⟨39, 3⟩, Nest.itemConstructor), (⟨50, 3⟩, ⟨9⟩)] }
    let nested : ClassText := { Nest.bagText with subject := Nest.item }
    let texts := [Nest.tillText, broken, nested, Nest.bagText, Nest.tillText]
    let item := Symbol.ofClass "demo.Shop$Item"
    let index := (empty { publication := .streaming }).after Nest.program [.add Nest.shopText]
    let ended := index.runBatch .index Nest.program texts
    let reordered := index.runBatch .index Nest.program texts.reverse
    let turns := [4, 0, 3, 1, 4, 0, 3, 1, 4, 0, 3, 3, 3]
    let final := (ProgressBar.mk 7 none 3).applyAll
      (BatchReport.progress ⟨ended.2.reports.reverse⟩ .index)
    let buffered := empty.after Nest.program [.add Nest.shopText]
    let kept := texts.filter fun text =>
      !((empty buffered.settings).add Nest.program text).2.isFailed
    reordered.1.query item ≠ ended.1.query item ∧ reordered.1.SameUpToOrder ended.1 ∧
      (index.afterTurns Nest.program texts turns texts.reverse).SameUpToOrder ended.1 ∧
      final.position = 5 ∧ final.failed = 2 ∧ kept.length = 3 ∧
      (buffered.runBatch .index Nest.program texts).1 =
        (buffered.runBatch .index Nest.program kept).1 := by
  intro broken nested texts item index ended reordered turns final buffered kept
  have hprogram : Nest.program.Reachable := ⟨_, rfl⟩
  have hnames : Nest.program.ClassNamesDistinct := by decide +kernel
  have hperm : texts.reverse.Perm texts := List.reverse_perm texts
  have hdone : ((Race.start index Nest.program (texts.map (·.passInput))).after
      (turns.map .append)).Done := by decide +kernel
  have hway : buffered.settings.publication = .buffered := by rw [after_settings]; rfl
  have hfailures : ended.2.failures.length = 2 := by decide +kernel
  obtain ⟨hreordered, hturns, -, -, hbar⟩ := runBatch_of_perm hprogram hnames index hperm
  obtain ⟨-, -, -, hleft, -⟩ := runBatch_of_perm hprogram hnames buffered hperm
  obtain ⟨hposition, hfailed⟩ := hbar ⟨7, none, 3⟩ ⟨ended.2.reports.reverse⟩ (List.reverse_perm _)
  exact ⟨by decide +kernel, hreordered, hturns turns _ hperm hdone, hposition,
    hfailed.trans hfailures, by decide +kernel, hleft hway⟩

end Index

end CrossReference
