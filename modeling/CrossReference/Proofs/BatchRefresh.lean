import CrossReference.Batch.Basic
import CrossReference.Proofs.Refresh
import CrossReference.Sample
import Mathlib.Data.List.Nodup

/-!
# Refreshing a batch

A refreshed batch retracts and indexes its classes one after another. Retracting a class drops what
others know of its declarations, and so what classes in front of it in the batch have just filed
there. What is known of a declaration afterwards therefore depends on where in the batch its class
stands (`Index.query_runBatch_refresh`), and the records that the batch leaves are those that its
classes file on their own, unless a class uses a declaration of a class behind it
(`Index.refreshLossless_iff`).
-/

namespace CrossReference

open Sample

/-- The operation that a batch carries out on each text. -/
def BatchTask.operation : BatchTask → ClassText → Operation
  | index => .add
  | refresh => .refresh

/-- The symbols of the top-level classes of a list of texts. -/
def Program.unitsOf (p : Program) (texts : List ClassText) : List Symbol :=
  texts.filterMap fun text => (p.topLevelSymbol text.subject).toOption

theorem Program.mem_unitsOf {p : Program} {texts : List ClassText} {unit : Symbol} :
    unit ∈ p.unitsOf texts ↔ ∃ text ∈ texts, p.topLevelSymbol text.subject = .ok unit := by
  rw [unitsOf, List.mem_filterMap]
  refine exists_congr fun text => and_congr_right fun _ => ?_
  cases p.topLevelSymbol text.subject <;> simp [Except.toOption]

theorem Program.unitsOf_cons {p : Program} {text : ClassText} {unit : Symbol}
    (hunit : p.topLevelSymbol text.subject = .ok unit) (texts : List ClassText) :
    p.unitsOf (text :: texts) = unit :: p.unitsOf texts := by
  simp [unitsOf, hunit, Except.toOption]

section

variable {p : Program} {texts : List ClassText} {units : List Symbol}
  (hunits : texts.map (fun text => p.topLevelSymbol text.subject) = units.map .ok)

include hunits

theorem Program.unitsOf_eq_of_map : p.unitsOf texts = units := by
  have htexts : p.unitsOf texts =
      (texts.map fun text => p.topLevelSymbol text.subject).filterMap Except.toOption := by
    rw [List.filterMap_map]
    rfl
  rw [htexts, hunits, List.filterMap_map]
  exact List.filterMap_some

theorem Program.exists_topLevelSymbol_of_map :
    ∀ text ∈ texts, ∃ unit, p.topLevelSymbol text.subject = .ok unit := by
  intro text htext
  have hmem : p.topLevelSymbol text.subject ∈ units.map .ok :=
    hunits ▸ List.mem_map.2 ⟨text, htext, rfl⟩
  obtain ⟨unit, -, hunit⟩ := List.mem_map.1 hmem
  exact ⟨unit, hunit.symm⟩

theorem Program.nodup_subjects_of_map (hdistinct : units.Nodup) :
    (texts.map (·.subject)).Nodup := by
  have hsymbols : ((texts.map (·.subject)).map p.topLevelSymbol).Nodup := by
    rw [List.map_map]
    exact hunits ▸ hdistinct.map fun _ _ => Except.ok.inj
  exact hsymbols.of_map

theorem Program.exists_text_of_map {k : Nat} {unit : Symbol} (hk : units[k]? = some unit) :
    ∃ text, texts[k]? = some text ∧ p.topLevelSymbol text.subject = .ok unit := by
  have hat := congrArg (·[k]?) hunits
  simpa [hk] using hat

end

theorem Program.not_mem_unitsOf {p : Program} (hnames : p.ClassNamesDistinct) {subject : Handle}
    {unit : Symbol} (hunit : p.topLevelSymbol subject = .ok unit) {texts : List ClassText}
    (hfresh : subject ∉ texts.map (·.subject)) : unit ∉ p.unitsOf texts := by
  intro hmem
  obtain ⟨other, hother, hsame⟩ := mem_unitsOf.1 hmem
  have hsubject : other.subject = subject := hnames.topLevelSymbol_injective hsame hunit
  exact hfresh (List.mem_map.2 ⟨other, hother, hsubject⟩)

/-- On its own, a text files a record of a declaration of the class of another text. -/
def ClassText.Uses (text other : ClassText) (settings : UsageSettings) (p : Program) : Prop :=
  ∃ unit s, p.topLevelSymbol other.subject = .ok unit ∧ p.DeclaredIn s unit ∧
    ((Index.empty settings).add p text).1.query s ≠ []

namespace Index

variable {i : Index} {p : Program}

/-- Retracting other classes leaves the records of a text alone. -/
theorem filter_recordsFor {text : ClassText} {unit : Symbol}
    (hunit : p.topLevelSymbol text.subject = .ok unit) {units : List Symbol} (h : unit ∉ units)
    (settings : UsageSettings) (s : Symbol) :
    (recordsFor s (text.filings settings p)).filter (·.unit ∉ units) =
      recordsFor s (text.filings settings p) := by
  refine List.filter_eq_self.2 fun r hr => decide_eq_true ?_
  rw [unit_eq_of_mem_recordsFor p text hunit hr]
  exact h

/-- A batch is a run of operations, one a text. -/
theorem runBatch_fst (task : BatchTask) (texts : List ClassText) :
    (i.runBatch task p texts).1 = i.after p (texts.map task.operation) := by
  rw [runBatch]
  induction texts generalizing i with
  | nil => rfl
  | cons text rest ih =>
    have hstep : (i.process task p text).1 = (i.perform p (task.operation text)).1 := by
      cases task <;> rfl
    rw [List.map_cons, after, List.foldl_cons, ← hstep]
    exact ih

/-! ## Refreshing one class -/

theorem refresh_fst {text : ClassText} {unit : Symbol}
    (hunit : p.topLevelSymbol text.subject = .ok unit) :
    (i.refresh p text).1 = ((i.retract unit).1.add p text).1 := by
  rw [refresh_of_resolved hunit]

@[simp] theorem refresh_settings (text : ClassText) :
    (i.refresh p text).1.settings = i.settings :=
  perform_settings i p (.refresh text)

/-- Of a declaration of the refreshed class only its own usages are known afterwards. -/
theorem query_refresh_of_declaredIn (hi : i.OwnersDeclared p) (hp : p.Sound)
    (hnames : p.ClassNamesDistinct) {text : ClassText} {unit s : Symbol}
    (hunit : p.topLevelSymbol text.subject = .ok unit) (hs : p.DeclaredIn s unit) :
    (i.refresh p text).1.query s = recordsFor s (text.filings i.settings p) := by
  rw [refresh_fst hunit, query_add, query_retract, retract_settings]
  cases howner : i.bucketOwner? s with
  | none => rw [query_eq_nil_of_bucketOwner?_eq_none howner]; simp
  | some owner =>
    -- The owner is settled by `s` alone, so the bucket goes with the class.
    obtain rfl : owner = unit := (hi howner).unique hp hnames hs
    rw [if_pos rfl, List.nil_append]

/-- Of any other declaration the usages by other classes stay. -/
theorem query_refresh_of_not_declaredIn (hi : i.OwnersDeclared p) {text : ClassText}
    {unit s : Symbol} (hunit : p.topLevelSymbol text.subject = .ok unit)
    (hs : ¬ p.DeclaredIn s unit) :
    (i.refresh p text).1.query s =
      (i.query s).filter (·.unit ≠ unit) ++ recordsFor s (text.filings i.settings p) := by
  have howner : i.bucketOwner? s ≠ some unit := fun h => hs (hi h)
  rw [refresh_fst hunit, query_add, query_retract, retract_settings, if_neg howner]

/-! ## Refreshing many classes -/

section Batch

variable (hi : i.OwnersDeclared p) (hp : p.Sound) (hnames : p.ClassNamesDistinct)

include hi hp hnames

/-- Texts of different top-level classes, none of which declares `s`: refreshing them drops their
earlier records of `s` and files the new ones in the order of the texts. -/
theorem query_after_refreshes_of_not_declaredIn {s : Symbol} {texts : List ClassText}
    (hdistinct : (texts.map (·.subject)).Nodup)
    (hunits : ∀ text ∈ texts, ∃ unit, p.topLevelSymbol text.subject = .ok unit)
    (hs : ∀ unit ∈ p.unitsOf texts, ¬ p.DeclaredIn s unit) :
    (i.after p (texts.map .refresh)).query s =
      (i.query s).filter (·.unit ∉ p.unitsOf texts) ++
        texts.flatMap fun text => recordsFor s (text.filings i.settings p) := by
  induction texts generalizing i with
  | nil => simp [Program.unitsOf, after]
  | cons text rest ih =>
    obtain ⟨hfresh, hrest⟩ := List.nodup_cons.1 hdistinct
    obtain ⟨unit, hunit⟩ := hunits text List.mem_cons_self
    have hcons := p.unitsOf_cons hunit rest
    have hnotin : ¬ p.DeclaredIn s unit := hs unit (hcons ▸ List.mem_cons_self)
    have hlater := ih (hi.refresh hp text) hrest
      (fun other hother => hunits other (List.mem_cons_of_mem _ hother))
      (fun other hother => hs other (hcons ▸ List.mem_cons_of_mem _ hother))
    rw [refresh_settings, query_refresh_of_not_declaredIn hi hunit hnotin] at hlater
    -- What this class has just filed is not touched when the others are retracted.
    have hkept := filter_recordsFor hunit (Program.not_mem_unitsOf hnames hunit hfresh) i.settings s
    have hold : ((i.query s).filter (·.unit ≠ unit)).filter (·.unit ∉ p.unitsOf rest) =
        (i.query s).filter (·.unit ∉ p.unitsOf (text :: rest)) := by
      rw [List.filter_filter, hcons]
      refine List.filter_congr fun r _ => ?_
      simp [Bool.and_comm]
    rw [List.filter_append, hkept, hold] at hlater
    rw [List.flatMap_cons, ← List.append_assoc]
    exact hlater

/-- If a text of the batch declares `s`, then of the texts in front of it no record of `s` is left,
and of the old records none either. -/
theorem query_after_refreshes_of_declaredIn {s unit : Symbol} {front behind : List ClassText}
    {text : ClassText} (hdistinct : ((front ++ text :: behind).map (·.subject)).Nodup)
    (hunits : ∀ other ∈ behind, ∃ unit, p.topLevelSymbol other.subject = .ok unit)
    (hunit : p.topLevelSymbol text.subject = .ok unit) (hs : p.DeclaredIn s unit) :
    (i.after p ((front ++ text :: behind).map .refresh)).query s =
      (text :: behind).flatMap fun text => recordsFor s (text.filings i.settings p) := by
  have hmiddle : (i.after p (front.map .refresh)).OwnersDeclared p := hi.after hp _
  rw [List.map_append, List.nodup_append] at hdistinct
  obtain ⟨hfresh, hbehind⟩ := List.nodup_cons.1 hdistinct.2.1
  have hunseen := Program.not_mem_unitsOf hnames hunit hfresh
  -- Up to `text` included only the records of `text` count; the texts behind add theirs.
  have hrefreshed := query_refresh_of_declaredIn hmiddle hp hnames hunit hs
  have hlater := query_after_refreshes_of_not_declaredIn (hmiddle.refresh hp text) hp hnames hbehind
    hunits fun other hother hother' => hunseen (hs.unique hp hnames hother' ▸ hother)
  have hkept := filter_recordsFor hunit hunseen i.settings s
  rw [refresh_settings, after_settings] at hlater
  rw [after_settings] at hrefreshed
  rw [hrefreshed, hkept] at hlater
  rw [List.map_append, after_append, List.flatMap_cons]
  exact hlater

end Batch

theorem query_add_empty (settings : UsageSettings) (text : ClassText) (s : Symbol) :
    ((empty settings).add p text).1.query s = recordsFor s (text.filings settings p) :=
  query_add (empty settings) p text s

/-- What a refreshed batch of different classes leaves of each declaration. If a class of the
batch declares it, the usages that this class and those behind it file on their own, in the
order of the batch; else the earlier usages from outside the batch, and then those that all of
its classes file. -/
theorem query_runBatch_refresh (hprogram : p.Reachable) (hnames : p.ClassNamesDistinct)
    (hreachable : i.Reachable p) (texts : List ClassText) (units : List Symbol)
    (hunits : texts.map (fun text => p.topLevelSymbol text.subject) = units.map .ok)
    (hdistinct : units.Nodup) (s : Symbol) :
    (∀ (k : Nat) (unit : Symbol), units[k]? = some unit → p.DeclaredIn s unit →
      (i.runBatch .refresh p texts).1.query s =
        (texts.drop k).flatMap fun text => ((empty i.settings).add p text).1.query s) ∧
    ((∀ unit ∈ units, ¬ p.DeclaredIn s unit) →
      (i.runBatch .refresh p texts).1.query s =
        (i.query s).filter (·.unit ∉ units) ++
          texts.flatMap fun text => ((empty i.settings).add p text).1.query s) := by
  have hp : p.Sound := hprogram.sound
  have howners : i.OwnersDeclared p := hreachable.ownersDeclared hp
  have hresolved := Program.exists_topLevelSymbol_of_map hunits
  have hsubjects := Program.nodup_subjects_of_map hunits hdistinct
  simp only [query_add_empty, runBatch_fst]
  refine ⟨fun k unit hk hs => ?_, fun hs => ?_⟩
  · obtain ⟨text, htext, hunit⟩ := Program.exists_text_of_map hunits hk
    obtain ⟨hlt, rfl⟩ := List.getElem?_eq_some_iff.1 htext
    -- The class stands behind the first `k` texts, of which nothing is left.
    have hsplit : texts = texts.take k ++ texts[k] :: texts.drop (k + 1) := by
      rw [← List.drop_eq_getElem_cons hlt, List.take_append_drop]
    have hquery := query_after_refreshes_of_declaredIn howners hp hnames (hsplit ▸ hsubjects)
      (fun other hother => hresolved other (List.mem_of_mem_drop hother)) hunit hs
    rw [← hsplit, ← List.drop_eq_getElem_cons hlt] at hquery
    exact hquery
  · rw [← Program.unitsOf_eq_of_map hunits] at hs ⊢
    exact query_after_refreshes_of_not_declaredIn howners hp hnames hsubjects hresolved hs

/-- A streamed batch whose first class is given up behind its use of the constructor of a nested
class: refreshing the class around the constructor afterwards leaves the use in there; a batch of
the first class alone leaves that use as well and files its own behind it. -/
theorem query_runBatch_refresh_nest :
    let broken : ClassText := { Nest.tillText with
      occurrences := .ofList [(⟨39, 3⟩, Nest.itemConstructor), (⟨50, 3⟩, ⟨9⟩)] }
    let index := (empty { publication := .streaming }).after Nest.program
      [.add Nest.tillText, .add Nest.shopText]
    let constructor := Symbol.ofMethod "demo.Shop$Item" "<init>" "()V"
    let filed := fun text => ((empty index.settings).add Nest.program text).1.query constructor
    (filed broken).length = 1 ∧ (filed Nest.shopText).length = 1 ∧
      (index.runBatch .refresh Nest.program [broken, Nest.shopText]).1.query constructor =
        filed Nest.shopText ∧
      (index.runBatch .refresh Nest.program [broken]).1.query constructor =
        filed Nest.shopText ++ filed broken := by
  intro broken index constructor filed
  have hprogram : Nest.program.Reachable := ⟨_, rfl⟩
  have hnames : Nest.program.ClassNamesDistinct := by decide +kernel
  have hindex : index.Reachable Nest.program := reachable_after Nest.program _ _
  have hinside : Nest.program.DeclaredIn constructor (.ofClass "demo.Shop") := by decide +kernel
  have houtside : ¬ Nest.program.DeclaredIn constructor (.ofClass "demo.Till") := by decide +kernel
  have hold : (index.query constructor).filter (·.unit ∉ [Symbol.ofClass "demo.Till"]) =
      filed Nest.shopText := by decide +kernel
  have hboth := (query_runBatch_refresh hprogram hnames hindex [broken, Nest.shopText]
    [.ofClass "demo.Till", .ofClass "demo.Shop"] (by decide +kernel) (by decide) constructor).1
  have hfirst := (query_runBatch_refresh hprogram hnames hindex [broken] [.ofClass "demo.Till"]
    (by decide +kernel) (by decide) constructor).2
  refine ⟨by decide +kernel, by decide +kernel, ?_, ?_⟩
  · simpa using hboth 1 _ rfl hinside
  · rw [hfirst (by simpa using houtside), hold, List.flatMap_singleton]

/-! ## What a batch leaves of its own records -/

/-- The records of a declaration that are from the classes of a batch, after the batch. -/
def batchRecords (i : Index) (task : BatchTask) (p : Program) (texts : List ClassText)
    (s : Symbol) : List UsageRecord :=
  ((i.runBatch task p texts).1.query s).filter (·.unit ∈ p.unitsOf texts)

/-- Of each declaration, the refreshed batch leaves the records that indexing the batch files in an
empty index. -/
def RefreshLossless (i : Index) (p : Program) (texts : List ClassText) : Prop :=
  ∀ s, (i.batchRecords .refresh p texts s).Perm
    (((empty i.settings).runBatch .index p texts).1.query s)

/-- The refreshed batch leaves the same records in whichever order its texts come. -/
def RefreshOrderFree (i : Index) (p : Program) (texts : List ClassText) : Prop :=
  ∀ order : List ClassText, order.Perm texts →
    ∀ s, (i.batchRecords .refresh p order s).Perm (i.batchRecords .refresh p texts s)

theorem query_index_empty (settings : UsageSettings) (texts : List ClassText) (s : Symbol) :
    ((empty settings).runBatch .index p texts).1.query s =
      texts.flatMap fun text => recordsFor s (text.filings settings p) := by
  rw [runBatch_fst]
  exact query_after_adds (empty settings) p texts s

theorem recordsFor_eq_nil_of_not_uses {text other : ClassText} {settings : UsageSettings}
    {unit s : Symbol} (h : ¬ text.Uses other settings p)
    (hunit : p.topLevelSymbol other.subject = .ok unit) (hs : p.DeclaredIn s unit) :
    recordsFor s (text.filings settings p) = [] := by
  by_contra hrecords
  rw [← query_add_empty] at hrecords
  exact h ⟨unit, s, hunit, hs, hrecords⟩

theorem filter_flatMap_recordsFor (settings : UsageSettings) {texts within : List ClassText}
    (h : texts ⊆ within) (s : Symbol) :
    (texts.flatMap fun text => recordsFor s (text.filings settings p)).filter
        (·.unit ∈ p.unitsOf within) =
      texts.flatMap fun text => recordsFor s (text.filings settings p) := by
  refine List.filter_eq_self.2 fun r hr => decide_eq_true ?_
  obtain ⟨text, htext, hfiled⟩ := List.mem_flatMap.1 hr
  exact Program.mem_unitsOf.2 ⟨text, h htext, topLevelSymbol_of_mem_recordsFor p text hfiled⟩

section Batch

variable (hi : i.OwnersDeclared p) (hp : p.Sound) (hnames : p.ClassNamesDistinct)

include hi hp hnames

theorem batchRecords_refresh_of_not_declaredIn {s : Symbol} {texts : List ClassText}
    (hdistinct : (texts.map (·.subject)).Nodup)
    (hunits : ∀ text ∈ texts, ∃ unit, p.topLevelSymbol text.subject = .ok unit)
    (hs : ∀ unit ∈ p.unitsOf texts, ¬ p.DeclaredIn s unit) :
    i.batchRecords .refresh p texts s =
      texts.flatMap fun text => recordsFor s (text.filings i.settings p) := by
  have hquery := query_after_refreshes_of_not_declaredIn hi hp hnames hdistinct hunits hs
  -- None of the records that are left from before is from a class of the batch.
  have hold : ((i.query s).filter (·.unit ∉ p.unitsOf texts)).filter (·.unit ∈ p.unitsOf texts) =
      [] := by
    rw [List.filter_filter, List.filter_eq_nil_iff]
    intro r _
    simp
  have hnew : (texts.flatMap fun text => recordsFor s (text.filings i.settings p)).filter
      (·.unit ∈ p.unitsOf texts) = _ :=
    filter_flatMap_recordsFor i.settings (List.Subset.refl texts) s
  rw [batchRecords, runBatch_fst]
  show ((i.after p (texts.map .refresh)).query s).filter _ = _
  rw [hquery, List.filter_append, hold, hnew, List.nil_append]

theorem batchRecords_refresh_of_declaredIn {s unit : Symbol} {front behind : List ClassText}
    {text : ClassText} (hdistinct : ((front ++ text :: behind).map (·.subject)).Nodup)
    (hunits : ∀ other ∈ behind, ∃ unit, p.topLevelSymbol other.subject = .ok unit)
    (hunit : p.topLevelSymbol text.subject = .ok unit) (hs : p.DeclaredIn s unit) :
    i.batchRecords .refresh p (front ++ text :: behind) s =
      (text :: behind).flatMap fun text => recordsFor s (text.filings i.settings p) := by
  have hquery := query_after_refreshes_of_declaredIn hi hp hnames hdistinct hunits hunit hs
  have hnew := filter_flatMap_recordsFor (p := p) i.settings
    (List.subset_append_right front (text :: behind)) s
  rw [batchRecords, runBatch_fst]
  show ((i.after p ((front ++ text :: behind).map .refresh)).query s).filter _ = _
  rw [hquery, hnew]

/-- Nothing is lost if no text uses the class of a text behind it. -/
theorem refreshLossless_of_pairwise {texts : List ClassText}
    (hdistinct : (texts.map (·.subject)).Nodup)
    (hunits : ∀ text ∈ texts, ∃ unit, p.topLevelSymbol text.subject = .ok unit)
    (hfree : texts.Pairwise fun text later => ¬ text.Uses later i.settings p) :
    i.RefreshLossless p texts := by
  intro s
  rw [query_index_empty]
  by_cases hs : ∃ unit ∈ p.unitsOf texts, p.DeclaredIn s unit
  · obtain ⟨unit, hmem, hdeclared⟩ := hs
    obtain ⟨text, htext, hunit⟩ := Program.mem_unitsOf.1 hmem
    obtain ⟨front, behind, rfl⟩ := List.append_of_mem htext
    have hbehind : ∀ other ∈ behind, ∃ unit, p.topLevelSymbol other.subject = .ok unit :=
      fun other hother => hunits other
        (List.mem_append_right front (List.mem_cons_of_mem text hother))
    rw [batchRecords_refresh_of_declaredIn hi hp hnames hdistinct hbehind hunit hdeclared,
      List.flatMap_append]
    -- Retracting the class of `text` drops what is in front of it, which is nothing.
    have hfront : (front.flatMap fun other => recordsFor s (other.filings i.settings p)) = [] := by
      refine List.flatMap_eq_nil_iff.2 fun other hother => ?_
      have hother' := (List.pairwise_append.1 hfree).2.2 other hother text List.mem_cons_self
      exact recordsFor_eq_nil_of_not_uses hother' hunit hdeclared
    rw [hfront, List.nil_append]
  · have hs' : ∀ unit ∈ p.unitsOf texts, ¬ p.DeclaredIn s unit :=
      fun unit hunit hdeclared => hs ⟨unit, hunit, hdeclared⟩
    rw [batchRecords_refresh_of_not_declaredIn hi hp hnames hdistinct hunits hs']

/-- A text that uses the class of a text behind it loses that. -/
theorem RefreshLossless.pairwise {texts : List ClassText}
    (hlossless : i.RefreshLossless p texts) (hdistinct : (texts.map (·.subject)).Nodup)
    (hunits : ∀ text ∈ texts, ∃ unit, p.topLevelSymbol text.subject = .ok unit) :
    texts.Pairwise fun text later => ¬ text.Uses later i.settings p := by
  refine List.pairwise_iff_getElem.2 fun m n hm hn hmn => ?_
  rintro ⟨unit, s, hunit, hs, hused⟩
  have hsplit : texts.take n ++ texts[n] :: texts.drop (n + 1) = texts := by
    rw [List.getElem_cons_drop, List.take_append_drop]
  have hbehind : ∀ other ∈ texts.drop (n + 1), ∃ unit, p.topLevelSymbol other.subject = .ok unit :=
    fun other hother => hunits other (List.mem_of_mem_drop hother)
  have hkept :=
    batchRecords_refresh_of_declaredIn hi hp hnames (hsplit ▸ hdistinct) hbehind hunit hs
  have hlength := (hlossless s).length_eq
  rw [hsplit] at hkept
  rw [query_index_empty, hkept] at hlength
  -- The texts in front of `texts[n]` account for the difference, so they file nothing of `s`.
  have hnothing : ((texts.take n).flatMap fun text =>
      recordsFor s (text.filings i.settings p)).length = 0 := by
    have hall := congrArg
      (fun texts : List ClassText => (texts.flatMap fun text =>
        recordsFor s (text.filings i.settings p)).length) hsplit
    simp only [List.flatMap_append, List.length_append] at hall
    omega
  have hmem : texts[m] ∈ texts.take n := List.mem_take_iff_getElem.2 ⟨m, by omega, rfl⟩
  rw [query_add_empty] at hused
  exact hused (List.flatMap_eq_nil_iff.1 (List.length_eq_zero_iff.1 hnothing) texts[m] hmem)

/-- If the order does not matter, no text uses the class of another one. -/
theorem RefreshOrderFree.not_uses {texts : List ClassText} {text other : ClassText}
    (hfree : i.RefreshOrderFree p texts) (hdistinct : (texts.map (·.subject)).Nodup)
    (hunits : ∀ text ∈ texts, ∃ unit, p.topLevelSymbol text.subject = .ok unit)
    (htext : text ∈ texts) (hother : other ∈ texts) (hne : text ≠ other) :
    ¬ text.Uses other i.settings p := by
  rintro ⟨unit, s, hunit, hs, hused⟩
  obtain ⟨front, behind, rfl⟩ := List.append_of_mem hother
  -- The records of `s` stay if `other` comes first, and go if it comes last.
  have hfirst : (other :: (front ++ behind)).Perm (front ++ other :: behind) :=
    List.perm_middle.symm
  have hlast : ((front ++ behind) ++ [other]).Perm (front ++ other :: behind) :=
    (List.perm_append_singleton other (front ++ behind)).trans hfirst
  have hrest : ∀ another ∈ front ++ behind, ∃ unit, p.topLevelSymbol another.subject = .ok unit :=
    fun another hanother => hunits another (hfirst.mem_iff.1 (List.mem_cons_of_mem other hanother))
  have hkept := @batchRecords_refresh_of_declaredIn i p hi hp hnames s unit []
    (front ++ behind) other ((hfirst.map _).nodup_iff.2 hdistinct) hrest hunit hs
  have hdropped := @batchRecords_refresh_of_declaredIn i p hi hp hnames s unit (front ++ behind) []
    other ((hlast.map _).nodup_iff.2 hdistinct) (by simp) hunit hs
  have hlength := ((hfree _ hfirst s).trans (hfree _ hlast s).symm).length_eq
  rw [List.nil_append] at hkept
  rw [hkept, hdropped, List.flatMap_cons, List.flatMap_singleton, List.length_append] at hlength
  have hnothing : ((front ++ behind).flatMap fun text =>
      recordsFor s (text.filings i.settings p)).length = 0 := by omega
  have hmem : text ∈ front ++ behind := by
    rcases List.mem_cons.1 (hfirst.mem_iff.2 htext) with hsame | hmem
    · exact absurd hsame hne
    · exact hmem
  rw [query_add_empty] at hused
  exact hused (List.flatMap_eq_nil_iff.1 (List.length_eq_zero_iff.1 hnothing) text hmem)

/-- The order matters exactly if some text uses the class of another one. -/
theorem refreshOrderFree_iff_pairwise {texts : List ClassText}
    (hdistinct : (texts.map (·.subject)).Nodup)
    (hunits : ∀ text ∈ texts, ∃ unit, p.topLevelSymbol text.subject = .ok unit) :
    i.RefreshOrderFree p texts ↔ texts.Pairwise fun text other =>
      ¬ text.Uses other i.settings p ∧ ¬ other.Uses text i.settings p := by
  constructor
  · intro hfree
    have hnodup : texts.Nodup := List.Nodup.of_map _ hdistinct
    refine hnodup.pairwise_of_forall_ne fun text htext other hother hne => ?_
    exact ⟨hfree.not_uses hi hp hnames hdistinct hunits htext hother hne,
      hfree.not_uses hi hp hnames hdistinct hunits hother htext hne.symm⟩
  · intro hfree order hperm s
    -- Being free of uses either way does not depend on the order, so every order loses nothing.
    have hfree' : order.Pairwise fun text other =>
        ¬ text.Uses other i.settings p ∧ ¬ other.Uses text i.settings p :=
      (hperm.pairwise_iff fun h => ⟨h.2, h.1⟩).2 hfree
    have horder := refreshLossless_of_pairwise hi hp hnames ((hperm.map _).nodup_iff.2 hdistinct)
      (fun text htext => hunits text (hperm.mem_iff.1 htext)) (hfree'.imp fun h => h.1) s
    have htexts := refreshLossless_of_pairwise hi hp hnames hdistinct hunits
      (hfree.imp fun h => h.1) s
    have hindexed : (((empty i.settings).runBatch .index p order).1.query s).Perm
        (((empty i.settings).runBatch .index p texts).1.query s) := by
      rw [query_index_empty, query_index_empty]
      exact hperm.flatMap_right _
    exact (horder.trans hindexed).trans htexts.symm

end Batch

/-! ## When a batch loses nothing -/

/-- Refreshing a batch of different classes whose passes all come to their end (which does not
depend on what the index holds, `addClass_outcome_congr`) loses nothing exactly if no text uses the
class of a text behind it. Every order of the batch leaves the same records exactly if no text uses
the class of another one. -/
theorem refreshLossless_iff (hprogram : p.Reachable) (hnames : p.ClassNamesDistinct)
    (hreachable : i.Reachable p) (texts : List ClassText)
    (hdistinct : (texts.map (·.subject)).Nodup)
    (hdone : ∀ text ∈ texts, (i.add p text).2.isFailed = false) :
    (i.RefreshLossless p texts ↔
      texts.Pairwise fun text later => ¬ text.Uses later i.settings p) ∧
    (i.RefreshOrderFree p texts ↔
      texts.Pairwise fun text other =>
        ¬ text.Uses other i.settings p ∧ ¬ other.Uses text i.settings p) := by
  have hp : p.Sound := hprogram.sound
  have howners : i.OwnersDeclared p := hreachable.ownersDeclared hp
  have hunits : ∀ text ∈ texts, ∃ unit, p.topLevelSymbol text.subject = .ok unit :=
    fun text htext => exists_topLevelSymbol_of_done i p _ _ _ _ (hdone text htext)
  refine ⟨⟨fun hlossless => ?_, fun hfree => ?_⟩, ?_⟩
  · exact hlossless.pairwise howners hp hnames hdistinct hunits
  · exact refreshLossless_of_pairwise howners hp hnames hdistinct hunits hfree
  · exact refreshOrderFree_iff_pairwise howners hp hnames hdistinct hunits

/-- A class that is used in front of its user: nothing is lost, but the order matters. -/
theorem refreshLossless_pair :
    empty.RefreshLossless Pair.program [Pair.calleeText, Pair.clientText] ∧
      ¬ empty.RefreshOrderFree Pair.program [Pair.calleeText, Pair.clientText] := by
  obtain ⟨hlossless, horder⟩ := @refreshLossless_iff empty Pair.program ⟨_, rfl⟩
    (by decide) ⟨[], rfl⟩ [Pair.calleeText, Pair.clientText] (by decide) (by decide)
  have hunused : ¬ Pair.calleeText.Uses Pair.clientText {} Pair.program :=
    fun ⟨_, _, _, _, hfiled⟩ => hfiled rfl
  have hused : Pair.clientText.Uses Pair.calleeText {} Pair.program :=
    ⟨.ofClass "demo.Callee", .ofMethod "demo.Callee" "hit" "()V", rfl,
      ⟨Pair.calleeHit, Pair.callee, rfl, rfl, rfl⟩, by decide⟩
  refine ⟨hlossless.2 (List.pairwise_pair.2 hunused), fun hfree => ?_⟩
  exact (List.pairwise_pair.1 (horder.1 hfree)).2 hused

/-- The user in front of the class that it uses: its usage, which indexing the batch files and
which the other order keeps, is gone. -/
theorem not_refreshLossless_pair :
    let texts := [Pair.clientText, Pair.calleeText]
    Pair.program.Reachable ∧ Pair.program.ClassNamesDistinct ∧ empty.Reachable Pair.program ∧
      (texts.map (·.subject)).Nodup ∧
      (∀ text ∈ texts, (empty.add Pair.program text).2.isFailed = false) ∧
      ¬ empty.RefreshLossless Pair.program texts ∧
      ¬ empty.RefreshOrderFree Pair.program texts := by
  intro texts
  let hit := Symbol.ofMethod "demo.Callee" "hit" "()V"
  have hrefreshed : (empty.batchRecords .refresh Pair.program texts hit).length = 0 := by decide
  have hindexed : (((empty {}).runBatch .index Pair.program texts).1.query hit).length = 1 := by
    decide
  have hother : (empty.batchRecords .refresh Pair.program [Pair.calleeText, Pair.clientText]
      hit).length = 1 := by decide
  refine ⟨⟨_, rfl⟩, by decide, ⟨[], rfl⟩, by decide, by decide, fun hlossless => ?_,
    fun hfree => ?_⟩
  · have hlength : 0 = 1 := hrefreshed.symm.trans ((hlossless hit).length_eq.trans hindexed)
    omega
  · have hswapped := (hfree _ (List.Perm.swap Pair.clientText Pair.calleeText []) hit).length_eq
    have hlength : 1 = 0 := hother.symm.trans (hswapped.trans hrefreshed)
    omega

end Index

end CrossReference
