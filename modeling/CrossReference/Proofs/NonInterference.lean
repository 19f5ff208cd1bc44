import CrossReference.Proofs.Ownership

/-!
# Classes do not interfere

What an index knows of the usages by one class of a declaration inside another is decided by few
operations: passes over the first class, retractions of either, and clearing (`Operation.bearsOn`).
Two indexes that agree on these usages still agree after any operation
(`Index.usagesBy_perform_congr`), and an operation that does not bear on them leaves them as they
are (`Index.usagesBy_perform_of_not_bearsOn`), although it may open, shorten or drop the bucket that
holds them. So leaving such operations out of a run makes no difference
(`Index.usagesBy_after_filter`).
-/

namespace CrossReference

/-- Whether an operation can change which usages by the class `unit` are known of a declaration
inside the top-level class `owner`. -/
def Operation.bearsOn (p : Program) (owner unit : Symbol) : Operation → Bool
  | addClass subject _ _ _ => p.symbol subject = .ok unit
  | add text => p.symbol text.subject = .ok unit
  | refresh text => p.symbol text.subject = .ok unit ∨ p.symbol text.subject = .ok owner
  | retract swept => swept = unit ∨ swept = owner
  | clear => true

namespace Index

open Sample

variable {i j : Index} {p : Program} {s owner unit : Symbol}

/-- The known usages of a declaration by one class, in the order of filing. -/
def usagesBy (i : Index) (unit s : Symbol) : List UsageRecord := (i.query s).filter (·.unit = unit)

/-! ## Passes -/

theorem usagesBy_addClass (i : Index) (p : Program) (subject : Handle) (occurrences : Occurrences)
    (lines : List String) (locator : Locator) (unit s : Symbol) :
    (i.addClass p subject occurrences lines locator).1.usagesBy unit s =
      i.usagesBy unit s ++
        (recordsFor s (filingsOf i.settings p subject occurrences lines locator)).filter
          (·.unit = unit) := by
  rw [usagesBy, query_addClass, List.filter_append]
  rfl

theorem usagesBy_addClass_of_ne {subject : Handle} (hne : p.symbol subject ≠ .ok unit)
    (occurrences : Occurrences) (lines : List String) (locator : Locator) (s : Symbol) :
    (i.addClass p subject occurrences lines locator).1.usagesBy unit s = i.usagesBy unit s := by
  have hnone : (recordsFor s (filingsOf i.settings p subject occurrences lines locator)).filter
      (·.unit = unit) = [] := by
    refine List.filter_eq_nil_iff.2 fun r hr hunit => hne ?_
    -- A record of the pass is by the class that the pass is over.
    obtain ⟨f, hf, -, rfl⟩ := mem_recordsFor.1 hr
    have htop := topLevelSymbol_of_mem_filingsOf p subject occurrences lines locator hf
    rw [← of_decide_eq_true hunit]
    exact Program.symbol_of_topLevelSymbol htop
  rw [usagesBy_addClass, hnone, List.append_nil]

theorem usagesBy_addClass_congr (hsettings : i.settings = j.settings)
    (h : i.usagesBy unit s = j.usagesBy unit s) (subject : Handle) (occurrences : Occurrences)
    (lines : List String) (locator : Locator) :
    (i.addClass p subject occurrences lines locator).1.usagesBy unit s =
      (j.addClass p subject occurrences lines locator).1.usagesBy unit s := by
  rw [usagesBy_addClass, usagesBy_addClass, h, hsettings]

/-! ## Retractions -/

theorem usagesBy_retract_of_not_declaredIn (hi : i.OwnersDeclared p) {swept : Symbol}
    (hother : swept ≠ unit) (hs : ¬ p.DeclaredIn s swept) :
    (i.retract swept).1.usagesBy unit s = i.usagesBy unit s := by
  rw [usagesBy, usagesBy, query_retract, if_neg fun howner => hs (hi howner), List.filter_filter]
  refine List.filter_congr fun r _ => ?_
  by_cases hr : r.unit = unit
  · simp [hr, Ne.symm hother]
  · simp [hr]

section

variable (hi : i.OwnersDeclared p) (hp : p.Sound) (hnames : p.ClassNamesDistinct)
  (hs : p.DeclaredIn s owner)

include hi hp hnames hs

/-- A retraction takes the usages away if the class made them or owns the declaration, whoever
opened the bucket; otherwise it leaves all of them, in their order. -/
theorem usagesBy_retract (swept unit : Symbol) :
    (i.retract swept).1.usagesBy unit s =
      if swept = unit ∨ swept = owner then [] else i.usagesBy unit s := by
  by_cases htouched : swept = unit ∨ swept = owner
  · rw [if_pos htouched, usagesBy, query_retract]
    rcases htouched with rfl | rfl
    · split
      · rfl
      · simp [List.filter_filter]
    · cases howner : i.bucketOwner? s with
      | none =>
        rw [query_eq_nil_of_bucketOwner?_eq_none howner]
        simp
      | some o =>
        obtain rfl : o = swept := (hi howner).unique hp hnames hs
        rw [if_pos rfl]
        rfl
  · rw [if_neg htouched]
    obtain ⟨hother, howner⟩ := not_or.1 htouched
    exact usagesBy_retract_of_not_declaredIn hi hother fun h => howner (h.unique hp hnames hs)

theorem usagesBy_retractHandle (h : Handle) :
    (i.retractHandle p h).1.usagesBy unit s =
      if p.symbol h = .ok unit ∨ p.symbol h = .ok owner then [] else i.usagesBy unit s := by
  rw [retractHandle]
  cases hsymbol : p.symbol h with
  | error cause => simp
  | ok swept =>
    rw [usagesBy_retract hi hp hnames hs swept unit]
    simp

end

/-! ## One operation -/

section

variable (hp : p.Sound) (hnames : p.ClassNamesDistinct) (hs : p.DeclaredIn s owner)

include hp hnames hs

theorem usagesBy_perform_of_not_bearsOn (hi : i.OwnersDeclared p) {o : Operation}
    (ho : o.bearsOn p owner unit = false) :
    (i.perform p o).1.usagesBy unit s = i.usagesBy unit s := by
  cases o with
  | addClass subject occurrences lines locator =>
    exact usagesBy_addClass_of_ne (of_decide_eq_false ho) occurrences lines locator s
  | add text => exact usagesBy_addClass_of_ne (of_decide_eq_false ho) _ _ _ s
  | refresh text =>
    have hother := of_decide_eq_false ho
    have hpass : (i.refresh p text).1.usagesBy unit s =
        (i.retractHandle p text.subject).1.usagesBy unit s :=
      usagesBy_addClass_of_ne (not_or.1 hother).1 _ _ _ s
    rw [usagesBy_retractHandle hi hp hnames hs, if_neg hother] at hpass
    exact hpass
  | retract swept =>
    have hother := of_decide_eq_false ho
    have hretract := usagesBy_retract hi hp hnames hs swept unit
    rw [if_neg hother] at hretract
    exact hretract
  | clear => cases ho

theorem usagesBy_perform_congr (hi : i.OwnersDeclared p) (hj : j.OwnersDeclared p)
    (hsettings : i.settings = j.settings) (h : i.usagesBy unit s = j.usagesBy unit s)
    (o : Operation) :
    (i.perform p o).1.usagesBy unit s = (j.perform p o).1.usagesBy unit s := by
  cases o with
  | addClass subject occurrences lines locator =>
    exact usagesBy_addClass_congr hsettings h subject occurrences lines locator
  | add text => exact usagesBy_addClass_congr hsettings h _ _ _ _
  | refresh text =>
    have hswept : (i.retractHandle p text.subject).1.usagesBy unit s =
        (j.retractHandle p text.subject).1.usagesBy unit s := by
      rw [usagesBy_retractHandle hi hp hnames hs, usagesBy_retractHandle hj hp hnames hs, h]
    refine usagesBy_addClass_congr ?_ hswept _ _ _ _
    rw [retractHandle_settings, retractHandle_settings, hsettings]
  | retract swept =>
    show (i.retract swept).1.usagesBy unit s = (j.retract swept).1.usagesBy unit s
    rw [usagesBy_retract hi hp hnames hs, usagesBy_retract hj hp hnames hs, h]
  | clear => rfl

/-! ## Runs -/

/-- Indexes that agree on the usages still do so after a run and after the run without the
operations that do not bear on the usages. -/
theorem usagesBy_after_congr (hi : i.OwnersDeclared p) (hj : j.OwnersDeclared p)
    (hsettings : i.settings = j.settings) (h : i.usagesBy unit s = j.usagesBy unit s)
    (operations : List Operation) :
    (i.after p operations).usagesBy unit s =
      (j.after p (operations.filter (·.bearsOn p owner unit))).usagesBy unit s := by
  induction operations generalizing i j with
  | nil => exact h
  | cons o rest ih =>
    cases ho : o.bearsOn p owner unit with
    | true =>
      -- Both runs carry out the operation.
      have hstep := usagesBy_perform_congr hp hnames hs hi hj hsettings h o
      have hsame : (i.perform p o).1.settings = (j.perform p o).1.settings := by
        rw [perform_settings, perform_settings, hsettings]
      rw [List.filter_cons_of_pos ho]
      exact ih (hi.perform hp o) (hj.perform hp o) hsame hstep
    | false =>
      -- Only the first run carries it out, to no effect.
      have hstep := usagesBy_perform_of_not_bearsOn hp hnames hs hi ho
      rw [List.filter_cons_of_neg (by rw [ho]; exact Bool.false_ne_true)]
      exact ih (hi.perform hp o) hj ((perform_settings i p o).trans hsettings) (hstep.trans h)

end

/-- Take any run from an empty index, a declaration, and the outermost class around it. The usages
of the declaration by a class are what they are after the run in which only passes over that class,
retractions of either class and clearings are left. -/
theorem usagesBy_after_filter (hprogram : p.Reachable) (hnames : p.ClassNamesDistinct)
    (settings : UsageSettings) (operations : List Operation) {h c : Handle}
    (hs : p.symbol h = .ok s) (hc : p.topLevelClass h = .ok c) (howner : p.symbol c = .ok owner)
    (unit : Symbol) :
    ((empty settings).after p operations).usagesBy unit s =
      ((empty settings).after p (operations.filter (·.bearsOn p owner unit))).usagesBy unit s := by
  have hempty : (empty settings).OwnersDeclared p := ownersDeclared_empty settings
  have hdeclared : p.DeclaredIn s owner := ⟨h, c, hs, hc, howner⟩
  exact usagesBy_after_congr hprogram.sound hnames hdeclared hempty hempty rfl rfl operations

/-- The usage of a method by one class, while the class of the method is refreshed, indexes its own
use of the method and is retracted under a name that it does not have. -/
theorem usagesBy_after_filter_pair :
    let own : ClassText :=
      { Pair.calleeText with occurrences := .ofList [(⟨6, 1⟩, Pair.calleeHit)] }
    let hit := Symbol.ofMethod "demo.Callee" "hit" "()V"
    let operations : List Operation :=
      [.add Pair.clientText, .refresh own, .retract (.ofClass "demo.Other"), .add Pair.clientText,
        .add own]
    let kept := operations.filter
      (·.bearsOn Pair.program (.ofClass "demo.Callee") (.ofClass "demo.Client"))
    kept.length = 3 ∧
      ((empty.after Pair.program operations).usagesBy (.ofClass "demo.Client") hit).length = 1 ∧
      (empty.after Pair.program operations).usagesBy (.ofClass "demo.Client") hit =
        (empty.after Pair.program kept).usagesBy (.ofClass "demo.Client") hit := by
  intro own hit operations kept
  have hnames : Pair.program.ClassNamesDistinct := by decide
  have hs : Pair.program.symbol Pair.calleeHit = .ok hit := by rfl
  have hc : Pair.program.topLevelClass Pair.calleeHit = .ok Pair.callee := by rfl
  have howner : Pair.program.symbol Pair.callee = .ok (.ofClass "demo.Callee") := by rfl
  exact ⟨by decide, by decide,
    usagesBy_after_filter ⟨_, rfl⟩ hnames {} operations hs hc howner (.ofClass "demo.Client")⟩

end Index

end CrossReference
