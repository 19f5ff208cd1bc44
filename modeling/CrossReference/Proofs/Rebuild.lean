import CrossReference.Proofs.Indexing
import CrossReference.Proofs.Retraction

/-!
# Rebuilding one class

Retracting a class and indexing it again, in an index that other classes have been added to since.
What other classes know of the declarations of the class is lost, and nothing else: for every other
declaration the usages stay, those by the class moving behind the others
(`Index.query_rebuild`).
-/

namespace CrossReference

namespace Index

open Sample

variable (i : Index) (p : Program)

theorem query_retract_add (text : ClassText) (unit s : Symbol) :
    (i.after p [.retract unit, .add text]).query s =
      (if i.bucketOwner? s = some unit then [] else (i.query s).filter (·.unit ≠ unit)) ++
        recordsFor s (text.filings i.settings p) := by
  have hadd := query_add (i.retract unit).1 p text s
  rw [query_retract, retract_settings] at hadd
  exact hadd

section

variable {i p}
variable (hnames : p.ClassNamesDistinct) {text : ClassText} {unit : Symbol}
  (hunit : p.topLevelSymbol text.subject = .ok unit)
  (hfresh : ∀ s, ∀ r ∈ i.query s, r.unit ≠ unit) {others : List ClassText}
  (hothers : ∀ other ∈ others, other.subject ≠ text.subject)

include hnames hunit hfresh hothers

/-- Texts of other classes add nothing to the records of a class: they are what it files itself. -/
theorem filter_query_after_adds (s : Symbol) :
    ((i.after p (.add text :: others.map .add)).query s).filter (·.unit = unit) =
      recordsFor s (text.filings i.settings p) := by
  let own := recordsFor s (text.filings i.settings p)
  let foreign := others.flatMap fun other => recordsFor s (other.filings i.settings p)
  have hquery : (i.after p (.add text :: others.map .add)).query s =
      i.query s ++ own ++ foreign := by
    have h := query_after_adds i p (text :: others) s
    rw [List.flatMap_cons, ← List.append_assoc] at h
    exact h
  have hold : (i.query s).filter (·.unit = unit) = [] := by
    refine List.filter_eq_nil_iff.2 fun r hr => ?_
    simpa using hfresh s r hr
  have hown : own.filter (·.unit = unit) = own := by
    refine List.filter_eq_self.2 fun r hr => ?_
    simpa using unit_eq_of_mem_recordsFor p text hunit hr
  have hforeign : foreign.filter (·.unit = unit) = [] := by
    refine List.filter_eq_nil_iff.2 fun r hr => ?_
    obtain ⟨other, hother, hr⟩ := List.mem_flatMap.1 hr
    have hsame := topLevelSymbol_of_mem_recordsFor p other hr
    intro hmine
    rw [of_decide_eq_true hmine] at hsame
    -- One symbol for two handles of classes: this is where distinct names are needed.
    exact hothers other hother (hnames.topLevelSymbol_injective hsame hunit)
  rw [hquery, List.filter_append, List.filter_append, hold, hown, hforeign, List.nil_append,
    List.append_nil]

end

/-- Take an index without records of a class, index the class and then any texts of other classes,
whether or not their passes come to an end. Retracting the class and indexing it again gives each
declaration that the class does not own its old usages, those by other classes first, and leaves of
a declaration that the class owns exactly the usages by the class itself. -/
theorem query_rebuild (hnames : p.ClassNamesDistinct) (text : ClassText) {unit : Symbol}
    (hunit : p.topLevelSymbol text.subject = .ok unit)
    (hfresh : ∀ s, ∀ r ∈ i.query s, r.unit ≠ unit) (others : List ClassText)
    (hothers : ∀ other ∈ others, other.subject ≠ text.subject) (s : Symbol) :
    let filled := i.after p (.add text :: others.map .add)
    let rebuilt := filled.after p [.retract unit, .add text]
    (filled.bucketOwner? s ≠ some unit →
      rebuilt.query s =
          (filled.query s).filter (·.unit ≠ unit) ++ (filled.query s).filter (·.unit = unit) ∧
        (rebuilt.query s).Perm (filled.query s)) ∧
    (filled.bucketOwner? s = some unit →
      rebuilt.query s = (filled.query s).filter (·.unit = unit)) := by
  intro filled rebuilt
  have hsettings : filled.settings = i.settings := after_settings i p _
  have hmine : (filled.query s).filter (·.unit = unit) = recordsFor s (text.filings i.settings p) :=
    filter_query_after_adds hnames hunit hfresh hothers s
  have hrebuilt : rebuilt.query s =
      (if filled.bucketOwner? s = some unit then [] else (filled.query s).filter (·.unit ≠ unit)) ++
        (filled.query s).filter (·.unit = unit) := by
    have h := query_retract_add filled p text unit s
    rw [hsettings, ← hmine] at h
    exact h
  constructor
  · intro howner
    rw [if_neg howner] at hrebuilt
    refine ⟨hrebuilt, ?_⟩
    rw [hrebuilt]
    have hparts := List.filter_append_perm (fun r : UsageRecord => decide (r.unit ≠ unit))
      (filled.query s)
    simpa using hparts
  · intro howner
    rw [if_pos howner, List.nil_append] at hrebuilt
    exact hrebuilt

/-- With one usage of a method known: rebuilding the class that uses it keeps the usage, rebuilding
the class that declares it leaves none. -/
theorem query_rebuild_pair :
    let filled := empty.after Pair.program [.add Pair.clientText, .add Pair.calleeText]
    let refilled := empty.after Pair.program [.add Pair.calleeText, .add Pair.clientText]
    let hit := Symbol.ofMethod "demo.Callee" "hit" "()V"
    (filled.query hit).length = 1 ∧ (refilled.query hit).length = 1 ∧
      ((filled.after Pair.program
        [.retract (.ofClass "demo.Client"), .add Pair.clientText]).query hit).Perm
          (filled.query hit) ∧
      (refilled.after Pair.program
        [.retract (.ofClass "demo.Callee"), .add Pair.calleeText]).query hit =
          (refilled.query hit).filter (·.unit = .ofClass "demo.Callee") := by
  intro filled refilled hit
  have hnames : Pair.program.ClassNamesDistinct := by decide
  refine ⟨by decide, by decide, ?_, ?_⟩
  · exact ((query_rebuild empty Pair.program hnames Pair.clientText (by rfl)
      (fun _ _ hr => nomatch hr) [Pair.calleeText] (by decide) hit).1 (by decide)).2
  · exact (query_rebuild empty Pair.program hnames Pair.calleeText (by rfl)
      (fun _ _ hr => nomatch hr) [Pair.clientText] (by decide) hit).2 (by decide)

end Index

end CrossReference
