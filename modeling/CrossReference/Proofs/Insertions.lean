import CrossReference.Index.Basic
import CrossReference.OrderedMap.Collect
import CrossReference.Proofs.LastEntries
import CrossReference.Sample

/-!
# Occurrences by insertion

The occurrences of a class are the last entries for their positions, in text order, however they
came in: inserted one after another or collected at once (`OrderedMap.collect_eq_ofList`), and in
every order that leaves each position its last entry (`OrderedMap.ofList_eq_iff_sameLast`). So a
pass does not depend on the order in which its occurrences were found
(`Occurrences.text_order_of_insertions`).

Collecting sorts the entries. The sort is stable, so it leaves the entries of one key in their order
(`OrderedMap.filter_sortByKey`), and the last one of them stays the last.
-/

namespace CrossReference

namespace OrderedMap

variable {κ υ : Type}

/-- Both lists give each key the same last value, or none. -/
def SameLast (a b : List (κ × υ)) : Prop :=
  ∀ key value, LastFor a key value ↔ LastFor b key value

/-! ## Keys that stand once -/

theorem lastFor_iff_mem {entries : List (κ × υ)} (h : (entries.map (·.1)).Nodup)
    {key : κ} {value : υ} : LastFor entries key value ↔ (key, value) ∈ entries := by
  refine ⟨LastFor.mem, fun hmem => ?_⟩
  obtain ⟨front, back, rfl⟩ := List.append_of_mem hmem
  rw [List.map_append, List.map_cons] at h
  have hback : key ∉ back.map (·.1) := (List.nodup_cons.1 (List.nodup_append.1 h).2.1).1
  exact ⟨front, back, rfl, fun e he heq => hback (heq ▸ List.mem_map_of_mem he)⟩

/-- Where no key stands twice, the order of the entries does not matter. -/
theorem SameLast.of_perm {a b : List (κ × υ)} (h : a.Perm b) (hb : (b.map (·.1)).Nodup) :
    SameLast a b := fun key value => by
  have ha : (a.map (·.1)).Nodup := (h.map _).nodup_iff.2 hb
  rw [lastFor_iff_mem ha, lastFor_iff_mem hb, h.mem_iff]

/-! ## Keeping the last -/

section

variable [Ord κ] [Std.TransOrd κ] [Std.LawfulEqOrd κ]

theorem mem_keepLast_iff {entries : List (κ × υ)} (h : KeysOrdered entries) {key : κ} {value : υ} :
    (key, value) ∈ keepLast entries ↔ LastFor entries key value := by
  induction entries using keepLast.induct with
  | case1 =>
    have hnone : (([] : List (κ × υ)).map (·.1)).Nodup := List.nodup_nil
    rw [keepLast, lastFor_iff_mem hnone]
  | case2 e =>
    have hsingle : ([e].map (·.1)).Nodup := List.nodup_singleton e.1
    rw [keepLast, lastFor_iff_mem hsingle]
  | case3 e next rest heq ih =>
    rw [keepLast, if_pos heq, ih (List.pairwise_cons.1 h).2, lastFor_cons (e := e)]
    refine (or_iff_left ?_).symm
    rintro ⟨rfl, hlater⟩
    exact hlater next List.mem_cons_self (Std.LawfulEqOrd.eq_of_compare heq).symm
  | case4 e next rest hne ih =>
    rw [keepLast, if_neg hne, List.mem_cons, ih (List.pairwise_cons.1 h).2, lastFor_cons (e := e),
      or_comm]
    refine or_congr_right ⟨?_, fun hlast => hlast.1.symm⟩
    rintro rfl
    refine ⟨rfl, fun later hlater hkey => ?_⟩
    have hlt := h.lt_of_ne hne later hlater
    rw [hkey, Std.LawfulEqOrd.compare_eq_iff_eq.2 rfl] at hlt
    exact Ordering.noConfusion hlt

end

/-! ## Sorting -/

section

variable [DecidableEq κ]

theorem lastFor_filter_key {entries : List (κ × υ)} {key : κ} {value : υ} :
    LastFor (entries.filter (·.1 = key)) key value ↔ LastFor entries key value := by
  induction entries with
  | nil => rfl
  | cons e rest ih =>
    rw [lastFor_cons]
    by_cases he : e.1 = key
    · have hrest : (∀ e' ∈ rest.filter (·.1 = key), e'.1 ≠ key) ↔ ∀ e' ∈ rest, e'.1 ≠ key := by
        simp only [List.mem_filter, decide_eq_true_eq, and_imp]
        exact ⟨fun h e' he' heq => h e' he' heq heq, fun h e' he' _ => h e' he'⟩
      rw [List.filter_cons, if_pos (decide_eq_true he), lastFor_cons, ih, hrest]
    · rw [List.filter_cons, if_neg (by simpa using he), ih]
      refine (or_iff_left ?_).symm
      rintro ⟨rfl, -⟩
      exact he rfl

variable [Ord κ] [Std.TransOrd κ]

/-- Sorting leaves the entries of one key in their order. -/
theorem filter_sortByKey (entries : List (κ × υ)) (key : κ) :
    (sortByKey entries).filter (·.1 = key) = entries.filter (·.1 = key) := by
  let same := entries.filter (·.1 = key)
  have hordered : KeysOrdered same := by
    refine List.pairwise_of_forall_mem_list fun a ha b hb => ?_
    have hakey : a.1 = key := of_decide_eq_true (List.mem_filter.1 ha).2
    have hbkey : b.1 = key := of_decide_eq_true (List.mem_filter.1 hb).2
    rw [keyLE, hakey, hbkey]
    exact Std.ReflCmp.isLE_rfl
  have hsorted : same.Sublist (sortByKey entries) :=
    List.sublist_mergeSort keyLE_trans keyLE_total hordered List.filter_sublist
  have hkept : same.Sublist ((sortByKey entries).filter (·.1 = key)) := by
    have hfilter := hsorted.filter (·.1 = key)
    simpa only [same, List.filter_filter, Bool.and_self] using hfilter
  -- Sorting adds no entry, so the key has no further ones.
  have hperm := (List.mergeSort_perm entries keyLE).filter (·.1 = key)
  exact (hkept.eq_of_length hperm.length_eq.symm).symm

theorem lastFor_sortByKey {entries : List (κ × υ)} {key : κ} {value : υ} :
    LastFor (sortByKey entries) key value ↔ LastFor entries key value := by
  rw [← lastFor_filter_key, filter_sortByKey, lastFor_filter_key]

/-! ## Lists that make the same map -/

variable [Std.LawfulEqOrd κ]

/-- Entries make the same map collected at once and inserted one after another. -/
theorem collect_eq_ofList (entries : List (κ × υ)) : collect entries = ofList entries := by
  refine ext_get? fun key => Option.ext fun value => ?_
  rw [get?_ofList_eq_some_iff, ← mem_toList_iff]
  exact (mem_keepLast_iff (keysOrdered_sortByKey entries)).trans lastFor_sortByKey

theorem ofList_eq_iff_sameLast {a b : List (κ × υ)} : ofList a = ofList b ↔ SameLast a b := by
  constructor
  · intro heq key value
    rw [← get?_ofList_eq_some_iff, heq, get?_ofList_eq_some_iff]
  · intro hsame
    refine ext_get? fun key => Option.ext fun value => ?_
    rw [get?_ofList_eq_some_iff, get?_ofList_eq_some_iff]
    exact hsame key value

instance [DecidableEq υ] (a b : List (κ × υ)) : Decidable (SameLast a b) :=
  decidable_of_iff _ ofList_eq_iff_sameLast

theorem size_insert_ofList (entries : List (κ × υ)) (key : κ) (value : υ) :
    ((ofList entries).insert key value).size =
      (ofList entries).size + if key ∈ entries.map (·.1) then 0 else 1 := by
  simp only [size_insert, contains_ofList_iff]

end

end OrderedMap

namespace Occurrences

open OrderedMap Sample

/-- Occurrences inserted one after another are the same as if collected at once. They stand in text
order, by offset and then by line, and are the last entries for their positions; there are as many
of them as there are different positions, so each insertion adds one or none. Other entries make the
same list exactly if they have the same last entry for each position, as they do in another order if
no position stands twice; a pass then leaves the same index with the same outcome. -/
theorem text_order_of_insertions (entries : List (Position × Handle)) :
    let made := (∅ : Occurrences).insertMany entries
    collect entries = made ∧
      made.toList.Pairwise (fun a b => a.1.Before b.1) ∧
      (∀ position target, (position, target) ∈ made.toList ↔ LastFor entries position target) ∧
      made.size = (entries.map (·.1)).dedup.length ∧
      (∀ position target, (made.insert position target).size =
        made.size + if position ∈ entries.map (·.1) then 0 else 1) ∧
      (∀ other : List (Position × Handle), other.Perm entries → (entries.map (·.1)).Nodup →
        SameLast other entries) ∧
      ∀ other : List (Position × Handle),
        let remade := (∅ : Occurrences).insertMany other
        (remade.toList = made.toList ↔ SameLast other entries) ∧
          (SameLast other entries → ∀ (i : Index) (p : Program) (subject : Handle)
            (lines : List String) (locator : Locator),
            i.addClass p subject remade lines locator =
              i.addClass p subject made lines locator) := by
  intro made
  refine ⟨collect_eq_ofList entries, made.increasing.imp Position.compare_eq_lt_iff.1,
    fun position target => mem_toList_ofList_iff entries, size_ofList entries,
    size_insert_ofList entries, fun other hperm hnodup => .of_perm hperm hnodup, ?_⟩
  intro other remade
  refine ⟨toList_inj.trans ofList_eq_iff_sameLast, fun hsame i p subject lines locator => ?_⟩
  have hmade : remade = made := ofList_eq_iff_sameLast.2 hsame
  rw [hmade]

/-- Two positions on different lines share an offset, and of two entries for one position the later
one names something that the program does not know. The pass is given up there in whichever order
the entries came. -/
theorem text_order_of_insertions_repeated :
    let entries : List (Position × Handle) :=
      [(⟨47, 9⟩, Pair.calleeHit), (⟨42, 3⟩, Pair.calleeHit), (⟨38, 3⟩, Pair.calleeConstructor),
       (⟨47, 3⟩, Pair.calleeHit), (⟨42, 3⟩, ⟨9⟩)]
    let other : List (Position × Handle) :=
      [(⟨42, 3⟩, ⟨9⟩), (⟨47, 3⟩, Pair.calleeHit), (⟨47, 9⟩, Pair.calleeHit),
       (⟨38, 3⟩, Pair.calleeConstructor)]
    let made := (∅ : Occurrences).insertMany entries
    let remade := (∅ : Occurrences).insertMany other
    let index := Index.empty { publication := .streaming }
    let pass := fun (occurrences : Occurrences) =>
      index.addClass Pair.program Pair.client occurrences Pair.clientLines Pair.clientLayout.locator
    SameLast other entries ∧ remade.toList = made.toList ∧ pass remade = pass made ∧
      (pass made).2 = .failed 2 (.aborted (.ofClass "demo.Client") (.unknownHandle ⟨9⟩)) ∧
      other.reverse.Perm other ∧ (other.map (·.1)).Nodup ∧ SameLast other.reverse other := by
  intro entries other made remade index pass
  have hsame : SameLast other entries := by decide
  have hfailed : (pass made).2 =
      .failed 2 (.aborted (.ofClass "demo.Client") (.unknownHandle ⟨9⟩)) := by decide
  have hnodup : (other.map (·.1)).Nodup := by decide
  have hperm : other.reverse.Perm other := other.reverse_perm
  obtain ⟨hlists, hpass⟩ := (text_order_of_insertions entries).2.2.2.2.2.2 other
  have hreverse := (text_order_of_insertions other).2.2.2.2.2.1 other.reverse hperm hnodup
  exact ⟨hsame, hlists.2 hsame, hpass hsame index Pair.program Pair.client Pair.clientLines
    Pair.clientLayout.locator, hfailed, hperm, hnodup, hreverse⟩

end Occurrences

end CrossReference
