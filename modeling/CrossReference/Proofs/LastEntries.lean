import CrossReference.OrderedMap.Lemmas
import Mathlib.Data.List.Dedup
import Mathlib.Data.List.Induction

/-!
# Maps made of entries

A map made of a list of entries holds for each key the last value that the list gives to it
(`OrderedMap.get?_ofList_eq_some_iff`), and so it holds as many entries as the list has different
keys. Entries stand in the order of their keys, so what the map finds at or below a key is the entry
with the greatest key there: of the entries of the list, the last one with that key
(`OrderedMap.floor?_ofList_eq_some_iff`). In which order the list came to its keys does not matter.
-/

namespace CrossReference.OrderedMap

variable {κ υ : Type}

/-- The last value that a list of entries gives to a key. -/
def LastFor (entries : List (κ × υ)) (key : κ) (value : υ) : Prop :=
  ∃ front back, entries = front ++ (key, value) :: back ∧ ∀ e ∈ back, e.1 ≠ key

/-- The entry with the greatest key that is at most `key`; of several, the last one. -/
def Nearest [LE κ] (entries : List (κ × υ)) (key : κ) (found : κ × υ) : Prop :=
  LastFor entries found.1 found.2 ∧ found.1 ≤ key ∧ ∀ e ∈ entries, e.1 ≤ key → e.1 ≤ found.1

/-! ## The last entries of a list -/

theorem LastFor.mem {entries : List (κ × υ)} {key : κ} {value : υ} (h : LastFor entries key value) :
    (key, value) ∈ entries := by
  obtain ⟨front, back, rfl, -⟩ := h
  exact List.mem_append_right _ List.mem_cons_self

theorem lastFor_cons {e : κ × υ} {entries : List (κ × υ)} {key : κ} {value : υ} :
    LastFor (e :: entries) key value ↔
      LastFor entries key value ∨ e = (key, value) ∧ ∀ e' ∈ entries, e'.1 ≠ key := by
  constructor
  · rintro ⟨front, back, heq, hback⟩
    cases front with
    | nil =>
      obtain ⟨rfl, rfl⟩ := List.cons.inj heq
      exact .inr ⟨rfl, hback⟩
    | cons first front =>
      obtain ⟨rfl, rfl⟩ := List.cons.inj heq
      exact .inl ⟨front, back, rfl, hback⟩
  · rintro (⟨front, back, rfl, hback⟩ | ⟨rfl, hrest⟩)
    · exact ⟨e :: front, back, rfl, hback⟩
    · exact ⟨[], entries, rfl, hrest⟩

theorem lastFor_concat {entries : List (κ × υ)} {e : κ × υ} {key : κ} {value : υ} :
    LastFor (entries ++ [e]) key value ↔
      key = e.1 ∧ value = e.2 ∨ key ≠ e.1 ∧ LastFor entries key value := by
  constructor
  · rintro ⟨front, back, heq, hback⟩
    rcases List.eq_nil_or_concat back with rfl | ⟨back, x, rfl⟩
    · obtain ⟨-, hlast⟩ := List.append_inj' heq rfl
      obtain rfl := (List.cons.inj hlast).1
      exact .inl ⟨rfl, rfl⟩
    · rw [List.concat_eq_append, ← List.cons_append, ← List.append_assoc] at heq
      obtain ⟨hfront, hlast⟩ := List.append_inj' heq rfl
      obtain rfl := (List.cons.inj hlast).1
      rw [List.concat_eq_append] at hback
      refine .inr ⟨(hback e (List.mem_append_right _ List.mem_cons_self)).symm, front, back, hfront,
        fun e' he' => hback e' (List.mem_append_left _ he')⟩
  · rintro (⟨rfl, rfl⟩ | ⟨hne, front, back, rfl, hback⟩)
    · exact ⟨entries, [], rfl, fun e' he' => nomatch he'⟩
    · refine ⟨front, back ++ [e], by simp, fun e' he' => ?_⟩
      rcases List.mem_append.1 he' with hold | hnew
      · exact hback e' hold
      · obtain rfl := List.mem_singleton.1 hnew
        exact hne.symm

/-! ## Making a map of a list -/

section

variable [Ord κ] [Std.TransOrd κ] [Std.LawfulEqOrd κ]

theorem ofList_concat (entries : List (κ × υ)) (e : κ × υ) :
    ofList (entries ++ [e]) = (ofList entries).insert e.1 e.2 :=
  List.foldl_append

theorem insertMany_ofList (entries later : List (κ × υ)) :
    (ofList entries).insertMany later = ofList (entries ++ later) :=
  List.foldl_append.symm

variable [DecidableEq κ]

/-- The last entry for a key wins. -/
theorem get?_ofList_eq_some_iff (entries : List (κ × υ)) {key : κ} {value : υ} :
    (ofList entries).get? key = some value ↔ LastFor entries key value := by
  induction entries using List.reverseRecOn with
  | nil =>
    constructor
    · exact fun h => nomatch h
    · rintro ⟨front, back, heq, -⟩
      simp at heq
  | append_singleton entries e ih =>
    rw [ofList_concat, get?_insert, lastFor_concat, ← ih]
    by_cases hkey : key = e.1
    · simp [hkey, eq_comm]
    · simp [hkey]

theorem contains_ofList_iff (entries : List (κ × υ)) {key : κ} :
    (ofList entries).contains key = true ↔ key ∈ entries.map (·.1) := by
  induction entries using List.reverseRecOn with
  | nil => simp [contains, ofList, insertMany, empty, get?, lookup]
  | append_singleton entries e ih =>
    rw [ofList_concat, contains_insert_iff, ih, List.map_append, List.mem_append,
      List.map_singleton, List.mem_singleton, or_comm]

theorem mem_toList_ofList_iff (entries : List (κ × υ)) {e : κ × υ} :
    e ∈ (ofList entries).toList ↔ LastFor entries e.1 e.2 := by
  rw [← get?_ofList_eq_some_iff, ← mem_toList_iff]

theorem exists_lastFor {entries : List (κ × υ)} {e : κ × υ} (he : e ∈ entries) :
    ∃ value, LastFor entries e.1 value := by
  have hcontains := (contains_ofList_iff entries).2 (List.mem_map_of_mem he)
  obtain ⟨value, hvalue⟩ := Option.isSome_iff_exists.1 hcontains
  exact ⟨value, (get?_ofList_eq_some_iff entries).1 hvalue⟩

/-- A map made of entries is as large as there are different keys. -/
theorem size_ofList (entries : List (κ × υ)) :
    (ofList entries).size = (entries.map (·.1)).dedup.length := by
  have hperm : (ofList entries).keys.Perm (entries.map (·.1)).dedup := by
    refine (List.perm_ext_iff_of_nodup (nodup_keys _) (List.nodup_dedup _)).2 fun key => ?_
    rw [mem_keys_iff, contains_ofList_iff, List.mem_dedup]
  rw [← hperm.length_eq, length_keys]

end

/-! ## At or below a key -/

section

variable [Ord κ] [Std.TransOrd κ]

/-- Keys increase, so those at or below a key are the first ones. -/
theorem takeWhile_eq_filter {entries : List (κ × υ)} (h : KeysIncrease entries) (key : κ) :
    (entries.takeWhile fun e => (compare e.1 key).isLE) =
      entries.filter fun e => (compare e.1 key).isLE := by
  induction entries with
  | nil => rfl
  | cons head rest ih =>
    obtain ⟨hhead, hrest⟩ := List.pairwise_cons.1 h
    by_cases hle : (compare head.1 key).isLE = true
    · rw [List.takeWhile_cons, List.filter_cons, if_pos hle, if_pos hle, ih hrest]
    · -- All further keys are still greater.
      rw [List.takeWhile_cons, List.filter_cons, if_neg hle, if_neg hle, eq_comm,
        List.filter_eq_nil_iff]
      intro e he hle'
      refine hle (Std.TransCmp.isLE_trans ?_ hle')
      rw [hhead e he]
      rfl

theorem getLast?_eq_some_iff_greatest {entries : List (κ × υ)} (h : KeysIncrease entries)
    {found : κ × υ} :
    entries.getLast? = some found ↔
      found ∈ entries ∧ ∀ e ∈ entries, (compare e.1 found.1).isLE = true := by
  have hself : (compare found.1 found.1).isLE = true := Std.ReflCmp.isLE_rfl
  rw [List.getLast?_eq_some_iff]
  constructor
  · rintro ⟨front, rfl⟩
    refine ⟨List.mem_append_right _ List.mem_cons_self, fun e he => ?_⟩
    rcases List.mem_append.1 he with hfront | hlast
    · rw [(List.pairwise_append.1 h).2.2 e hfront found List.mem_cons_self]
      rfl
    · rw [List.mem_singleton.1 hlast]
      exact hself
  · rintro ⟨hmem, hgreatest⟩
    obtain ⟨front, back, rfl⟩ := List.append_of_mem hmem
    cases back with
    | nil => exact ⟨front, rfl⟩
    | cons e back =>
      -- What stands behind has a greater key.
      have hlt := (List.pairwise_cons.1 (List.pairwise_append.1 h).2.1).1 e List.mem_cons_self
      have hle := hgreatest e (List.mem_append_right _ (List.mem_cons_of_mem _ List.mem_cons_self))
      rw [Std.OrientedCmp.gt_of_lt hlt] at hle
      cases hle

variable [LE κ] [Std.LawfulOrderOrd κ] (m : OrderedMap κ υ) {key : κ}

theorem floor?_eq_some_iff {found : κ × υ} :
    m.floor? key = some found ↔ found ∈ m.toList ∧ found.1 ≤ key ∧
      ∀ e ∈ m.toList, e.1 ≤ key → e.1 ≤ found.1 := by
  have hincreasing : KeysIncrease (m.toList.filter fun e => (compare e.1 key).isLE) :=
    m.increasing.sublist List.filter_sublist
  rw [floor?, takeWhile_eq_filter m.increasing, getLast?_eq_some_iff_greatest hincreasing]
  simp only [List.mem_filter, Std.isLE_compare, and_imp, and_assoc]

theorem floor?_eq_none_iff : m.floor? key = none ↔ ∀ e ∈ m.toList, ¬ e.1 ≤ key := by
  rw [floor?, takeWhile_eq_filter m.increasing, List.getLast?_eq_none_iff, List.filter_eq_nil_iff]
  simp only [Std.isLE_compare]

variable [Std.LawfulEqOrd κ] [DecidableEq κ]

/-- What a map made of entries finds at or below a key is the nearest of the entries, the last one
if there are several. -/
theorem floor?_ofList_eq_some_iff (entries : List (κ × υ)) {found : κ × υ} :
    (ofList entries).floor? key = some found ↔ Nearest entries key found := by
  rw [floor?_eq_some_iff, mem_toList_ofList_iff, Nearest]
  refine and_congr_right fun _ => and_congr_right fun _ => ⟨fun hgreatest e he hle => ?_,
    fun hgreatest e he hle => ?_⟩
  · obtain ⟨value, hlast⟩ := exists_lastFor he
    exact hgreatest (e.1, value) ((mem_toList_ofList_iff entries).2 hlast) hle
  · exact hgreatest e ((mem_toList_ofList_iff entries).1 he).mem hle

theorem floor?_ofList_eq_none_iff (entries : List (κ × υ)) :
    (ofList entries).floor? key = none ↔ ∀ e ∈ entries, ¬ e.1 ≤ key := by
  rw [floor?_eq_none_iff]
  refine ⟨fun hnone e he => ?_, fun hnone e he => ?_⟩
  · obtain ⟨value, hlast⟩ := exists_lastFor he
    exact hnone (e.1, value) ((mem_toList_ofList_iff entries).2 hlast)
  · exact hnone e ((mem_toList_ofList_iff entries).1 he).mem

end

end CrossReference.OrderedMap
