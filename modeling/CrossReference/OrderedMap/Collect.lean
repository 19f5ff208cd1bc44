import CrossReference.OrderedMap.Basic

/-!
# Maps collected at once

A list of entries becomes an ordered map in one go: the entries are sorted by key, those with the
same key keeping their order, and of neighbours with the same key the last one is kept.

## Main definitions

- `OrderedMap.sortByKey` — the entries in key order, sorted stably
- `OrderedMap.keepLast` — the last of each run of entries with one key
- `OrderedMap.collect` — the map of a list of entries
-/

namespace CrossReference.OrderedMap

variable {κ υ : Type} [Ord κ]

/-- Whether the key of an entry is at most that of another one. -/
def keyLE (a b : κ × υ) : Bool := (compare a.1 b.1).isLE

/-- A list of entries whose keys do not decrease. -/
def KeysOrdered (entries : List (κ × υ)) : Prop := entries.Pairwise fun a b => keyLE a b = true

/-- The entries in key order; those with the same key stay in the order in which they came. -/
def sortByKey (entries : List (κ × υ)) : List (κ × υ) := entries.mergeSort keyLE

/-- Leaves out each entry in front of one with the same key. -/
def keepLast : List (κ × υ) → List (κ × υ)
  | [] => []
  | [e] => [e]
  | e :: next :: rest =>
    if compare e.1 next.1 = .eq then keepLast (next :: rest) else e :: keepLast (next :: rest)

theorem keepLast_sublist (entries : List (κ × υ)) : (keepLast entries).Sublist entries := by
  induction entries using keepLast.induct with
  | case1 => exact .slnil
  | case2 e => exact .refl _
  | case3 e next rest heq ih =>
    rw [keepLast, if_pos heq]
    exact ih.cons e
  | case4 e next rest hne ih =>
    rw [keepLast, if_neg hne]
    exact ih.cons_cons e

variable [Std.TransOrd κ]

theorem keyLE_trans (a b c : κ × υ) (hab : keyLE a b = true) (hbc : keyLE b c = true) :
    keyLE a c = true :=
  Std.TransCmp.isLE_trans hab hbc

theorem keyLE_total (a b : κ × υ) : (keyLE a b || keyLE b a) = true := by
  rw [Bool.or_eq_true]
  by_cases hab : keyLE a b = true
  · exact .inl hab
  · have hlt : compare b.1 a.1 = .lt := Std.OrientedCmp.lt_of_not_isLE hab
    exact .inr (by rw [keyLE, hlt]; rfl)

theorem keysOrdered_sortByKey (entries : List (κ × υ)) : KeysOrdered (sortByKey entries) :=
  List.pairwise_mergeSort keyLE_trans keyLE_total entries

/-- In ordered entries, one whose key differs from the next key differs from all further keys. -/
theorem KeysOrdered.lt_of_ne {e next : κ × υ} {rest : List (κ × υ)}
    (h : KeysOrdered (e :: next :: rest)) (hne : compare e.1 next.1 ≠ .eq) :
    ∀ later ∈ next :: rest, compare e.1 later.1 = .lt := by
  obtain ⟨hfirst, htail⟩ := List.pairwise_cons.1 h
  have hle : (compare e.1 next.1).isLE = true := hfirst next List.mem_cons_self
  have hlt : compare e.1 next.1 = .lt := (Ordering.isLE_iff_eq_lt_or_eq_eq.1 hle).resolve_right hne
  intro later hlater
  rcases List.mem_cons.1 hlater with rfl | hrest
  · exact hlt
  · exact Std.TransCmp.lt_of_lt_of_isLE hlt ((List.pairwise_cons.1 htail).1 later hrest)

theorem keysIncrease_keepLast {entries : List (κ × υ)} (h : KeysOrdered entries) :
    KeysIncrease (keepLast entries) := by
  induction entries using keepLast.induct with
  | case1 => exact .nil
  | case2 e => exact List.pairwise_singleton _ e
  | case3 e next rest heq ih =>
    rw [keepLast, if_pos heq]
    exact ih (List.pairwise_cons.1 h).2
  | case4 e next rest hne ih =>
    rw [keepLast, if_neg hne]
    refine List.pairwise_cons.2 ⟨fun later hlater => ?_, ih (List.pairwise_cons.1 h).2⟩
    exact h.lt_of_ne hne later ((keepLast_sublist _).subset hlater)

/-- The map of a list of entries, made at once; of several entries for a key the last one counts. -/
def collect (entries : List (κ × υ)) : OrderedMap κ υ :=
  ⟨keepLast (sortByKey entries), keysIncrease_keepLast (keysOrdered_sortByKey entries)⟩

end CrossReference.OrderedMap
