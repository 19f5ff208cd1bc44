import CrossReference.OrderedMap.Basic

/-!
# Look-ups in ordered maps

What each operation does to look-ups. Main statements:

- `OrderedMap.get?_alter`, `get?_insert`, `get?_erase` — one key changes, the others stay
- `OrderedMap.get?_filterMap` — each value changes on its own
- `OrderedMap.mem_toList_iff` — the entries are the look-ups that succeed
- `OrderedMap.ext_get?` — maps with the same look-ups are equal
- `OrderedMap.mem_keys_iff`, `mem_values_iff` — keys and values are what look-ups find
-/

namespace CrossReference.OrderedMap

variable {κ υ : Type} [Ord κ]

@[simp] theorem get?_empty (key : κ) : (∅ : OrderedMap κ υ).get? key = none := rfl

/-- A key below all others has no value. -/
theorem lookup_eq_none_of_lt {key : κ} {entries : List (κ × υ)}
    (h : ∀ e ∈ entries, compare key e.1 = .lt) : lookup key entries = none := by
  induction entries with
  | nil => rfl
  | cons head rest ih =>
    have hlt := h head List.mem_cons_self
    rw [lookup, if_neg (by rw [hlt]; decide)]
    exact ih fun e he => h e (List.mem_cons_of_mem _ he)

/-- A key in front of the first one has no value. -/
theorem lookup_cons_of_lt [Std.TransOrd κ] {key k : κ} {v : υ} {rest : List (κ × υ)}
    (h : KeysIncrease ((k, v) :: rest)) (hlt : compare key k = .lt) :
    lookup key ((k, v) :: rest) = none := by
  refine lookup_eq_none_of_lt fun e he => ?_
  rcases List.mem_cons.1 he with rfl | he
  · exact hlt
  · exact Std.TransCmp.lt_trans hlt ((List.pairwise_cons.1 h).1 e he)

theorem lookup_cons_of_gt {key k : κ} {v : υ} {rest : List (κ × υ)} (hgt : compare key k = .gt) :
    lookup key ((k, v) :: rest) = lookup key rest := by
  rw [lookup, if_neg (by rw [hgt]; decide)]

theorem lookup_consValue_self [Std.LawfulEqOrd κ] {key : κ} {value : Option υ} {rest : List (κ × υ)}
    (h : lookup key rest = none) : lookup key (consValue key value rest) = value := by
  cases value with
  | none => exact h
  | some v => simp [consValue, lookup]

theorem lookup_consValue_of_ne [Std.LawfulEqOrd κ] {key other : κ} {value : Option υ}
    {rest : List (κ × υ)} (h : other ≠ key) :
    lookup other (consValue key value rest) = lookup other rest := by
  cases value with
  | none => rfl
  | some v =>
    have hne : compare other key ≠ .eq := fun heq => h (Std.LawfulEqOrd.eq_of_compare heq)
    simp [consValue, lookup, hne]

theorem lookup_alterEntries_self [Std.TransOrd κ] [Std.LawfulEqOrd κ] {key : κ}
    {f : Option υ → Option υ} {entries : List (κ × υ)} (h : KeysIncrease entries) :
    lookup key (alterEntries key f entries) = f (lookup key entries) := by
  induction entries with
  | nil => exact lookup_consValue_self rfl
  | cons head rest ih =>
    obtain ⟨k, v⟩ := head
    obtain ⟨hhead, hrest⟩ := List.pairwise_cons.1 h
    rw [alterEntries]
    split
    · next hlt =>
      have hnone := lookup_cons_of_lt h hlt
      rw [lookup_consValue_self hnone, hnone]
    · next heq =>
      obtain rfl : key = k := Std.LawfulEqOrd.eq_of_compare heq
      rw [lookup_consValue_self (lookup_eq_none_of_lt hhead)]
      simp [lookup]
    · next hgt =>
      rw [lookup_cons_of_gt hgt, ih hrest, lookup_cons_of_gt hgt]

theorem lookup_alterEntries_of_ne [Std.LawfulEqOrd κ] {key other : κ}
    {f : Option υ → Option υ} {entries : List (κ × υ)} (h : other ≠ key) :
    lookup other (alterEntries key f entries) = lookup other entries := by
  induction entries with
  | nil => exact lookup_consValue_of_ne h
  | cons head rest ih =>
    obtain ⟨k, v⟩ := head
    rw [alterEntries]
    split
    · exact lookup_consValue_of_ne h
    · next heq =>
      obtain rfl : key = k := Std.LawfulEqOrd.eq_of_compare heq
      have hne : compare other key ≠ .eq := fun heq => h (Std.LawfulEqOrd.eq_of_compare heq)
      rw [lookup_consValue_of_ne h, lookup, if_neg hne]
    · rw [lookup, lookup, ih]

theorem get?_alter [Std.TransOrd κ] [Std.LawfulEqOrd κ] [DecidableEq κ] (m : OrderedMap κ υ)
    (key other : κ) (f : Option υ → Option υ) :
    (m.alter key f).get? other = if other = key then f (m.get? key) else m.get? other := by
  by_cases h : other = key
  · subst h
    rw [if_pos rfl]
    exact lookup_alterEntries_self m.increasing
  · rw [if_neg h]
    exact lookup_alterEntries_of_ne h

theorem get?_insert [Std.TransOrd κ] [Std.LawfulEqOrd κ] [DecidableEq κ] (m : OrderedMap κ υ)
    (key other : κ) (value : υ) :
    (m.insert key value).get? other = if other = key then some value else m.get? other :=
  get?_alter m key other _

theorem get?_erase [Std.TransOrd κ] [Std.LawfulEqOrd κ] [DecidableEq κ] (m : OrderedMap κ υ)
    (key other : κ) :
    (m.erase key).get? other = if other = key then none else m.get? other :=
  get?_alter m key other _

theorem mem_iff_lookup [Std.LawfulEqOrd κ] {entries : List (κ × υ)} (h : KeysIncrease entries)
    {key : κ} {value : υ} :
    (key, value) ∈ entries ↔ lookup key entries = some value := by
  induction entries with
  | nil => simp [lookup]
  | cons head rest ih =>
    obtain ⟨k, v⟩ := head
    obtain ⟨hhead, hrest⟩ := List.pairwise_cons.1 h
    rw [List.mem_cons, ih hrest, lookup]
    split
    · next heq =>
      obtain rfl : key = k := Std.LawfulEqOrd.eq_of_compare heq
      rw [lookup_eq_none_of_lt hhead]
      simp [eq_comm]
    · next hne =>
      have : key ≠ k := fun heq => hne (Std.LawfulEqOrd.compare_eq_iff_eq.2 heq)
      simp [this]

/-- The entries are the look-ups that succeed. -/
theorem mem_toList_iff [Std.LawfulEqOrd κ] (m : OrderedMap κ υ) {key : κ} {value : υ} :
    (key, value) ∈ m.toList ↔ m.get? key = some value :=
  mem_iff_lookup m.increasing

theorem get?_filterMap [Std.LawfulEqOrd κ] (m : OrderedMap κ υ) (f : κ → υ → Option υ)
    (key : κ) :
    (m.filterMap f).get? key = (m.get? key).bind (f key) := by
  apply Option.ext
  intro value
  rw [← mem_toList_iff, Option.bind_eq_some_iff]
  simp only [filterMap, List.mem_filterMap, keepEntry, Option.map_eq_some_iff, Prod.mk.injEq]
  constructor
  · rintro ⟨⟨k, v⟩, hmem, w, hw, rfl, rfl⟩
    exact ⟨v, (mem_toList_iff m).1 hmem, hw⟩
  · rintro ⟨v, hv, hw⟩
    exact ⟨(key, v), (mem_toList_iff m).2 hv, value, hw, rfl, rfl⟩

section

variable {α : Type} [Std.TransOrd κ] (key : α → κ) {a b : List α}

theorem nodup_of_increasing (ha : a.Pairwise fun x y => compare (key x) (key y) = .lt) : a.Nodup :=
  ha.imp fun hlt heq => by simp [heq] at hlt

/-- A list in strict order is given by its members. -/
theorem eq_of_increasing (ha : a.Pairwise fun x y => compare (key x) (key y) = .lt)
    (hb : b.Pairwise fun x y => compare (key x) (key y) = .lt)
    (h : ∀ x, x ∈ a ↔ x ∈ b) : a = b := by
  have hperm : a.Perm b :=
    (List.perm_ext_iff_of_nodup (nodup_of_increasing key ha) (nodup_of_increasing key hb)).2 h
  refine hperm.eq_of_pairwise (fun x y _ _ hlt hlt' => ?_) ha hb
  exact absurd hlt' (Std.OrientedCmp.not_lt_of_lt hlt)

end

/-- Increasing lists with the same look-ups are equal. -/
theorem eq_of_lookup_eq [Std.TransOrd κ] [Std.LawfulEqOrd κ] {a b : List (κ × υ)}
    (ha : KeysIncrease a) (hb : KeysIncrease b) (h : ∀ key, lookup key a = lookup key b) :
    a = b := by
  refine eq_of_increasing Prod.fst ha hb fun e => ?_
  rw [mem_iff_lookup ha, mem_iff_lookup hb, h]

theorem toList_inj {a b : OrderedMap κ υ} : a.toList = b.toList ↔ a = b := by
  cases a; cases b; simp

/-- Maps with the same look-ups are equal. -/
theorem ext_get? [Std.TransOrd κ] [Std.LawfulEqOrd κ] {a b : OrderedMap κ υ}
    (h : ∀ key, a.get? key = b.get? key) : a = b :=
  toList_inj.1 (eq_of_lookup_eq a.increasing b.increasing h)

/-- The entry at or below a key is an entry of the map. -/
theorem get?_of_floor? [Std.TransOrd κ] [Std.LawfulEqOrd κ] {m : OrderedMap κ υ} {key : κ}
    {e : κ × υ} (h : m.floor? key = some e) : m.get? e.1 = some e.2 :=
  (mem_toList_iff m).1 ((List.takeWhile_prefix _).subset (List.mem_of_getLast? h))

/-! ## Keys and values -/

theorem mem_keys_iff [Std.LawfulEqOrd κ] (m : OrderedMap κ υ) {key : κ} :
    key ∈ m.keys ↔ m.contains key = true := by
  simp only [keys, contains, List.mem_map, Option.isSome_iff_exists, ← mem_toList_iff]
  constructor
  · rintro ⟨e, he, rfl⟩
    exact ⟨e.2, he⟩
  · rintro ⟨value, he⟩
    exact ⟨(key, value), he, rfl⟩

theorem length_keys (m : OrderedMap κ υ) : m.keys.length = m.size := List.length_map _

theorem pairwise_keys (m : OrderedMap κ υ) : m.keys.Pairwise (compare · · = .lt) :=
  List.pairwise_map.2 m.increasing

theorem nodup_keys [Std.TransOrd κ] (m : OrderedMap κ υ) : m.keys.Nodup :=
  nodup_of_increasing id m.pairwise_keys

/-- Keys stand in order, so it matters only which there are. -/
theorem keys_eq_of_contains_eq [Std.TransOrd κ] [Std.LawfulEqOrd κ] {a b : OrderedMap κ υ}
    (h : ∀ key, a.contains key = b.contains key) : a.keys = b.keys := by
  refine eq_of_increasing id a.pairwise_keys b.pairwise_keys fun key => ?_
  rw [mem_keys_iff, mem_keys_iff, h]

theorem mem_values_iff [Std.LawfulEqOrd κ] (m : OrderedMap κ υ) {value : υ} :
    value ∈ m.values ↔ ∃ key, m.get? key = some value := by
  simp only [values, List.mem_map, ← mem_toList_iff]
  constructor
  · rintro ⟨e, he, rfl⟩
    exact ⟨e.1, he⟩
  · rintro ⟨key, he⟩
    exact ⟨(key, value), he, rfl⟩

section

variable [Std.TransOrd κ] [Std.LawfulEqOrd κ] [DecidableEq κ] (m : OrderedMap κ υ)

theorem contains_insert_iff (key other : κ) (value : υ) :
    (m.insert key value).contains other = true ↔ other = key ∨ m.contains other = true := by
  rw [contains, get?_insert, contains]
  by_cases h : other = key
  · simp [h]
  · simp [h]

theorem contains_erase_iff (key other : κ) :
    (m.erase key).contains other = true ↔ other ≠ key ∧ m.contains other = true := by
  rw [contains, get?_erase, contains]
  by_cases h : other = key
  · simp [h]
  · simp [h]

@[simp] theorem erase_insert (key : κ) (value : υ) :
    (m.insert key value).erase key = m.erase key := by
  refine ext_get? fun other => ?_
  rw [get?_erase, get?_erase, get?_insert]
  by_cases h : other = key
  · rw [if_pos h, if_pos h]
  · rw [if_neg h, if_neg h, if_neg h]

@[simp] theorem erase_erase (key : κ) : (m.erase key).erase key = m.erase key := by
  refine ext_get? fun other => ?_
  rw [get?_erase, get?_erase]
  by_cases h : other = key
  · rw [if_pos h, if_pos h]
  · rw [if_neg h, if_neg h]

/-- Keys may be removed in any order. -/
theorem erase_comm (a b : κ) : (m.erase a).erase b = (m.erase b).erase a := by
  refine ext_get? fun key => ?_
  simp only [get?_erase]
  by_cases ha : key = a <;> by_cases hb : key = b <;> simp [ha, hb]

/-- An insertion makes a map larger by one if it brings a new key, and else leaves its size. -/
theorem size_insert (key : κ) (value : υ) :
    (m.insert key value).size = m.size + if m.contains key = true then 0 else 1 := by
  rw [← length_keys, ← length_keys]
  split
  · next hold =>
    have hkeys : (m.insert key value).keys = m.keys := keys_eq_of_contains_eq fun other => by
      rw [Bool.eq_iff_iff, contains_insert_iff]
      exact or_iff_right_of_imp fun h => h ▸ hold
    rw [hkeys, Nat.add_zero]
  · next hnew =>
    have hnodup : (key :: m.keys).Nodup :=
      List.nodup_cons.2 ⟨fun hmem => hnew ((mem_keys_iff m).1 hmem), nodup_keys m⟩
    have hperm : (m.insert key value).keys.Perm (key :: m.keys) := by
      refine (List.perm_ext_iff_of_nodup (nodup_keys _) hnodup).2 fun other => ?_
      rw [mem_keys_iff, contains_insert_iff, List.mem_cons, mem_keys_iff]
    rw [hperm.length_eq, List.length_cons]

theorem keys_erase (key : κ) : (m.erase key).keys = m.keys.filter (· ≠ key) := by
  refine eq_of_increasing id (pairwise_keys _) ((pairwise_keys m).sublist List.filter_sublist)
    fun other => ?_
  rw [mem_keys_iff, contains_erase_iff, List.mem_filter, mem_keys_iff, decide_eq_true_iff, and_comm]

end

end CrossReference.OrderedMap
