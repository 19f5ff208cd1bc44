/-!
# Ordered maps

A finite map kept as the list of its entries in strictly increasing key order. Two ordered maps with
the same look-ups are equal, so "the same map" is plain equality, and walking over a map follows the
order of its keys.

## Main definitions

- `OrderedMap κ υ` — the entries with the proof that their keys increase
- `OrderedMap.get?` — the value of a key
- `OrderedMap.alter` — replaces, adds or removes the value of one key; `insert` and `erase` are its
  two everyday forms
- `OrderedMap.filterMap` — keeps, replaces or drops each value
- `OrderedMap.floor?` — the entry of the greatest key at or below a given one
-/

namespace CrossReference

/-- A list of entries whose keys increase strictly. -/
def KeysIncrease {κ υ : Type} [Ord κ] (entries : List (κ × υ)) : Prop :=
  entries.Pairwise fun a b => compare a.1 b.1 = .lt

/-- A finite map from `κ` to `υ` whose entries stand in key order. -/
structure OrderedMap (κ υ : Type) [Ord κ] where
  /-- The entries in key order. -/
  toList : List (κ × υ)
  /-- No key stands twice, and smaller keys stand first. -/
  increasing : KeysIncrease toList

namespace OrderedMap

variable {κ υ : Type} [Ord κ]

def empty : OrderedMap κ υ := ⟨[], .nil⟩

instance : EmptyCollection (OrderedMap κ υ) := ⟨empty⟩

instance : Inhabited (OrderedMap κ υ) := ⟨empty⟩

instance [DecidableEq κ] [DecidableEq υ] : DecidableEq (OrderedMap κ υ) := fun a b =>
  decidable_of_iff (a.toList = b.toList) <| by
    cases a; cases b; simp

def size (m : OrderedMap κ υ) : Nat := m.toList.length

def isEmpty (m : OrderedMap κ υ) : Bool := m.toList.isEmpty

def keys (m : OrderedMap κ υ) : List κ := m.toList.map (·.1)

/-- The values in the order of their keys. -/
def values (m : OrderedMap κ υ) : List υ := m.toList.map (·.2)

/-- The value that a list of entries gives to a key. -/
def lookup (key : κ) : List (κ × υ) → Option υ
  | [] => none
  | (k, v) :: rest => if compare key k = .eq then some v else lookup key rest

def get? (m : OrderedMap κ υ) (key : κ) : Option υ := lookup key m.toList

def contains (m : OrderedMap κ υ) (key : κ) : Bool := (m.get? key).isSome

/-- Puts an entry in front unless there is no value for it. -/
def consValue (key : κ) (value : Option υ) (rest : List (κ × υ)) : List (κ × υ) :=
  match value with
  | none => rest
  | some v => (key, v) :: rest

/-- Replaces the value of one key in an increasing list of entries. -/
def alterEntries (key : κ) (f : Option υ → Option υ) : List (κ × υ) → List (κ × υ)
  | [] => consValue key (f none) []
  | (k, v) :: rest =>
    match compare key k with
    | .lt => consValue key (f none) ((k, v) :: rest)
    | .eq => consValue key (f (some v)) rest
    | .gt => (k, v) :: alterEntries key f rest

/-- Every key of the altered list is the altered key or was there before. -/
theorem mem_alterEntries {key : κ} {f : Option υ → Option υ} {entries : List (κ × υ)}
    {e : κ × υ} (h : e ∈ alterEntries key f entries) : e.1 = key ∨ e ∈ entries := by
  induction entries with
  | nil =>
    simp only [alterEntries, consValue] at h
    split at h <;> simp_all
  | cons head rest ih =>
    obtain ⟨k, v⟩ := head
    simp only [alterEntries, consValue] at h
    split at h
    · split at h
      · exact .inr h
      · rcases List.mem_cons.1 h with rfl | h
        · exact .inl rfl
        · exact .inr h
    · split at h
      · exact .inr (List.mem_cons_of_mem _ h)
      · rcases List.mem_cons.1 h with rfl | h
        · exact .inl rfl
        · exact .inr (List.mem_cons_of_mem _ h)
    · rcases List.mem_cons.1 h with rfl | h
      · exact .inr List.mem_cons_self
      · rcases ih h with h | h
        · exact .inl h
        · exact .inr (List.mem_cons_of_mem _ h)

theorem keysIncrease_alterEntries [Std.TransOrd κ] [Std.LawfulEqOrd κ] {key : κ}
    {f : Option υ → Option υ} {entries : List (κ × υ)} (h : KeysIncrease entries) :
    KeysIncrease (alterEntries key f entries) := by
  induction entries with
  | nil =>
    simp only [alterEntries, consValue, KeysIncrease]
    split <;> simp
  | cons head rest ih =>
    obtain ⟨k, v⟩ := head
    have hrest : KeysIncrease rest := (List.pairwise_cons.1 h).2
    have hhead := (List.pairwise_cons.1 h).1
    simp only [alterEntries, consValue]
    split
    · next hlt =>
      split
      · exact h
      · refine List.pairwise_cons.2 ⟨fun e he => ?_, h⟩
        rcases List.mem_cons.1 he with rfl | he
        · exact hlt
        · exact Std.TransCmp.lt_trans hlt (hhead e he)
    · next heq =>
      obtain rfl : key = k := Std.LawfulEqCmp.eq_of_compare heq
      split
      · exact hrest
      · exact List.pairwise_cons.2 ⟨hhead, hrest⟩
    · next hgt =>
      refine List.pairwise_cons.2 ⟨fun e he => ?_, ih hrest⟩
      rcases mem_alterEntries he with he | he
      · exact he ▸ Std.OrientedCmp.lt_of_gt hgt
      · exact hhead e he

/-- Replaces the value of one key by what `f` makes of it: `none` stands for no value,
before and after. -/
def alter [Std.TransOrd κ] [Std.LawfulEqOrd κ] (m : OrderedMap κ υ) (key : κ)
    (f : Option υ → Option υ) : OrderedMap κ υ :=
  ⟨alterEntries key f m.toList, keysIncrease_alterEntries m.increasing⟩

/-- Gives the key the value, in place of an earlier one. -/
def insert [Std.TransOrd κ] [Std.LawfulEqOrd κ] (m : OrderedMap κ υ) (key : κ) (value : υ) :
    OrderedMap κ υ :=
  m.alter key fun _ => some value

def erase [Std.TransOrd κ] [Std.LawfulEqOrd κ] (m : OrderedMap κ υ) (key : κ) : OrderedMap κ υ :=
  m.alter key fun _ => none

/-- Inserts entries one after another, so that the last one for a key wins. -/
def insertMany [Std.TransOrd κ] [Std.LawfulEqOrd κ] (m : OrderedMap κ υ)
    (entries : List (κ × υ)) : OrderedMap κ υ :=
  entries.foldl (fun m e => m.insert e.1 e.2) m

/-- The map of a list of entries, the last one for a key winning. -/
def ofList [Std.TransOrd κ] [Std.LawfulEqOrd κ] (entries : List (κ × υ)) : OrderedMap κ υ :=
  empty.insertMany entries

/-- What `f` keeps of an entry, under the same key. -/
def keepEntry (f : κ → υ → Option υ) (e : κ × υ) : Option (κ × υ) :=
  (f e.1 e.2).map (e.1, ·)

theorem keysIncrease_filterMap {f : κ → υ → Option υ} {entries : List (κ × υ)}
    (h : KeysIncrease entries) : KeysIncrease (entries.filterMap (keepEntry f)) := by
  refine List.Pairwise.filterMap _ (fun a b hab a' ha' b' hb' => ?_) h
  simp only [keepEntry, Option.map_eq_some_iff] at ha' hb'
  obtain ⟨_, _, rfl⟩ := ha'
  obtain ⟨_, _, rfl⟩ := hb'
  exact hab

/-- Keeps the entries to whose values `f` gives a new value, with that value. -/
def filterMap (m : OrderedMap κ υ) (f : κ → υ → Option υ) : OrderedMap κ υ :=
  ⟨m.toList.filterMap (keepEntry f), keysIncrease_filterMap m.increasing⟩

/-- The entry with the greatest key that is at most `key`. -/
def floor? (m : OrderedMap κ υ) (key : κ) : Option (κ × υ) :=
  (m.toList.takeWhile fun e => (compare e.1 key).isLE).getLast?

end OrderedMap

/-- A finite set kept in increasing order. -/
abbrev OrderedSet (κ : Type) [Ord κ] := OrderedMap κ Unit

end CrossReference
