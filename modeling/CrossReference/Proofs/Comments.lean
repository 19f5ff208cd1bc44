import CrossReference.Annotation.Store
import CrossReference.OrderedMap.Lemmas
import Mathlib.Data.List.Induction

/-!
# The comment store is a list

The store finds the comments on an instruction through a table of places. The table lists for each
instruction the places at which its comments stand, in order (`CommentTable.places_ofList`), and at
each of these places there is a comment. So a look-up selects from the list that was set last, and
however often the store was replaced, it answers like that list (`CommentStore.lookup_afterSets`).
-/

namespace CrossReference

/-- The comments of a list that are attached to one instruction, in their order. -/
def commentsOn (target : Symbol) (instruction : UInt32) (comments : List Comment) : List Comment :=
  comments.filter fun c => c.target = target ∧ c.instruction = instruction

namespace CommentTable

variable (table : CommentTable) (target : Symbol) (instruction : UInt32)

theorem places_note (comment : Comment) (place : Nat) :
    (table.note comment place).places target instruction =
      table.places target instruction ++
        if comment.target = target ∧ comment.instruction = instruction then [place] else [] := by
  rw [places, note, OrderedMap.get?_alter, places]
  by_cases htarget : target = comment.target
  · subst htarget
    rw [if_pos rfl]
    by_cases hinstruction : instruction = comment.instruction
    · subst hinstruction
      cases table.get? comment.target with
      | none => simp [OrderedMap.get?_alter]
      | some byInstruction => simp [OrderedMap.get?_alter]
    · cases table.get? comment.target with
      | none => simp [OrderedMap.get?_alter, hinstruction, Ne.symm hinstruction]
      | some byInstruction => simp [OrderedMap.get?_alter, hinstruction, Ne.symm hinstruction]
  · rw [if_neg htarget, if_neg fun h => htarget h.1.symm, List.append_nil]

/-- Comments that stand in the list from a place on are noted with their places. -/
theorem places_noteFrom (place : Nat) (comments : List Comment) :
    (table.noteFrom place comments).places target instruction =
      table.places target instruction ++
        ((comments.zipIdx place).filter fun e =>
          e.1.target = target ∧ e.1.instruction = instruction).map (·.2) := by
  induction comments generalizing table place with
  | nil => simp [noteFrom]
  | cons c rest ih =>
    rw [noteFrom, ih, places_note, List.append_assoc, List.zipIdx_cons, List.filter_cons]
    by_cases hc : c.target = target ∧ c.instruction = instruction
    · simp [hc]
    · simp [hc]

theorem places_ofList (comments : List Comment) :
    (ofList comments).places target instruction =
      (comments.zipIdx.filter fun e =>
        e.1.target = target ∧ e.1.instruction = instruction).map (·.2) := by
  rw [ofList, places_noteFrom]
  rfl

/-- Each place in the table is one in the list, and in their order these places hold the comments on
the instruction. -/
theorem map_getElem?_places_ofList (comments : List Comment) :
    ((ofList comments).places target instruction).map (comments[·]?) =
      (commentsOn target instruction comments).map some := by
  let found := comments.zipIdx.filter fun e => e.1.target = target ∧ e.1.instruction = instruction
  have hread : found.map (fun e => comments[e.2]?) = found.map fun e => some e.1 := by
    refine List.map_congr_left fun e he => ?_
    exact List.mem_zipIdx_iff_getElem?.1 (List.mem_filter.1 he).1
  have hcomments : found.map (·.1) = commentsOn target instruction comments := by
    rw [commentsOn, ← List.zipIdx_map_fst 0 comments, List.filter_map]
    rfl
  rw [places_ofList, List.map_map, ← hcomments, List.map_map]
  exact hread

end CommentTable

namespace CommentStore

/-- The store after it was replaced some times. -/
def afterSets (s : CommentStore) (lists : List (List Comment)) : CommentStore :=
  lists.foldl setAll s

/-- Of the lists that a new store was set to only the last one is left. -/
theorem afterSets_empty (lists : List (List Comment)) :
    empty.afterSets lists =
      ⟨.ofNat lists.length, (lists.getLastD []).toArray, .ofList (lists.getLastD [])⟩ := by
  induction lists using List.reverseRecOn with
  | nil => rfl
  | append_singleton earlier last ih =>
    have hset : empty.afterSets (earlier ++ [last]) = (empty.afterSets earlier).setAll last :=
      List.foldl_append
    have hnumber : UInt64.ofNat (earlier.length + 1) = .ofNat earlier.length + 1 :=
      UInt64.ofNat_add earlier.length 1
    rw [hset, ih, setAll, List.length_append, List.length_singleton, List.getLastD_concat, hnumber]

theorem lookup_of_setAll (number : UInt64) (comments : List Comment) (target : Symbol)
    (instruction : UInt32) :
    lookup ⟨number, comments.toArray, .ofList comments⟩ target instruction =
      commentsOn target instruction comments := by
  have hread := CommentTable.map_getElem?_places_ofList target instruction comments
  have hfound :
      ((CommentTable.ofList comments).places target instruction).filterMap (comments[·]?) =
      commentsOn target instruction comments := by
    have hsome := congrArg (List.filterMap id) hread
    rw [List.filterMap_map, List.filterMap_map] at hsome
    simpa using hsome
  simpa [lookup] using hfound

theorem lt_size_of_mem_places {comments : List Comment} {target : Symbol} {instruction : UInt32}
    {place : Nat} (h : place ∈ (CommentTable.ofList comments).places target instruction) :
    place < comments.length := by
  have hread : comments[place]? ∈ (commentsOn target instruction comments).map some := by
    rw [← CommentTable.map_getElem?_places_ofList]
    exact List.mem_map.2 ⟨place, h, rfl⟩
  obtain ⟨c, -, hc⟩ := List.mem_map.1 hread
  exact (List.getElem?_eq_some_iff.1 hc.symm).1

/-- However often a new store is replaced, it answers like the list it was set to last: a look-up
reads only places that the list has and finds the comments on the instruction, in their order and
with repetitions. Of earlier lists nothing can be seen but their number. -/
theorem lookup_afterSets (lists : List (List Comment)) :
    let s := empty.afterSets lists
    let last := lists.getLastD []
    (∀ target instruction,
      (∀ place ∈ s.table.places target instruction, place < s.comments.size) ∧
      s.lookup target instruction =
        last.filter fun c => c.target = target ∧ c.instruction = instruction) ∧
    s.toList = last ∧
    (∀ target, s.commentsFor target = last.filter (·.target = target)) ∧
    s.size = last.length ∧ (s.isEmpty = true ↔ last = []) ∧
    s.generation = UInt64.ofNat lists.length ∧
    ∀ others : List (List Comment), others.length = lists.length → others.getLastD [] = last →
      empty.afterSets others = s := by
  intro s last
  have hs : s = ⟨.ofNat lists.length, last.toArray, .ofList last⟩ := afterSets_empty lists
  refine ⟨fun target instruction => ⟨fun place hplace => ?_, ?_⟩, ?_, fun target => ?_, ?_, ?_, ?_,
    fun others hlength hlast => ?_⟩
  · rw [hs] at hplace ⊢
    exact lt_size_of_mem_places hplace
  · rw [hs]
    exact lookup_of_setAll _ last target instruction
  · rw [hs, toList]
  · rw [hs, commentsFor]
  · rw [hs]
    exact List.size_toArray
  · simp [hs, isEmpty]
  · rw [hs]
  · rw [hs, afterSets_empty, hlength, hlast]

/-- A store is set twice: two comments on one instruction stay in their order behind each other,
though another one stands between them, and the comment of the first list is gone. -/
theorem lookup_afterSets_twice :
    let test := Symbol.ofMethod "demo.TestCls" "test" "(Z)I"
    let last : List Comment := [⟨test, 4, "first"⟩, ⟨test, 7, "other"⟩, ⟨test, 4, "second"⟩]
    let s := empty.afterSets [[⟨test, 1, "old"⟩], last]
    s.lookup test 4 = [⟨test, 4, "first"⟩, ⟨test, 4, "second"⟩] ∧ s.lookup test 1 = [] ∧
      (s.commentsFor test).length = 3 ∧ s.generation = 2 ∧ empty.afterSets [[], last] = s := by
  intro test last s
  obtain ⟨hlookup, -, hfor, -, -, hnumber, hlast⟩ :=
    lookup_afterSets [[⟨test, 1, "old"⟩], last]
  refine ⟨(hlookup test 4).2, (hlookup test 1).2, ?_, hnumber, hlast [[], last] rfl rfl⟩
  exact congrArg List.length (hfor test)

end CommentStore

end CrossReference
