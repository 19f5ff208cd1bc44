import CrossReference.Annotation.Splice
import CrossReference.Proofs.Comments

/-!
# Comments on emitted lines

A line of a method is emitted for some instructions. What is spliced onto it are the comments on
these instructions, one instruction after another and each as often as it occurs
(`CommentStore.spliceLine_of_setAll`). Which comments these are can be told from the comments on the
method alone (`CommentStore.splice_afterSets`). A comment that is set behind all others goes behind
the others at every occurrence of its instruction and nowhere else
(`CommentStore.spliceLine_setAll_concat`).
-/

namespace CrossReference

/-- What a comment adds to a line: a blank, the mark that opens a comment, and the text. -/
def Comment.trailer (mark : String) (c : Comment) : String := " " ++ mark ++ c.text

/-- What comments add to a line, one behind the other. -/
def trailers (mark : String) (comments : List Comment) : String :=
  String.join (comments.map (·.trailer mark))

section

variable (mark : String) (c : Comment) (comments : List Comment)

@[simp] theorem trailers_nil : trailers mark [] = "" := rfl

@[simp] theorem trailers_cons :
    trailers mark (c :: comments) = c.trailer mark ++ trailers mark comments := by
  rw [trailers, List.map_cons, String.join_cons, trailers]

@[simp] theorem trailers_append (later : List Comment) :
    trailers mark (comments ++ later) = trailers mark comments ++ trailers mark later := by
  rw [trailers, List.map_append, String.join_append, trailers, trailers]

theorem length_trailer : (c.trailer mark).length = 1 + mark.length + c.text.length := by
  rw [Comment.trailer, String.length_append, String.length_append]
  rfl

/-- Something is added to a line unless there are no comments. -/
theorem append_trailers_eq_self_iff (text : String) :
    text ++ trailers mark comments = text ↔ comments = [] := by
  constructor
  · intro heq
    have hlength := congrArg String.length heq
    cases comments with
    | nil => rfl
    | cons c rest =>
      rw [trailers_cons, String.length_append, String.length_append, length_trailer] at hlength
      omega
  · rintro rfl
    exact String.append_empty

theorem appendComments_eq (line : String) :
    appendComments line comments mark = line ++ trailers mark comments := by
  rw [appendComments]
  induction comments generalizing line with
  | nil => rw [List.foldl_nil, trailers_nil, String.append_empty]
  | cons c rest ih =>
    rw [List.foldl_cons, ih, trailers_cons, Comment.trailer]
    simp only [String.append_assoc]

end

/-! ## The comments that go to a line -/

/-- The comments of a list on the instructions of a line, instruction by instruction. -/
def EmittedLine.commentsFrom (line : EmittedLine) (method : Symbol) (comments : List Comment) :
    List Comment :=
  line.instructions.flatMap fun instruction => commentsOn method instruction comments

theorem commentsOn_eq_filter (method : Symbol) (instruction : UInt32) (comments : List Comment) :
    commentsOn method instruction comments =
      (comments.filter (·.target = method)).filter (·.instruction = instruction) := by
  rw [List.filter_filter, commentsOn]
  refine List.filter_congr fun c _ => ?_
  simp [Bool.and_comm]

/-- Only the comments on the method matter. -/
theorem EmittedLine.commentsFrom_congr {method : Symbol} {comments others : List Comment}
    (hsame : others.filter (·.target = method) = comments.filter (·.target = method))
    (line : EmittedLine) : line.commentsFrom method others = line.commentsFrom method comments := by
  simp only [commentsFrom, commentsOn_eq_filter, hsame]

theorem EmittedLine.commentsFrom_ne_nil_iff {line : EmittedLine} {method : Symbol}
    {comments : List Comment} :
    line.commentsFrom method comments ≠ [] ↔
      ∃ instruction ∈ line.instructions, ∃ c ∈ comments,
        c.target = method ∧ c.instruction = instruction := by
  simp [commentsFrom, commentsOn, List.flatMap_eq_nil_iff, List.filter_eq_nil_iff]

/-- A comment that is set last stands last among the comments on its instruction. -/
theorem commentsOn_concat (method : Symbol) (instruction : UInt32) (comments : List Comment)
    (c : Comment) :
    commentsOn method instruction (comments ++ [c]) =
      commentsOn method instruction comments ++
        if c.target = method ∧ c.instruction = instruction then [c] else [] := by
  rw [commentsOn, List.filter_append, commentsOn, List.filter_cons, List.filter_nil]
  by_cases hc : c.target = method ∧ c.instruction = instruction <;> simp [hc]

namespace CommentStore

section

variable (s : CommentStore) (method : Symbol) (mark : String)

theorem spliceLine_eq (line : EmittedLine) :
    s.spliceLine method mark line =
      line.text ++ trailers mark (line.instructions.flatMap (s.lookup method)) := by
  obtain ⟨text, instructions⟩ := line
  rw [spliceLine]
  simp only [appendComments_eq]
  induction instructions generalizing text with
  | nil => simp
  | cons instruction rest ih =>
    rw [List.foldl_cons, ih, List.flatMap_cons, trailers_append, String.append_assoc]

theorem spliceLine_of_setAll (number : UInt64) (comments : List Comment) (line : EmittedLine) :
    spliceLine ⟨number, comments.toArray, .ofList comments⟩ method mark line =
      line.text ++ trailers mark (line.commentsFrom method comments) := by
  have hlookup : lookup ⟨number, comments.toArray, .ofList comments⟩ method =
      fun instruction => commentsOn method instruction comments :=
    funext fun instruction => lookup_of_setAll number comments method instruction
  rw [spliceLine_eq, hlookup, EmittedLine.commentsFrom]

/-- What the comments on some instructions add is what those on each instruction add, one
behind the other. -/
theorem trailers_flatMap (f : UInt32 → List Comment) (instructions : List UInt32) :
    trailers mark (instructions.flatMap f) =
      String.join (instructions.map fun instruction => trailers mark (f instruction)) := by
  induction instructions with
  | nil => rfl
  | cons instruction rest ih =>
    rw [List.flatMap_cons, trailers_append, ih, List.map_cons, String.join_cons]

theorem spliceLine_setAll (comments : List Comment) (line : EmittedLine) :
    (s.setAll comments).spliceLine method mark line =
      line.text ++ String.join (line.instructions.map fun instruction =>
        trailers mark (commentsOn method instruction comments)) := by
  rw [setAll, spliceLine_of_setAll, EmittedLine.commentsFrom, trailers_flatMap]

/-- A further comment stands behind the others on its instruction, wherever that occurs. -/
theorem spliceLine_setAll_concat (comments : List Comment) (c : Comment) (line : EmittedLine) :
    (s.setAll (comments ++ [c])).spliceLine method mark line =
      line.text ++ String.join (line.instructions.map fun instruction =>
        trailers mark (commentsOn method instruction comments) ++
          if c.target = method ∧ c.instruction = instruction then c.trailer mark else "") := by
  rw [spliceLine_setAll]
  refine congrArg (fun added => line.text ++ String.join added)
    (List.map_congr_left fun instruction _ => ?_)
  rw [commentsOn_concat, trailers_append]
  by_cases hc : c.target = method ∧ c.instruction = instruction <;> simp [hc]

/-- A further comment leaves a line as it is if it is on no instruction of the line. -/
theorem spliceLine_concat_of_notMem {c : Comment} {line : EmittedLine}
    (hnotMem : c.target = method → c.instruction ∉ line.instructions) (comments : List Comment) :
    (s.setAll (comments ++ [c])).spliceLine method mark line =
      (s.setAll comments).spliceLine method mark line := by
  rw [spliceLine_setAll_concat, spliceLine_setAll]
  refine congrArg (fun added => line.text ++ String.join added)
    (List.map_congr_left fun instruction hinstruction => ?_)
  have hother : ¬ (c.target = method ∧ c.instruction = instruction) := by
    rintro ⟨htarget, rfl⟩
    exact hnotMem htarget hinstruction
  rw [if_neg hother, String.append_empty]

/-- A further comment makes a line of its method longer by as much as it occurs. -/
theorem length_spliceLine_concat (comments : List Comment) (c : Comment) (line : EmittedLine) :
    ((s.setAll (comments ++ [c])).spliceLine c.target mark line).length =
      ((s.setAll comments).spliceLine c.target mark line).length +
        line.instructions.count c.instruction * (1 + mark.length + c.text.length) := by
  rw [spliceLine_setAll_concat, spliceLine_setAll]
  simp only [String.length_append, String.length_join, List.map_map]
  induction line.instructions with
  | nil => simp
  | cons instruction rest ih =>
    simp only [List.map_cons, List.sum_cons, List.count_cons, Function.comp_apply,
      String.length_append, true_and] at ih ⊢
    by_cases hc : c.instruction = instruction
    · rw [if_pos hc, length_trailer, hc, beq_self_eq_true, if_pos rfl, Nat.add_mul]
      rw [hc] at ih
      omega
    · rw [if_neg hc, if_neg (by simpa using Ne.symm hc)]
      simpa [Nat.add_assoc] using ih

/-- A further comment changes exactly the lines of its method that were emitted
for its instruction. -/
theorem spliceLine_concat_ne_iff (comments : List Comment) (c : Comment) (line : EmittedLine) :
    (s.setAll (comments ++ [c])).spliceLine c.target mark line ≠
        (s.setAll comments).spliceLine c.target mark line ↔
      c.instruction ∈ line.instructions := by
  constructor
  · intro hne
    by_contra hmem
    exact hne (s.spliceLine_concat_of_notMem c.target mark (fun _ => hmem) comments)
  · intro hmem heq
    -- Each occurrence adds at least the blank, so the line gets longer.
    have hlength := s.length_spliceLine_concat mark comments c line
    have hadded : 0 < line.instructions.count c.instruction * (1 + mark.length + c.text.length) :=
      Nat.mul_pos (List.count_pos_iff.2 hmem) (by omega)
    rw [heq] at hlength
    omega

end

/-- However often a new store is replaced, each emitted line keeps its text, and what is added
behind it are the comments of the list set last on the instructions of the line: instruction by
instruction, and those on one instruction in the order given, each with a blank and the mark in
front. Of the list only the comments on the method have a part in this. A line is left as it is
exactly if none of its instructions has a comment. -/
theorem splice_afterSets (lists : List (List Comment)) (method : Symbol) (lines : List EmittedLine)
    (mark : String) :
    let s := empty.afterSets lists
    let last := lists.getLastD []
    s.splice method lines mark = lines.map (fun line =>
      line.text ++ String.join ((line.instructions.flatMap fun instruction =>
        last.filter fun c => c.target = method ∧ c.instruction = instruction).map fun c =>
          " " ++ mark ++ c.text)) ∧
    (∀ others : List (List Comment),
      (empty.afterSets others).commentsFor method = s.commentsFor method →
      (empty.afterSets others).splice method lines mark = s.splice method lines mark) ∧
    ∀ (n : Nat) (line : EmittedLine), lines[n]? = some line →
      ∃ spliced : String, (s.splice method lines mark)[n]? = some spliced ∧
      line.text.toList <+: spliced.toList ∧
      (spliced ≠ line.text ↔ ∃ instruction ∈ line.instructions, ∃ c ∈ last,
        c.target = method ∧ c.instruction = instruction) := by
  intro s last
  have hsplice (lists : List (List Comment)) (line : EmittedLine) :
      (empty.afterSets lists).spliceLine method mark line =
        line.text ++ trailers mark (line.commentsFrom method (lists.getLastD [])) := by
    rw [afterSets_empty]
    exact spliceLine_of_setAll method mark _ _ line
  refine ⟨List.map_congr_left fun line _ => hsplice lists line, fun others hsame => ?_,
    fun n line hline => ⟨s.spliceLine method mark line, ?_, ?_, ?_⟩⟩
  · have hfor (lists : List (List Comment)) :
        (empty.afterSets lists).commentsFor method =
          (lists.getLastD []).filter (·.target = method) := by
      rw [afterSets_empty, commentsFor]
    rw [hfor, hfor] at hsame
    refine List.map_congr_left fun line _ => ?_
    rw [hsplice, hsplice, line.commentsFrom_congr hsame]
  · rw [splice, List.getElem?_map, hline]
    rfl
  · rw [hsplice, String.toList_append]
    exact List.prefix_append _ _
  · rw [hsplice, ← EmittedLine.commentsFrom_ne_nil_iff]
    exact (append_trailers_eq_self_iff mark _ line.text).not

/-- Two instructions on one line, the second of which has two comments and occurs twice; a line
without instructions; and a store with one more comment on another method, which changes nothing. -/
theorem splice_afterSets_merged :
    let test := Symbol.ofMethod "demo.TestCls" "test" "(Z)I"
    let other := Symbol.ofMethod "demo.TestCls" "other" "()V"
    let last : List Comment := [⟨test, 3, "a"⟩, ⟨test, 5, "b"⟩, ⟨test, 5, "c"⟩]
    let lines : List EmittedLine := [⟨"x = y + 1;", [5, 3, 5]⟩, ⟨"\x7d", []⟩]
    let s := empty.afterSets [[⟨test, 1, "old"⟩], last]
    s.splice test lines "// " = ["x = y + 1; // b // c // a // b // c", "\x7d"] ∧
      (empty.afterSets [⟨other, 5, "d"⟩ :: last]).splice test lines "// " =
        s.splice test lines "// " ∧
      ∃ spliced, (s.splice test lines "// ")[0]? = some spliced ∧ spliced ≠ "x = y + 1;" := by
  intro test other last lines s
  obtain ⟨hsplice, hfor, hlines⟩ :=
    splice_afterSets [[⟨test, 1, "old"⟩], last] test lines "// "
  obtain ⟨spliced, hspliced, -, hchanged⟩ := hlines 0 ⟨"x = y + 1;", [5, 3, 5]⟩ rfl
  refine ⟨hsplice.trans (by decide +kernel), hfor _ (by decide +kernel), spliced, hspliced, ?_⟩
  exact hchanged.2 ⟨3, by decide, ⟨test, 3, "a"⟩, by decide, rfl, rfl⟩

end CommentStore

end CrossReference
