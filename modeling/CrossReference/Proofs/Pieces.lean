import CrossReference.Proofs.Utf8

/-!
# Pieces and lines

A text is cut into pieces at its line feeds, and its lines are made of the pieces. In front of a
piece stand the pieces before it, each with a line feed behind it
(`Text.exists_append_of_getElem?_cut`), so the bytes counted piece by piece lead to the byte at
which the line starts (`Text.startsLine_of_getElem?_cut`). A piece that holds something is a line as
well, at most without a carriage return at its end (`Text.exists_getElem?_lines`).
-/

namespace CrossReference.Text

variable {chars piece : List Char} {n : Nat}

/-! ## Pieces -/

theorem cut_ne_nil (chars : List Char) : cut chars ≠ [] := by
  cases chars with
  | nil => exact List.cons_ne_nil _ _
  | cons c rest =>
    rw [cut]
    split
    · exact List.cons_ne_nil _ _
    · split <;> exact List.cons_ne_nil _ _

theorem cut_eq_splitOn (chars : List Char) : cut chars = chars.splitOn '\n' := by
  induction chars with
  | nil => rfl
  | cons c rest ih =>
    rw [cut, List.splitOn_cons_eq_if_modifyHead, ← ih, if_congr beq_iff_eq.symm rfl rfl]
    cases hcut : cut rest with
    | nil => exact absurd hcut (cut_ne_nil rest)
    | cons first more => rfl

theorem newline_notMem_of_mem_cut (hpiece : piece ∈ cut chars) : '\n' ∉ piece := by
  induction chars generalizing piece with
  | nil =>
    obtain rfl := List.mem_singleton.1 hpiece
    exact List.not_mem_nil
  | cons c rest ih =>
    rw [cut] at hpiece
    split at hpiece
    · rcases List.mem_cons.1 hpiece with rfl | hmore
      · exact List.not_mem_nil
      · exact ih hmore
    · next hc =>
      cases hcut : cut rest with
      | nil => exact absurd hcut (cut_ne_nil rest)
      | cons first more =>
        rw [hcut] at hpiece ih
        rcases List.mem_cons.1 hpiece with rfl | hmore
        · intro hmem
          rcases List.mem_cons.1 hmem with heq | hfirst
          · exact hc heq.symm
          · exact ih List.mem_cons_self hfirst
        · exact ih (List.mem_cons_of_mem _ hmore)

/-- Pieces with a line feed behind each of them. -/
def endPieces (pieces : List (List Char)) : List Char := pieces.flatMap (· ++ ['\n'])

/-- In front of a piece stand the pieces before it. -/
theorem exists_append_of_getElem?_cut (hpiece : (cut chars)[n]? = some piece) :
    ∃ back, chars = endPieces ((cut chars).take n) ++ piece ++ back := by
  induction chars generalizing n piece with
  | nil =>
    cases n with
    | zero => exact ⟨[], by simpa [cut, endPieces] using hpiece⟩
    | succ n => simp [cut] at hpiece
  | cons c rest ih =>
    rw [cut] at hpiece ⊢
    by_cases hc : c = '\n'
    · rw [if_pos hc] at hpiece ⊢
      cases n with
      | zero =>
        obtain rfl := Option.some.inj hpiece
        exact ⟨c :: rest, rfl⟩
      | succ n =>
        obtain ⟨back, hback⟩ := ih hpiece
        rw [hc]
        exact ⟨back, congrArg ('\n' :: ·) hback⟩
    · rw [if_neg hc] at hpiece ⊢
      cases hcut : cut rest with
      | nil => exact absurd hcut (cut_ne_nil rest)
      | cons first more =>
        rw [hcut] at hpiece ih
        cases n with
        | zero =>
          obtain rfl := Option.some.inj hpiece
          obtain ⟨back, hback⟩ := ih (n := 0) rfl
          exact ⟨back, congrArg (c :: ·) hback⟩
        | succ n =>
          obtain ⟨back, hback⟩ := ih (n := n + 1) hpiece
          exact ⟨back, congrArg (c :: ·) hback⟩

theorem byteLength_append (front back : List Char) :
    byteLength (front ++ back) = byteLength front + byteLength back := by
  rw [byteLength_eq, String.ofList_append, String.utf8ByteSize_append, byteLength_eq, byteLength_eq]

theorem byteLength_endPieces (pieces : List (List Char)) :
    byteLength (endPieces pieces) = bytesBefore pieces := by
  induction pieces with
  | nil => rfl
  | cons piece more ih =>
    have hcons : endPieces (piece :: more) = piece ++ ['\n'] ++ endPieces more := List.flatMap_cons
    rw [hcons, byteLength_append, byteLength_append, ih]
    rfl

theorem count_endPieces {pieces : List (List Char)} (hpieces : ∀ piece ∈ pieces, '\n' ∉ piece) :
    (endPieces pieces).count '\n' = pieces.length := by
  induction pieces with
  | nil => rfl
  | cons piece more ih =>
    obtain ⟨hpiece, hmore⟩ := List.forall_mem_cons.1 hpieces
    have hcons : endPieces (piece :: more) = piece ++ ['\n'] ++ endPieces more := List.flatMap_cons
    rw [hcons, List.count_append, List.count_append, ih hmore, List.count_eq_zero.2 hpiece,
      List.length_cons]
    simp [Nat.add_comm]

theorem endPieces_eq_nil_or (pieces : List (List Char)) :
    endPieces pieces = [] ∨ ∃ front, endPieces pieces = front ++ ['\n'] := by
  rcases List.eq_nil_or_concat pieces with rfl | ⟨before, last, rfl⟩
  · exact .inl rfl
  · exact .inr ⟨endPieces before ++ last, by simp [endPieces]⟩

/-- What stands in front of a piece: its bytes and line feeds are those of the pieces before, and it
ends with a line feed if it is not empty. -/
theorem exists_front_of_getElem?_cut (hpiece : (cut chars)[n]? = some piece) :
    ∃ front back, chars = front ++ (piece ++ back) ∧
      byteLength front = bytesBefore ((cut chars).take n) ∧ front.count '\n' = n ∧
      (front = [] ∨ ∃ before, front = before ++ ['\n']) := by
  obtain ⟨back, hback⟩ := exists_append_of_getElem?_cut hpiece
  refine ⟨_, back, hback.trans (List.append_assoc ..), byteLength_endPieces _, ?_,
    endPieces_eq_nil_or _⟩
  have hpieces : ∀ piece ∈ (cut chars).take n, '\n' ∉ piece := fun piece hmem =>
    newline_notMem_of_mem_cut (List.mem_of_mem_take hmem)
  rw [count_endPieces hpieces]
  exact List.length_take_of_le (Nat.le_of_lt (List.getElem?_eq_some_iff.1 hpiece).1)

/-! ## Where lines start -/

/-- A line starts at the first byte in front of which there are as many line feeds as there are
lines in front of the line. -/
def StartsLine (text : String) (line start : Nat) : Prop :=
  newlinesBefore text start + 1 = line ∧ ∀ earlier < start, newlinesBefore text earlier + 1 < line

theorem startsLine_zero (text : String) : StartsLine text 1 0 :=
  ⟨rfl, fun _ hlt => absurd hlt (Nat.not_lt_zero _)⟩

/-- A line starts behind a line feed. -/
theorem startsLine_of_newline (front back : String) :
    StartsLine (front ++ "\n" ++ back) (front.toList.count '\n' + 2)
      (front ++ "\n").utf8ByteSize := by
  constructor
  · rw [newlinesBefore_append, String.toList_append, List.count_append]
    rfl
  · intro earlier hlt
    have hle : earlier ≤ front.utf8ByteSize := by
      rw [String.utf8ByteSize_append] at hlt
      exact Nat.le_of_lt_succ hlt
    have hmono := newlinesBefore_mono (front ++ ("\n" ++ back)) hle
    rw [newlinesBefore_append] at hmono
    rw [String.append_assoc]
    omega

theorem startsLine_of_getElem?_cut {text : String} (hpiece : (cut text.toList)[n]? = some piece) :
    StartsLine text (n + 1) (bytesBefore ((cut text.toList).take n)) := by
  obtain ⟨front, back, htext, hbytes, hcount, rfl | ⟨before, rfl⟩⟩ :=
    exists_front_of_getElem?_cut hpiece
  · obtain rfl : 0 = n := hcount
    exact startsLine_zero text
  · have hsplit : text = .ofList before ++ "\n" ++ .ofList (piece ++ back) := by
      rw [← String.toList_inj, htext]
      simp
    have hsize : (String.ofList before ++ "\n").utf8ByteSize = byteLength (before ++ ['\n']) := by
      rw [byteLength_eq, String.ofList_append]
    have hstarts := startsLine_of_newline (.ofList before) (.ofList (piece ++ back))
    rw [← hsplit, hsize, hbytes, String.toList_ofList] at hstarts
    rw [List.count_append] at hcount
    exact hcount ▸ hstarts

/-! ## Lines -/

/-- A piece that holds something is a line too, in its place. -/
theorem getElem?_linesOfPieces {pieces : List (List Char)} (hpiece : pieces[n]? = some piece)
    (hne : piece ≠ []) :
    ∃ line, (linesOfPieces pieces)[n]? = some line ∧ (line = piece ∨ line = dropReturn piece) := by
  induction pieces generalizing n with
  | nil => cases hpiece
  | cons first more ih =>
    cases more with
    | nil =>
      cases n with
      | zero =>
        obtain rfl := Option.some.inj hpiece
        exact ⟨first, by simp [linesOfPieces, hne], .inl rfl⟩
      | succ n => cases hpiece
    | cons second more =>
      rw [linesOfPieces]
      · cases n with
        | zero =>
          obtain rfl := Option.some.inj hpiece
          exact ⟨_, rfl, .inr rfl⟩
        | succ n => exact ih hpiece
      · exact fun h => nomatch h

/-- A line keeps whatever its piece holds in front of the end, unless that is a carriage return. -/
theorem exists_dropReturn_append (front back : List Char) {needle : List Char} (hne : needle ≠ [])
    (hreturn : '\r' ∉ needle) :
    ∃ back', dropReturn (front ++ needle ++ back) = front ++ needle ++ back' := by
  rw [dropReturn]
  split
  · next hlast =>
    rcases List.eq_nil_or_concat back with rfl | ⟨back', c, rfl⟩
    · -- The carriage return would be the last character of the needle.
      rw [List.append_nil, List.getLast?_append_of_ne_nil _ hne] at hlast
      exact absurd (List.mem_of_getLast? hlast) hreturn
    · exact ⟨back', by rw [List.concat_eq_append, ← List.append_assoc, List.dropLast_concat]⟩
  · exact ⟨back, rfl⟩

theorem exists_getElem?_lines {text : String} (hpiece : (cut text.toList)[n]? = some piece)
    (hne : piece ≠ []) :
    ∃ line, (lines text)[n]? = some (.ofList line) ∧ (line = piece ∨ line = dropReturn piece) := by
  obtain ⟨line, hline, hcases⟩ := getElem?_linesOfPieces hpiece hne
  refine ⟨line, ?_, hcases⟩
  rw [lines, List.getElem?_map, hline]
  rfl

end CrossReference.Text
