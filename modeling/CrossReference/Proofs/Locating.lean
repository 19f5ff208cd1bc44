import CrossReference.Generated.ClassText
import CrossReference.Proofs.Pieces
import Mathlib.Data.List.TakeWhile

/-!
# Positions found on lines

`Text.locate` looks for a text on one piece and counts the bytes in front. The byte it comes to is
the first one on the line at which the text stands (`Text.FirstBehind.standsAt_first`), and the line
of a class with that number exists and holds the text at the same column, unless the text reaches
the carriage return that ends the piece. `Text.lineStart` searches a piece for what is left of it
without the blanks in front; this occurs nowhere earlier on the piece, since it does not start with
a blank (`Text.firstBehind_blanks`). So positions and lines count in the same way
(`Text.locate_agrees_with_lines`).
-/

namespace CrossReference.Text

section

variable {needle chars front other : List Char} {n : Nat}

/-! ## First occurrences -/

/-- The needle stands behind `front`, and nowhere earlier. -/
structure FirstBehind (needle chars front : List Char) : Prop where
  stands : front ++ needle <+: chars
  first : ∀ {other : List Char}, other ++ needle <+: chars → front.length ≤ other.length

theorem FirstBehind.unique (h : FirstBehind needle chars front)
    (h' : FirstBehind needle chars other) : front = other := by
  have hfront : front <+: chars := (List.prefix_append _ _).trans h.stands
  have hother : other <+: chars := (List.prefix_append _ _).trans h'.stands
  have hle : front.length ≤ other.length := h.first h'.stands
  exact (List.prefix_of_prefix_length_le hfront hother hle).eq_of_length_le (h'.first h.stands)

theorem FirstBehind.cons {c : Char} (h : FirstBehind needle chars front)
    (hc : ¬ needle <+: c :: chars) : FirstBehind needle (c :: chars) (c :: front) where
  stands := List.cons_prefix_cons.2 ⟨rfl, h.stands⟩
  first {other} hother := by
    cases other with
    | nil => exact absurd hother hc
    | cons c' other => exact Nat.succ_le_succ (h.first (List.cons_prefix_cons.1 hother).2)

theorem exists_firstBehind_of_column? (h : column? needle chars = some n) :
    ∃ front, FirstBehind needle chars front ∧ byteLength front = n := by
  induction chars generalizing n with
  | nil =>
    rw [column?] at h
    split at h
    · next hempty =>
      obtain rfl := Option.some.inj h
      obtain rfl := List.isEmpty_iff.1 hempty
      exact ⟨[], ⟨List.prefix_rfl, fun _ => Nat.zero_le _⟩, rfl⟩
    · cases h
  | cons c rest ih =>
    rw [column?] at h
    split at h
    · next hprefix =>
      obtain rfl := Option.some.inj h
      exact ⟨[], ⟨List.isPrefixOf_iff_prefix.1 hprefix, fun _ => Nat.zero_le _⟩, rfl⟩
    · next hprefix =>
      obtain ⟨m, hm, rfl⟩ := Option.map_eq_some_iff.1 h
      obtain ⟨front, hfront, rfl⟩ := ih hm
      exact ⟨c :: front, hfront.cons fun hp => hprefix (List.isPrefixOf_iff_prefix.2 hp), rfl⟩

theorem exists_column?_iff : (∃ n, column? needle chars = some n) ↔ needle <:+: chars := by
  constructor
  · rintro ⟨n, hn⟩
    obtain ⟨front, hfront, -⟩ := exists_firstBehind_of_column? hn
    obtain ⟨back, hback⟩ := hfront.stands
    exact ⟨front, back, hback⟩
  · intro hinfix
    induction chars with
    | nil =>
      obtain rfl := List.infix_nil.1 hinfix
      exact ⟨0, rfl⟩
    | cons c rest ih =>
      rw [column?]
      split
      · exact ⟨0, rfl⟩
      · next hprefix =>
        rcases List.infix_cons_iff.1 hinfix with hp | hrest
        · exact absurd (List.isPrefixOf_iff_prefix.2 hp) hprefix
        · obtain ⟨m, hm⟩ := ih hrest
          exact ⟨_, by rw [hm]; rfl⟩

theorem FirstBehind.column?_eq (h : FirstBehind needle chars front) :
    column? needle chars = some (byteLength front) := by
  obtain ⟨back, hback⟩ := h.stands
  obtain ⟨n, hn⟩ := exists_column?_iff.2 ⟨front, back, hback⟩
  obtain ⟨other, hother, rfl⟩ := exists_firstBehind_of_column? hn
  rw [hn, h.unique hother]

/-- What does not start with a blank occurs nowhere in the blanks in front of it. -/
theorem firstBehind_blanks (rest : List Char) {blanks : List Char} {c : Char}
    (hblanks : ∀ b ∈ blanks, isBlank b = true) (hc : isBlank c = false) :
    FirstBehind (c :: rest) (blanks ++ c :: rest) blanks where
  stands := List.prefix_rfl
  first {other} hother := by
    by_contra hlt
    obtain ⟨back, hback⟩ := hother
    have hget : (blanks ++ c :: rest)[other.length]? = some c := by
      rw [← hback]
      simp
    rw [List.getElem?_append_left (Nat.lt_of_not_le hlt)] at hget
    have hblank := hblanks c (List.mem_of_getElem? hget)
    rw [hc] at hblank
    cases hblank

/-! ## First occurrences in the text -/

theorem byteLength_eq_zero (h : byteLength chars = 0) : chars = [] := by
  cases chars with
  | nil => rfl
  | cons c rest =>
    have hpos := c.utf8Size_pos
    rw [byteLength] at h
    omega

/-- Of two fronts of a text, the one with no more bytes is a front of the other one. -/
theorem prefix_of_byteLength_le (hfront : front <+: chars) (hother : other <+: chars)
    (hle : byteLength front ≤ byteLength other) : front <+: other := by
  rcases List.prefix_or_prefix_of_prefix hfront hother with hprefix | ⟨rest, rfl⟩
  · exact hprefix
  · rw [byteLength_append] at hle
    obtain rfl : rest = [] := byteLength_eq_zero (by omega)
    simp

/-- An occurrence in a text that does not start in front of a piece does not start in front of the
first occurrence on the piece either. -/
theorem FirstBehind.byteLength_le {piece before back front' back' : List Char}
    (h : FirstBehind needle piece front)
    (heq : front' ++ needle ++ back' = before ++ (piece ++ back))
    (hle : byteLength before ≤ byteLength front') :
    byteLength (before ++ front) ≤ byteLength front' := by
  obtain ⟨rest, hrest⟩ := h.stands
  have hbefore : before <+: front' := by
    refine prefix_of_byteLength_le (List.prefix_append _ (piece ++ back)) ?_ hle
    rw [← heq, List.append_assoc]
    exact List.prefix_append _ _
  obtain ⟨middle, rfl⟩ := hbefore
  have hinside : middle ++ needle ++ back' = piece ++ back := by
    rw [List.append_assoc, List.append_assoc] at heq
    rw [List.append_assoc]
    exact List.append_cancel_left heq
  rw [byteLength_append, byteLength_append]
  by_contra hshorter
  -- What stands in front of the occurrence is a part of `front`, so the occurrence ends on the
  -- piece.
  have hmiddle : middle <+: piece ++ back := by
    rw [← hinside, List.append_assoc]
    exact List.prefix_append _ _
  have hfront : front <+: piece ++ back := by
    rw [← hrest, List.append_assoc, List.append_assoc]
    exact List.prefix_append _ _
  have hfronts : middle <+: front := prefix_of_byteLength_le hmiddle hfront (by omega)
  have hneedle : middle ++ needle <+: piece ++ back := ⟨back', hinside⟩
  have honPiece : middle ++ needle <+: piece := by
    refine List.prefix_of_prefix_length_le hneedle (List.prefix_append _ _) ?_
    have hends := h.stands.length_le
    have hstarts := hfronts.length_le
    rw [List.length_append] at hends ⊢
    omega
  obtain rfl := hfronts.eq_of_length_le (h.first honPiece)
  exact hshorter (Nat.le_refl _)

end

section

variable {text needle : String} {line : UInt32} {piece front : List Char} {n : Nat}

/-- Where the needle stands first on a piece, it stands first on the line. -/
theorem FirstBehind.standsAt_first (hfirst : FirstBehind needle.toList piece front)
    (hneedle : needle ≠ "") (hpiece : (cut text.toList)[n]? = some piece) :
    let offset := bytesBefore ((cut text.toList).take n) + byteLength front
    StandsAt needle text offset ∧ newlinesBefore text offset = n ∧
      ∀ earlier < offset, newlinesBefore text earlier = n → ¬ StandsAt needle text earlier := by
  intro offset
  obtain ⟨before, back, htext, hbytes, hcount, -⟩ := exists_front_of_getElem?_cut hpiece
  obtain ⟨-, hstarts⟩ := startsLine_of_getElem?_cut hpiece
  obtain ⟨rest, hrest⟩ := hfirst.stands
  have hoffset : byteLength (before ++ front) = offset := by rw [byteLength_append, hbytes]
  have hsize : (String.ofList (before ++ front)).utf8ByteSize = offset := by
    rw [← byteLength_eq, hoffset]
  have hsplit : text = .ofList (before ++ front) ++ needle ++ .ofList (rest ++ back) := by
    rw [← String.toList_inj, htext, ← hrest]
    simp
  have hnewline : '\n' ∉ front := fun hmem =>
    newline_notMem_of_mem_cut (List.mem_of_getElem? hpiece)
      (hfirst.stands.subset (List.mem_append_left _ hmem))
  refine ⟨?_, ?_, fun earlier hlt hnewlines hstands => ?_⟩
  · rw [hsplit, ← hsize]
    exact standsAt_append _ _ _
  · rw [hsplit, ← hsize, String.append_assoc, newlinesBefore_append, String.toList_ofList,
      List.count_append, hcount, List.count_eq_zero.2 hnewline, Nat.add_zero]
  · obtain ⟨front', back', htext', hsize'⟩ := (standsAt_iff hneedle).1 hstands
    have hearlier : byteLength front'.toList = earlier := by
      rw [byteLength_eq, String.ofList_toList, hsize']
    have hchars : front'.toList ++ needle.toList ++ back'.toList = before ++ (piece ++ back) := by
      rw [← htext, htext', String.toList_append, String.toList_append]
    -- In front of the line there are fewer line feeds.
    have hle : byteLength before ≤ byteLength front'.toList := by
      by_contra hnot
      have hfewer := hstarts earlier (by omega)
      omega
    have hnot := hfirst.byteLength_le hchars hle
    omega

/-! ## Answers -/

theorem toNat_sub_one_of_eq (hn : line.toNat = n + 1) : line ≠ 0 ∧ line.toNat - 1 = n := by
  refine ⟨?_, by omega⟩
  rintro rfl
  exact Nat.noConfusion hn

theorem piece?_eq_some_iff {start : Nat} :
    piece? text line = some (start, piece) ↔
      ∃ n, line.toNat = n + 1 ∧ (cut text.toList)[n]? = some piece ∧
        start = bytesBefore ((cut text.toList).take n) := by
  rw [piece?]
  constructor
  · intro h
    split at h
    · cases h
    · next hline =>
      obtain ⟨piece', hpiece, heq⟩ := Option.map_eq_some_iff.1 h
      obtain ⟨hstart, rfl⟩ := Prod.mk.inj heq
      have hpos : line.toNat ≠ 0 := fun hzero => hline (UInt32.toNat_inj.1 hzero)
      exact ⟨line.toNat - 1, by omega, hpiece, hstart.symm⟩
  · rintro ⟨n, hn, hpiece, rfl⟩
    obtain ⟨hline, hbefore⟩ := toNat_sub_one_of_eq hn
    rw [if_neg hline, hbefore]
    exact Option.map_eq_some_iff.2 ⟨piece, hpiece, rfl⟩

theorem locate_eq_some_iff {position : Position} :
    locate text line needle = some position ↔
      ∃ n piece front, line.toNat = n + 1 ∧ (cut text.toList)[n]? = some piece ∧
        FirstBehind needle.toList piece front ∧
        position = ⟨.ofNat (bytesBefore ((cut text.toList).take n) + byteLength front), line⟩ := by
  simp only [locate, Option.bind_eq_bind, Option.bind_eq_some_iff, Option.pure_def,
    Option.some.injEq]
  constructor
  · rintro ⟨⟨start, piece⟩, hstart, column, hcolumn, rfl⟩
    obtain ⟨n, hn, hpiece, rfl⟩ := piece?_eq_some_iff.1 hstart
    obtain ⟨front, hfirst, rfl⟩ := exists_firstBehind_of_column? hcolumn
    exact ⟨n, piece, front, hn, hpiece, hfirst, rfl⟩
  · rintro ⟨n, piece, front, hn, hpiece, hfirst, rfl⟩
    exact ⟨_, piece?_eq_some_iff.2 ⟨n, hn, hpiece, rfl⟩, _, hfirst.column?_eq, rfl⟩

/-- A text is found on a line exactly if the piece with the number of the line holds it. -/
theorem exists_locate_iff :
    (∃ position, locate text line needle = some position) ↔
      ∃ n piece, line.toNat = n + 1 ∧ (cut text.toList)[n]? = some piece ∧
        needle.toList <:+: piece := by
  constructor
  · rintro ⟨position, h⟩
    obtain ⟨n, piece, front, hn, hpiece, hfirst, -⟩ := locate_eq_some_iff.1 h
    obtain ⟨back, hback⟩ := hfirst.stands
    exact ⟨n, piece, hn, hpiece, front, back, hback⟩
  · rintro ⟨n, piece, hn, hpiece, hinfix⟩
    obtain ⟨column, hcolumn⟩ := exists_column?_iff.2 hinfix
    obtain ⟨front, hfirst, -⟩ := exists_firstBehind_of_column? hcolumn
    exact ⟨_, locate_eq_some_iff.2 ⟨n, piece, front, hn, hpiece, hfirst, rfl⟩⟩

/-- The line on which a text was found is a line of the class, and it holds the text at
the same column. -/
theorem exists_lineAt? (hneedle : needle ≠ "") (hn : line.toNat = n + 1)
    (hpiece : (cut text.toList)[n]? = some piece) (hfirst : FirstBehind needle.toList piece front) :
    line.toNat ≤ (lines text).length ∧
      ∃ l, lineAt? (lines text) line = some l ∧
        ('\r' ∉ needle.toList → StandsAt needle l (byteLength front)) := by
  obtain ⟨back, hback⟩ := hfirst.stands
  have hchars : needle.toList ≠ [] := fun hnil => hneedle (String.toList_eq_nil_iff.1 hnil)
  have hne : piece ≠ [] := by
    rintro rfl
    simp_all
  obtain ⟨l, hl, hcases⟩ := exists_getElem?_lines hpiece hne
  obtain ⟨hline, hbefore⟩ := toNat_sub_one_of_eq hn
  refine ⟨?_, .ofList l, ?_, fun hreturn => ?_⟩
  · rw [hn]
    exact (List.getElem?_eq_some_iff.1 hl).1
  · rw [lineAt?, if_neg hline, hbefore]
    exact hl
  · have hkept : ∃ back', l = front ++ needle.toList ++ back' := by
      rcases hcases with rfl | rfl
      · exact ⟨back, hback.symm⟩
      · obtain ⟨back', hback'⟩ := exists_dropReturn_append front back hchars hreturn
        exact ⟨back', by rw [← hback, hback']⟩
    obtain ⟨back', rfl⟩ := hkept
    rw [String.ofList_append, String.ofList_append, String.ofList_toList, byteLength_eq]
    exact standsAt_append _ _ _

/-- On a line that is not blank, the search for its start comes to the first character that
is no blank. -/
theorem lineStart_eq (hn : line.toNat = n + 1) (hpiece : (cut text.toList)[n]? = some piece)
    (hvisible : ∃ c ∈ piece, isBlank c = false) :
    ∃ blanks c rest, piece = blanks ++ c :: rest ∧ (∀ b ∈ blanks, isBlank b = true) ∧
      isBlank c = false ∧ lineStart text line =
        some ⟨.ofNat (bytesBefore ((cut text.toList).take n) + byteLength blanks), line⟩ := by
  have hsplit : piece = piece.takeWhile isBlank ++ piece.dropWhile isBlank :=
    (List.takeWhile_append_dropWhile).symm
  have hblanks : ∀ b ∈ piece.takeWhile isBlank, isBlank b = true := fun b hb =>
    List.mem_takeWhile_imp hb
  have hstart : lineStart text line =
      locate text line (.ofList (piece.dropWhile isBlank)) := by
    rw [lineStart, piece?_eq_some_iff.2 ⟨n, hn, hpiece, rfl⟩]
    rfl
  cases htrimmed : piece.dropWhile isBlank with
  | nil =>
    obtain ⟨c, hmem, hc⟩ := hvisible
    have hall := List.dropWhile_eq_nil_iff.1 htrimmed c hmem
    rw [hc] at hall
    cases hall
  | cons c rest =>
    have hc : isBlank c = false := by
      have hhead := List.head?_dropWhile_not isBlank piece
      rw [htrimmed] at hhead
      exact hhead
    rw [htrimmed] at hsplit hstart
    refine ⟨_, c, rest, hsplit, hblanks, hc, ?_⟩
    rw [hstart, locate_eq_some_iff]
    refine ⟨n, piece, _, hn, hpiece, ?_, rfl⟩
    have hfirst := firstBehind_blanks rest hblanks hc
    rw [← hsplit] at hfirst
    rw [String.toList_ofList]
    exact hfirst

end

/-- A text is found on a line of a code exactly if the piece of the code with that number, counted
from 1 and cut at line feeds, holds it. The position that is given then is the line together with
the first byte on it at which the bytes of the text stand; in front of this byte are as many line
feeds as lines. The code of a class with this text has the line, and unless a carriage return is
looked for, the line holds the text in the column in which the piece does. If a piece is not blank,
the start of its line is the byte at which its first character stands that is no blank. Positions
hold bytes as 64-bit numbers, which are the bytes counted if the code has fewer than 2^64. -/
theorem locate_agrees_with_lines (text : String) (line : UInt32) :
    (∀ needle, needle ≠ "" →
      ((∃ position, locate text line needle = some position) ↔
        ∃ n piece, line.toNat = n + 1 ∧ (text.toList.splitOn '\n')[n]? = some piece ∧
          needle.toList <:+: piece) ∧
      ∀ position, locate text line needle = some position → ∃ start column,
        position = ⟨.ofNat (start + column), line⟩ ∧
        (text.utf8ByteSize < UInt64.size → position.offset.toNat = start + column) ∧
        StandsAt needle text (start + column) ∧
        newlinesBefore text (start + column) + 1 = line.toNat ∧
        (∀ earlier < start + column, newlinesBefore text earlier + 1 = line.toNat →
          ¬ StandsAt needle text earlier) ∧
        StartsLine text line.toNat start ∧
        ∀ subject occurrences layout,
          let lines := (ClassText.ofCode subject text occurrences layout).lines
          line.toNat ≤ lines.length ∧ ∃ l, lineAt? lines line = some l ∧
            ('\r' ∉ needle.toList → StandsAt needle l column)) ∧
    ∀ n piece, line.toNat = n + 1 → (text.toList.splitOn '\n')[n]? = some piece →
      (∃ c ∈ piece, isBlank c = false) →
      ∃ start blanks c rest, StartsLine text line.toNat start ∧ piece = blanks ++ c :: rest ∧
        (∀ b ∈ blanks, isBlank b = true) ∧ isBlank c = false ∧
        lineStart text line = some ⟨.ofNat (start + (bytes (.ofList blanks)).length), line⟩ := by
  rw [← cut_eq_splitOn]
  refine ⟨fun needle hneedle => ⟨exists_locate_iff, fun position h => ?_⟩,
    fun n piece hn hpiece hvisible => ?_⟩
  · obtain ⟨n, piece, front, hn, hpiece, hfirst, rfl⟩ := locate_eq_some_iff.1 h
    obtain ⟨hstands, hnewlines, hnone⟩ := hfirst.standsAt_first hneedle hpiece
    refine ⟨_, byteLength front, rfl, fun hsize => ?_, hstands, by omega,
      fun earlier hlt hline => ?_, ?_,
      fun subject occurrences layout => exists_lineAt? hneedle hn hpiece hfirst⟩
    · refine UInt64.toNat_ofNat_of_lt' (Nat.lt_of_le_of_lt ?_ hsize)
      have hends := hstands.length_le
      have hbytes : 0 < (bytes needle).length := by
        rw [length_bytes]
        exact Nat.pos_of_ne_zero fun hzero => hneedle (String.utf8ByteSize_eq_zero_iff.1 hzero)
      rw [List.length_drop, length_bytes text] at hends
      omega
    · exact hnone earlier hlt (by omega)
    · rw [hn]
      exact startsLine_of_getElem?_cut hpiece
  · obtain ⟨blanks, c, rest, hsplit, hblanks, hc, hstart⟩ := lineStart_eq hn hpiece hvisible
    refine ⟨_, blanks, c, rest, hn ▸ startsLine_of_getElem?_cut hpiece, hsplit, hblanks, hc, ?_⟩
    rw [hstart, length_bytes, byteLength_eq]

/-- Letters of two bytes, a carriage return in front of the line feed, and no line feed
at the end. -/
theorem locate_agrees_with_lines_mixed :
    let text := "é x\r\n\tßy"
    locate text 2 "y" = some ⟨9, 2⟩ ∧ StandsAt "y" text 9 ∧
      (∀ earlier < 9, newlinesBefore text earlier + 1 = 2 → ¬ StandsAt "y" text earlier) ∧
      locate text 1 "x" = some ⟨3, 1⟩ ∧
      (∃ l, lineAt? (ClassText.ofCode ⟨0⟩ text ∅ ∅).lines 1 = some l ∧ StandsAt "x" l 3) ∧
      (¬ ∃ position, locate text 2 "x" = some position) ∧
      ∃ start blanks c rest, StartsLine text 2 start ∧ ['\t', 'ß', 'y'] = blanks ++ c :: rest ∧
        (∀ b ∈ blanks, isBlank b = true) ∧ isBlank c = false ∧
        lineStart text 2 = some ⟨.ofNat (start + (bytes (.ofList blanks)).length), 2⟩ := by
  intro text
  have hsize : text.utf8ByteSize < UInt64.size := by decide +kernel
  have hy : locate text 2 "y" = some ⟨9, 2⟩ := by decide +kernel
  have hx : locate text 1 "x" = some ⟨3, 1⟩ := by decide +kernel
  have hpiece : (text.toList.splitOn '\n')[1]? = some ['\t', 'ß', 'y'] := by decide +kernel
  have hvisible : ∃ c ∈ ['\t', 'ß', 'y'], isBlank c = false := ⟨'ß', by decide, by decide⟩
  obtain ⟨hfirst, -⟩ := locate_agrees_with_lines text 1
  obtain ⟨hsecond, hstart⟩ := locate_agrees_with_lines text 2
  obtain ⟨-, hposition⟩ := hsecond "y" (by decide)
  obtain ⟨start, column, -, hoffset, hstands, -, hnone, -⟩ := hposition _ hy
  obtain ⟨start', column', -, hoffset', -, -, -, hstarts', hlines⟩ :=
    (hfirst "x" (by decide)).2 _ hx
  have hsum : start + column = 9 := (hoffset hsize).symm
  have hsum' : start' + column' = 3 := (hoffset' hsize).symm
  -- The first line starts at the first byte.
  have hzero : start' = 0 := by
    by_contra hne
    have hless := hstarts'.2 0 (Nat.pos_of_ne_zero hne)
    exact absurd hless (by decide)
  obtain ⟨-, l, hl, hkept⟩ := hlines ⟨0⟩ ∅ ∅
  have hcolumn : column' = 3 := by omega
  rw [hsum] at hstands hnone
  refine ⟨hy, hstands, hnone, hx, ⟨l, hl, hcolumn ▸ hkept (by decide)⟩, fun hfound => ?_,
    hstart 1 _ rfl hpiece hvisible⟩
  obtain ⟨n, piece, hn, hpiece', hinfix⟩ := (hsecond "x" (by decide)).1.1 hfound
  obtain rfl : n = 1 := Nat.succ.inj hn.symm
  obtain rfl := Option.some.inj (hpiece.symm.trans hpiece')
  exact absurd hinfix (by decide)

end CrossReference.Text
