import CrossReference.Json.Reader
import CrossReference.Json.Writer
import Mathlib.Data.List.Basic
import Mathlib.Tactic.SplitIfs

/-!
# Written JSON is read back

The reader takes the text of a value off the front of what it reads and leaves the rest, as long as
no number goes on there (`Json.ReadsBack`). This holds of every literal, of natural numbers, and of
objects whose members have it, so of every value built from these. Such a value is what its own text
spells.

## Main statements

- `Json.readString_writeString` — every string literal is read back, escapes included
- `Json.readNumeral_toDigits` — natural numbers are read back
- `Json.readsBack_object` — members are read back one by one
- `Json.ReadsBack.parse?_render` — a value that is read back is what its text spells
-/

namespace CrossReference.Json

/-! ## Strings -/

theorem hexValue?_hexDigit : ∀ n < 16, hexValue? (hexDigit n) = some n := by decide

/-- A piece denotes a character if it stands for it in front of any other pieces. -/
def Piece.Denotes (piece : Piece) (c : Char) : Prop :=
  ∀ pieces, textOf? (piece :: pieces) = (textOf? pieces).map (c :: ·)

theorem Piece.char_denotes (c : Char) : (Piece.char c).Denotes c := fun _ => textOf?.eq_2 c _

/-- A unit that is no half of a surrogate pair is not joined with the next one. -/
theorem Piece.unit_denotes {c : Char} (h : c.toNat < 0xD800) : (Piece.unit c.toNat).Denotes c := by
  intro pieces
  have hhigh : isHighSurrogate c.toNat = false := by
    simp only [isHighSurrogate, Bool.and_eq_false_iff, decide_eq_false_iff_not]
    omega
  have hlow : isLowSurrogate c.toNat = false := by
    simp only [isLowSurrogate, Bool.and_eq_false_iff, decide_eq_false_iff_not]
    omega
  cases pieces with
  | nil => simp [textOf?, hhigh, hlow]
  | cons next rest =>
    cases next with
    | char _ => simp [textOf?, hhigh, hlow]
    | unit _ => simp [textOf?, hhigh, hlow]

theorem readPieces_letter {letter c : Char} (h : escaped? letter = some c) (rest : List Char) :
    readPieces ('\\' :: letter :: rest) =
      (readPieces rest).map fun read => (.char c :: read.1, read.2) := by
  have hletter : letter ≠ 'u' := by
    rintro rfl
    cases h
  rw [readPieces.eq_4 _ _ fun _ _ _ _ _ heq _ => hletter heq, h]
  cases readPieces rest <;> rfl

theorem readPieces_unit {a b c d : Char} {n : Nat} (h : hexValue4? a b c d = some n)
    (rest : List Char) :
    readPieces ('\\' :: 'u' :: a :: b :: c :: d :: rest) =
      (readPieces rest).map fun read => (.unit n :: read.1, read.2) := by
  rw [readPieces, h]
  cases readPieces rest <;> rfl

theorem readPieces_plain {c : Char} (hcontrol : 0x20 ≤ c.toNat) (hquote : c ≠ '"')
    (hslash : c ≠ '\\') (rest : List Char) :
    readPieces (c :: rest) = (readPieces rest).map fun read => (.char c :: read.1, read.2) := by
  rw [readPieces.eq_5 _ _ hquote (fun _ _ _ _ _ heq _ => hslash heq) (fun _ _ heq _ => hslash heq),
    if_neg (by simp only [hslash, or_false]; omega)]
  cases readPieces rest <;> rfl

/-- A character is written as a letter that escapes it, by its number, or as itself. -/
theorem writeChar_cases (c : Char) :
    (∃ letter, escaped? letter = some c ∧ writeChar c = ['\\', letter]) ∨
    (c.toNat < 0x20 ∧
      writeChar c = ['\\', 'u', '0', '0', hexDigit (c.toNat / 16), hexDigit (c.toNat % 16)]) ∨
    (0x20 ≤ c.toNat ∧ c ≠ '"' ∧ c ≠ '\\' ∧ writeChar c = [c]) := by
  rw [writeChar]
  split_ifs with hquote hslash hline hreturn htab hback hfeed hcontrol
  · exact .inl ⟨'"', congrArg some hquote.symm, rfl⟩
  · exact .inl ⟨'\\', congrArg some hslash.symm, rfl⟩
  · exact .inl ⟨'n', congrArg some hline.symm, rfl⟩
  · exact .inl ⟨'r', congrArg some hreturn.symm, rfl⟩
  · exact .inl ⟨'t', congrArg some htab.symm, rfl⟩
  · exact .inl ⟨'b', congrArg some hback.symm, rfl⟩
  · exact .inl ⟨'f', congrArg some hfeed.symm, rfl⟩
  · exact .inr (.inl ⟨hcontrol, rfl⟩)
  · exact .inr (.inr ⟨Nat.not_lt.1 hcontrol, hquote, hslash, rfl⟩)

/-- The reader takes off what is written for a character as one piece, which denotes it. -/
theorem exists_readPieces_writeChar (c : Char) :
    ∃ piece : Piece, piece.Denotes c ∧ ∀ rest, readPieces (writeChar c ++ rest) =
      (readPieces rest).map fun read => (piece :: read.1, read.2) := by
  obtain ⟨letter, hletter, heq⟩ | ⟨hcontrol, heq⟩ | ⟨hcontrol, hquote, hslash, heq⟩ :=
    writeChar_cases c
  · rw [heq]
    exact ⟨.char c, Piece.char_denotes c, readPieces_letter hletter⟩
  · have hnumber : hexValue4? '0' '0' (hexDigit (c.toNat / 16)) (hexDigit (c.toNat % 16)) =
        some c.toNat := by
      have hzero : hexValue? '0' = some 0 := by decide
      rw [hexValue4?, hzero, hexValue?_hexDigit _ (by omega), hexValue?_hexDigit _ (by omega)]
      exact congrArg some (by omega)
    rw [heq]
    exact ⟨.unit c.toNat, Piece.unit_denotes (by omega), readPieces_unit hnumber⟩
  · rw [heq]
    exact ⟨.char c, Piece.char_denotes c, readPieces_plain hcontrol hquote hslash⟩

theorem exists_readPieces_flatMap_writeChar (cs rest : List Char) :
    ∃ pieces, readPieces (cs.flatMap writeChar ++ '"' :: rest) = some (pieces, rest) ∧
      textOf? pieces = some cs := by
  induction cs with
  | nil => exact ⟨[], rfl, rfl⟩
  | cons c cs ih =>
    obtain ⟨pieces, hread, htext⟩ := ih
    obtain ⟨piece, hdenotes, hpiece⟩ := exists_readPieces_writeChar c
    refine ⟨piece :: pieces, ?_, ?_⟩
    · rw [List.flatMap_cons, List.append_assoc, hpiece, hread]
      rfl
    · rw [hdenotes, htext]
      rfl

/-- A string literal is read back, also one that denotes no text. -/
theorem readString_writeString (text : Option String) (rest : List Char) :
    ∃ body, writeString text ++ rest = '"' :: body ∧ readString body = some (text, rest) := by
  cases text with
  | none =>
    have hunit : hexValue4? 'd' '8' '0' '0' = some 0xD800 := by decide
    refine ⟨'\\' :: 'u' :: 'd' :: '8' :: '0' :: '0' :: '"' :: rest, rfl, ?_⟩
    rw [readString, readPieces_unit hunit, readPieces]
    rfl
  | some text =>
    obtain ⟨pieces, hread, htext⟩ := exists_readPieces_flatMap_writeChar text.toList rest
    refine ⟨text.toList.flatMap writeChar ++ '"' :: rest, ?_, ?_⟩
    · simp [writeString]
    · rw [readString, hread]
      show some ((textOf? pieces).map String.ofList, rest) = _
      rw [htext, Option.map_some, String.ofList_toList]

/-! ## Numbers -/

/-- A number that stands in front of the characters ends there. -/
def NumberEnds (rest : List Char) : Prop :=
  ∀ c ∈ rest.head?, c.isDigit = false ∧ c ≠ '.' ∧ c ≠ 'e' ∧ c ≠ 'E'

theorem numberEnds_cons {c : Char} (h : c.isDigit = false ∧ c ≠ '.' ∧ c ≠ 'e' ∧ c ≠ 'E')
    (cs : List Char) : NumberEnds (c :: cs) := fun _ hc => Option.some.inj hc ▸ h

theorem readDigits_append {digits rest : List Char} (hne : digits ≠ [])
    (hdigits : ∀ c ∈ digits, c.isDigit = true) (hrest : ∀ c ∈ rest.head?, c.isDigit = false) :
    readDigits (digits ++ rest) = some (digits, rest) := by
  have htake : rest.takeWhile Char.isDigit = [] := by
    cases rest with
    | nil => rfl
    | cons c cs => exact List.takeWhile_cons_of_neg (by simp [hrest c rfl])
  have hdrop : rest.dropWhile Char.isDigit = rest := by
    cases rest with
    | nil => rfl
    | cons c cs => exact List.dropWhile_cons_of_neg (by simp [hrest c rfl])
  rw [readDigits, List.takeWhile_append_of_pos hdigits, List.dropWhile_append_of_pos hdigits,
    htake, hdrop, List.append_nil, if_neg (by simpa using hne)]

theorem exists_cons_toDigits (n : Nat) :
    ∃ d ds, Nat.toDigits 10 n = d :: ds ∧ d.isDigit = true := by
  obtain ⟨d, ds, hds⟩ := List.exists_cons_of_ne_nil (Nat.toDigits_ne_nil (n := n) (b := 10))
  have hmem : d ∈ Nat.toDigits 10 n := hds ▸ List.mem_cons_self
  exact ⟨d, ds, hds, Nat.isDigit_of_mem_toDigits (by decide) (by decide) hmem⟩

theorem eq_zero_of_digitChar_eq : ∀ n < 10, n.digitChar = '0' → n = 0 := by decide

/-- Only zero is written with a zero in front. -/
theorem eq_zero_of_head?_toDigits {n : Nat} (h : (Nat.toDigits 10 n).head? = some '0') : n = 0 := by
  induction n using Nat.strongRecOn with
  | ind n ih =>
    rw [Nat.toDigits_eq_if (by decide)] at h
    split at h
    · next hlt => exact eq_zero_of_digitChar_eq n hlt (Option.some.inj h)
    · next hge =>
      -- The first digit is that of a tenth of the number, which is not zero.
      rw [List.head?_append_of_ne_nil _ Nat.toDigits_ne_nil] at h
      have htenth : n / 10 = 0 := ih (n / 10) (by omega) h
      omega

theorem readWhole_toDigits (n : Nat) {rest : List Char}
    (hrest : ∀ c ∈ rest.head?, c.isDigit = false) :
    readWhole (Nat.toDigits 10 n ++ rest) = some (n, rest) := by
  have hdigits : ∀ c ∈ Nat.toDigits 10 n, c.isDigit = true := fun c hc =>
    Nat.isDigit_of_mem_toDigits (by decide) (by decide) hc
  have hvalue : digitsValue (Nat.toDigits 10 n) = n :=
    Nat.ofDigitChars_toDigits (by decide) (by decide)
  rw [readWhole, readDigits_append Nat.toDigits_ne_nil hdigits hrest]
  show (if _ then _ else _) = _
  rw [if_neg fun h => h.2 (eq_zero_of_head?_toDigits h.1 ▸ rfl), hvalue]
  rfl

theorem readNumeral_toDigits (n : Nat) {rest : List Char} (hrest : NumberEnds rest) :
    readNumeral (Nat.toDigits 10 n ++ rest) = some (⟨false, n, []⟩, rest) := by
  have hwhole := readWhole_toDigits n fun c hc => (hrest c hc).1
  have hfraction : readFraction rest = some ([], rest) := by
    cases rest with
    | nil => rfl
    | cons c cs => rw [readFraction.eq_2 _ fun _ heq => (hrest c rfl).2.1 (List.cons.inj heq).1]
  have hexponent : readExponent rest = some ([], rest) := by
    cases rest with
    | nil => rfl
    | cons c cs => rw [readExponent, if_neg (not_or.2 (hrest c rfl).2.2)]
  have hsign : ∀ tail, Nat.toDigits 10 n ++ rest ≠ '-' :: tail := by
    intro tail heq
    obtain ⟨d, ds, hds, hd⟩ := exists_cons_toDigits n
    rw [hds] at heq
    obtain rfl : d = '-' := (List.cons.inj heq).1
    cases hd
  rw [readNumeral.eq_2 _ hsign, hwhole]
  show (readFraction rest).bind _ = _
  rw [hfraction]
  show (readExponent rest).bind _ = _
  rw [hexponent]
  rfl

/-! ## Values -/

theorem skipSpaces_cons {c : Char} (h : isSpace c = false) (cs : List Char) :
    skipSpaces (c :: cs) = c :: cs :=
  List.dropWhile_cons_of_neg (by simp [h])

theorem isSpace_of_isDigit {c : Char} (h : c.isDigit = true) : isSpace c = false := by
  rw [← Bool.not_eq_true]
  intro hspace
  simp only [isSpace, Bool.or_eq_true, beq_iff_eq] at hspace
  obtain ((rfl | rfl) | rfl) | rfl := hspace <;> cases h

theorem write_ne_nil (j : Json) : j.write ≠ [] := by
  cases j with
  | null => exact List.cons_ne_nil _ _
  | bool b => cases b <;> exact List.cons_ne_nil _ _
  | number n =>
    rw [write, writeNumeral]
    cases n.negative with
    | true => exact List.cons_ne_nil _ _
    | false => exact List.append_ne_nil_of_left_ne_nil Nat.toDigits_ne_nil _
  | string text => cases text <;> exact List.cons_ne_nil _ _
  | array items =>
    rw [write]
    exact List.cons_ne_nil _ _
  | object members =>
    rw [write]
    exact List.cons_ne_nil _ _

/-- The text of the value is taken off the front of any text in which no number goes on behind it.
The fuel for this is less than twice the length of the text. -/
def ReadsBack (j : Json) : Prop :=
  ∀ fuel rest, 2 * j.write.length ≤ fuel + 1 → NumberEnds rest →
    readValue fuel (j.write ++ rest) = some (j, rest)

/-- To read a value back it is enough to do so with fuel for one step more than its parts need. -/
theorem ReadsBack.of_succ {j : Json}
    (h : ∀ fuel rest, 2 * j.write.length ≤ fuel + 2 → NumberEnds rest →
      readValue (fuel + 1) (j.write ++ rest) = some (j, rest)) : j.ReadsBack := by
  intro fuel rest hfuel hrest
  cases fuel with
  | zero =>
    have hpos : 0 < j.write.length := List.length_pos_iff.2 j.write_ne_nil
    omega
  | succ fuel => exact h fuel rest hfuel hrest

@[simp] theorem readsBack_null : null.ReadsBack :=
  .of_succ fun fuel rest _ _ => by
    rw [readValue]
    rfl

@[simp] theorem readsBack_bool (b : Bool) : (bool b).ReadsBack :=
  .of_succ fun fuel rest _ _ => by
    rw [readValue]
    cases b <;> rfl

theorem readsBack_string (text : Option String) : (string text).ReadsBack := by
  refine .of_succ fun fuel rest _ _ => ?_
  obtain ⟨body, hbody, hread⟩ := readString_writeString text rest
  rw [write, hbody, readValue]
  show (readString body).map _ = _
  rw [hread]
  rfl

/-- What starts with a digit is read as a number. -/
theorem readValue_of_isDigit {d : Char} (hd : d.isDigit = true) (fuel : Nat) (cs : List Char) :
    readValue (fuel + 1) (d :: cs) =
      (readNumeral (d :: cs)).map fun read => (number read.1, read.2) := by
  rw [readValue, skipSpaces_cons (isSpace_of_isDigit hd)]
  split
  case h_7 => rfl
  all_goals
    next heq =>
    obtain rfl := (List.cons.inj heq).1
    cases hd

@[simp] theorem readsBack_ofNat (n : Nat) : (ofNat n).ReadsBack := by
  refine .of_succ fun fuel rest _ hrest => ?_
  have hwrite : (ofNat n).write = Nat.toDigits 10 n := by simp [ofNat, write, writeNumeral]
  obtain ⟨d, ds, hds, hd⟩ := exists_cons_toDigits n
  have hread := readNumeral_toDigits n hrest
  rw [hds] at hread
  rw [hwrite, hds, List.cons_append, readValue_of_isDigit hd, ← List.cons_append, hread]
  rfl

/-! ## Objects -/

theorem readMembers_last (name : Option String) {value : Json} (hvalue : value.ReadsBack)
    {fuel : Nat} (hfuel : 2 * value.write.length ≤ fuel + 1) (rest : List Char) :
    readMembers (fuel + 1) (writeString name ++ ':' :: (value.write ++ '}' :: rest)) =
      some ([(name, value)], rest) := by
  obtain ⟨body, hname, hread⟩ := readString_writeString name (':' :: (value.write ++ '}' :: rest))
  have hcolon : ∀ cs, skipSpaces (':' :: cs) = ':' :: cs := skipSpaces_cons (by decide)
  have hbehind := hvalue fuel _ hfuel (numberEnds_cons (c := '}') (by decide) rest)
  rw [hname, readMembers, skipSpaces_cons (by decide)]
  simp only [hread, hcolon, hbehind]
  rfl

theorem readMembers_next (name : Option String) {value : Json} (hvalue : value.ReadsBack)
    {fuel : Nat} (hfuel : 2 * value.write.length ≤ fuel + 1) (rest : List Char) :
    readMembers (fuel + 1) (writeString name ++ ':' :: (value.write ++ ',' :: rest)) =
      (readMembers fuel rest).map fun read => ((name, value) :: read.1, read.2) := by
  obtain ⟨body, hname, hread⟩ := readString_writeString name (':' :: (value.write ++ ',' :: rest))
  have hcolon : ∀ cs, skipSpaces (':' :: cs) = ':' :: cs := skipSpaces_cons (by decide)
  have hbehind := hvalue fuel _ hfuel (numberEnds_cons (c := ',') (by decide) rest)
  rw [hname, readMembers, skipSpaces_cons (by decide)]
  simp only [hread, hcolon, hbehind]
  rfl

theorem readMembers_writeMembers {members : List (Option String × Json)} (hne : members ≠ [])
    (hmembers : ∀ m ∈ members, m.2.ReadsBack) {fuel : Nat}
    (hfuel : 2 * (writeMembers members).length ≤ fuel) (rest : List Char) :
    readMembers fuel (writeMembers members ++ '}' :: rest) = some (members, rest) := by
  induction members generalizing fuel with
  | nil => exact absurd rfl hne
  | cons member later ih =>
    obtain ⟨name, value⟩ := member
    obtain ⟨hvalue, hlater⟩ : value.ReadsBack ∧ ∀ m ∈ later, m.2.ReadsBack :=
      List.forall_mem_cons.1 hmembers
    cases later with
    | nil =>
      rw [writeMembers, List.length_append, List.length_cons] at hfuel
      obtain ⟨fuel, rfl⟩ : ∃ n, fuel = n + 1 := ⟨fuel - 1, by omega⟩
      rw [writeMembers, List.append_assoc, List.cons_append]
      exact readMembers_last name hvalue (by omega) rest
    | cons next more =>
      -- Reading the value takes one step, and its comma pays for two; the name and the colon leave
      -- fuel over.
      rw [writeMembers.eq_3 _ _ _ (List.cons_ne_nil _ _)] at hfuel ⊢
      simp only [List.length_append, List.length_cons] at hfuel
      obtain ⟨fuel, rfl⟩ : ∃ n, fuel = n + 1 := ⟨fuel - 1, by omega⟩
      rw [List.append_assoc, List.cons_append, List.append_assoc, List.cons_append,
        readMembers_next name hvalue (by omega), ih (List.cons_ne_nil _ _) hlater (by omega)]
      rfl

theorem exists_cons_writeMembers (member : Option String × Json)
    (later : List (Option String × Json)) : ∃ cs, writeMembers (member :: later) = '"' :: cs := by
  obtain ⟨name, value⟩ := member
  have hname : ∃ cs, writeString name = '"' :: cs := by
    cases name with
    | none => exact ⟨_, rfl⟩
    | some text => exact ⟨_, rfl⟩
  obtain ⟨cs, hname⟩ := hname
  cases later with
  | nil => exact ⟨_, by rw [writeMembers, hname, List.cons_append]⟩
  | cons next more =>
    exact ⟨_, by rw [writeMembers.eq_3 _ _ _ (List.cons_ne_nil _ _), hname, List.cons_append]⟩

theorem readsBack_object {members : List (Option String × Json)}
    (hmembers : ∀ m ∈ members, m.2.ReadsBack) : (object members).ReadsBack := by
  refine .of_succ fun fuel rest hfuel _ => ?_
  rw [write] at hfuel ⊢
  cases members with
  | nil =>
    rw [readValue]
    rfl
  | cons member later =>
    rw [List.length_cons, List.length_append] at hfuel
    have hfits : 2 * (writeMembers (member :: later)).length ≤ fuel := by omega
    have hread := readMembers_writeMembers (List.cons_ne_nil _ _) hmembers hfits rest
    obtain ⟨cs, hwrite⟩ := exists_cons_writeMembers member later
    have htext : '{' :: (writeMembers (member :: later) ++ ['}']) ++ rest =
        '{' :: '"' :: (cs ++ '}' :: rest) := by
      simp [hwrite]
    rw [hwrite, List.cons_append] at hread
    rw [htext, readValue]
    show (readMembers fuel ('"' :: (cs ++ '}' :: rest))).map _ = _
    rw [hread]
    rfl

@[simp] theorem readsBack_ofString (text : String) : (ofString text).ReadsBack :=
  readsBack_string (some text)

/-- An object with fields of its own names is read back if the fields are. -/
theorem readsBack_ofMembers {members : List (String × Json)}
    (hmembers : ∀ m ∈ members, m.2.ReadsBack) : (ofMembers members).ReadsBack := by
  refine readsBack_object fun m hm => ?_
  obtain ⟨field, hfield, rfl⟩ := List.mem_map.1 hm
  exact hmembers field hfield

/-! ## Whole texts -/

/-- A value that is read back is what its own text spells. -/
theorem ReadsBack.parse?_render {j : Json} (h : j.ReadsBack) : parse? j.render = some j := by
  have hread := h (2 * j.write.length + 2) [] (by omega) (by rintro c ⟨⟩)
  rw [List.append_nil] at hread
  rw [parse?, render, String.toList_ofList, parseChars?, hread]
  rfl

end CrossReference.Json
