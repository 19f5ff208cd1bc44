import CrossReference.Text.Locate
import Mathlib.Data.List.Basic

/-!
# Texts and their bytes

Offsets count bytes of UTF-8, while texts are cut and searched character by character. The two views
agree: a text that is not empty stands at a byte of another one (`Text.StandsAt`) exactly if the
other one can be split there into whole characters (`Text.standsAt_iff`), and the bytes in front of
a split hold as many line feeds as the characters do (`Text.newlinesBefore_append`).
-/

namespace CrossReference.Text

/-- The bytes of a text in UTF-8. -/
def bytes (text : String) : List UInt8 := text.toUTF8.data.toList

/-- The bytes of one text are found in the bytes of another one from an offset on. -/
def StandsAt (needle text : String) (offset : Nat) : Prop :=
  bytes needle <+: (bytes text).drop offset

/-- The line feeds among the bytes in front of an offset. -/
def newlinesBefore (text : String) (offset : Nat) : Nat := ((bytes text).take offset).count 10

variable {needle text front back : String} {offset : Nat}

/-! ## Bytes -/

theorem bytes_append (front back : String) : bytes (front ++ back) = bytes front ++ bytes back := by
  simp [bytes, String.toUTF8_eq_toByteArray]

theorem length_bytes (text : String) : (bytes text).length = text.utf8ByteSize := by
  rw [bytes, String.toUTF8_eq_toByteArray, Array.length_toList, ← ByteArray.size,
    String.size_toByteArray]

theorem bytes_ofList (chars : List Char) :
    bytes (.ofList chars) = chars.flatMap String.utf8EncodeChar := by
  rw [bytes, String.toUTF8_eq_toByteArray, String.toByteArray_ofList, List.utf8Encode,
    List.toList_data_toByteArray]

theorem byteLength_eq (chars : List Char) :
    byteLength chars = (String.ofList chars).utf8ByteSize := by
  induction chars with
  | nil => rfl
  | cons c rest ih => rw [byteLength, ih, String.ofList_cons]; simp

/-- The bytes of a text begin with those of another one only if its characters do. -/
theorem exists_append_of_bytes_prefix (h : bytes needle <+: bytes text) :
    ∃ back, text = needle ++ back := by
  obtain ⟨rest, hrest⟩ := h
  have hencoded : needle.toList.utf8Encode ++ rest.toByteArray = text.toList.utf8Encode := by
    rw [String.utf8Encode_toList, String.utf8Encode_toList, ByteArray.ext_iff,
      ByteArray.data_append, ← Array.toList_inj, Array.toList_append, List.toList_data_toByteArray]
    exact hrest
  obtain ⟨back, hback⟩ := List.isPrefix_of_utf8Encode_append_eq_utf8Encode _ hencoded
  refine ⟨.ofList back, ?_⟩
  rw [← String.toList_inj, String.toList_append, String.toList_ofList, hback]

/-- Where a character starts, a text can be split. -/
theorem exists_append_of_isUTF8FirstByte {b : UInt8} (hb : (bytes text)[offset]? = some b)
    (hfirst : b.IsUTF8FirstByte) :
    ∃ front back, text = front ++ back ∧ front.utf8ByteSize = offset := by
  obtain ⟨hlt, hget⟩ := List.getElem?_eq_some_iff.1 hb
  have hvalid : (⟨offset⟩ : String.Pos.Raw).IsValid text := by
    refine String.Pos.Raw.isValid_iff_isUTF8FirstByte.2 (.inr ⟨?_, ?_⟩)
    · rw [length_bytes] at hlt
      exact hlt
    · rw [← hget] at hfirst
      exact hfirst
  obtain ⟨front, back, htext, hoffset⟩ := String.Pos.Raw.isValid_iff_exists_append.1 hvalid
  exact ⟨front, back, htext, (congrArg String.Pos.Raw.byteIdx hoffset).symm⟩

/-! ## Occurrences -/

theorem standsAt_append (front needle back : String) :
    StandsAt needle (front ++ needle ++ back) front.utf8ByteSize := by
  rw [StandsAt, bytes_append, bytes_append, List.append_assoc, ← length_bytes, List.drop_left]
  exact List.prefix_append _ _

/-- A text that is not empty stands only where characters start and end. -/
theorem standsAt_iff (hneedle : needle ≠ "") :
    StandsAt needle text offset ↔
      ∃ front back, text = front ++ needle ++ back ∧ front.utf8ByteSize = offset := by
  constructor
  · intro hstands
    have hpos : 0 < needle.rawEndPos.byteIdx :=
      Nat.pos_of_ne_zero fun hzero => hneedle (String.utf8ByteSize_eq_zero_iff.1 hzero)
    have hpos' : 0 < (bytes needle).length := by rwa [length_bytes]
    -- The first byte of the needle starts a character, so the text can be split in front of it.
    have hfirst : (bytes needle)[0].IsUTF8FirstByte :=
      String.isUTF8FirstByte_getUTF8Byte_zero (h := hpos)
    have hbyte : (bytes text)[offset]? = some (bytes needle)[0] := by
      obtain ⟨rest, hrest⟩ := hstands
      rw [← Nat.add_zero offset, ← List.getElem?_drop, ← hrest, List.getElem?_append_left hpos',
        List.getElem?_eq_getElem hpos']
    obtain ⟨front, rest, rfl, hoffset⟩ := exists_append_of_isUTF8FirstByte hbyte hfirst
    rw [StandsAt, bytes_append, ← hoffset, ← length_bytes, List.drop_left] at hstands
    obtain ⟨back, rfl⟩ := exists_append_of_bytes_prefix hstands
    exact ⟨front, back, (String.append_assoc ..).symm, hoffset⟩
  · rintro ⟨front, back, rfl, rfl⟩
    exact standsAt_append front needle back

/-! ## Line feeds -/

theorem newline_notMem_map_ofNat (codes : List Nat) (hcodes : ∀ n ∈ codes, 128 ≤ n ∧ n < 256) :
    10 ∉ codes.map UInt8.ofNat := by
  intro hmem
  obtain ⟨n, hn, heq⟩ := List.mem_map.1 hmem
  have hvalue : n % 256 = 10 := congrArg UInt8.toNat heq
  have hrange := hcodes n hn
  omega

/-- The byte of a line feed stands for a line feed: codes of several bytes have higher ones only. -/
theorem count_utf8EncodeChar (c : Char) :
    (String.utf8EncodeChar c).count 10 = if c = '\n' then 1 else 0 := by
  have hnewline : c = '\n' ↔ c.val.toNat = 10 := by
    rw [← Char.val_inj, ← UInt32.toNat_inj]
    rfl
  rw [String.utf8EncodeChar, if_congr hnewline rfl rfl]
  by_cases hascii : c.val.toNat ≤ 127
  · have hbyte : (UInt8.ofNat c.val.toNat == 10) = decide (c.val.toNat = 10) := by
      rw [Bool.eq_iff_iff, beq_iff_eq, decide_eq_true_iff, ← UInt8.toNat_inj, UInt8.toNat_ofNat',
        Nat.mod_eq_of_lt (by omega)]
      rfl
    rw [if_pos hascii, List.count_singleton, hbyte]
    simp only [decide_eq_true_iff]
  · have hother : c.val.toNat ≠ 10 := by omega
    rw [if_neg hascii, if_neg hother, List.count_eq_zero]
    split
    · exact newline_notMem_map_ofNat [_, _] (by simp; omega)
    · split
      · exact newline_notMem_map_ofNat [_, _, _] (by simp; omega)
      · exact newline_notMem_map_ofNat [_, _, _, _] (by simp; omega)

theorem count_bytes (text : String) : (bytes text).count 10 = text.toList.count '\n' := by
  rw [← String.ofList_toList (s := text), bytes_ofList, String.toList_ofList]
  induction text.toList with
  | nil => rfl
  | cons c rest ih =>
    rw [List.flatMap_cons, List.count_append, count_utf8EncodeChar, ih, List.count_cons,
      Nat.add_comm]
    simp

theorem newlinesBefore_append (front back : String) :
    newlinesBefore (front ++ back) front.utf8ByteSize = front.toList.count '\n' := by
  rw [newlinesBefore, bytes_append, ← length_bytes, List.take_left, count_bytes]

theorem newlinesBefore_mono (text : String) {earlier : Nat} (hle : earlier ≤ offset) :
    newlinesBefore text earlier ≤ newlinesBefore text offset :=
  (List.take_prefix_take_left hle).count_le 10

end CrossReference.Text
