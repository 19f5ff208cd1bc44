/-!
# Positions

A position is a place in the generated text of one class, given by its byte offset and its line.
-/

namespace CrossReference

/-- A place in generated text. -/
structure Position where
  /-- Bytes of UTF-8 in front of the place. -/
  offset : UInt64
  /-- Line of the place; the first line is 1. -/
  line : UInt32
deriving DecidableEq

namespace Position

/-- Positions follow the text: by byte offset, then by line. -/
instance : Ord Position := ⟨compareLex (compareOn offset) (compareOn line)⟩

instance : Std.TransOrd Position :=
  inferInstanceAs (Std.TransCmp (compareLex (compareOn offset) (compareOn line)))

instance : Std.LawfulEqOrd Position where
  eq_of_compare {a b} h := by
    have h : compareLex (compareOn offset) (compareOn line) a b = .eq := h
    simp only [compareLex_eq_eq, compareOn, Std.LawfulEqOrd.compare_eq_iff_eq] at h
    cases a; cases b; simp_all

/-- A place stands before another one at a smaller offset, or at the same offset on
a smaller line. -/
def Before (a b : Position) : Prop :=
  a.offset < b.offset ∨ a.offset = b.offset ∧ a.line < b.line

theorem compare_eq_lt_iff {a b : Position} : compare a b = .lt ↔ a.Before b := by
  show (compare a.offset b.offset).then (compare a.line b.line) = .lt ↔ _
  rw [Ordering.then_eq_lt, Std.compare_eq_lt, Std.compare_eq_lt, Std.LawfulEqOrd.compare_eq_iff_eq,
    Before]

/-- The text that messages show: the line, then the offset. -/
def display (p : Position) : String :=
  toString p.line.toNat ++ "@" ++ toString p.offset.toNat

end Position

end CrossReference
