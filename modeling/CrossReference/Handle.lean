/-!
# Handles

A handle addresses a declaration inside one program.
-/

namespace CrossReference

/-- Address of a declaration inside one program. -/
structure Handle where
  /-- Place of the declaration in the order of addition. -/
  index : UInt32
deriving DecidableEq

namespace Handle

instance : Inhabited Handle := ⟨⟨0⟩⟩

instance : Ord Handle := ⟨compareOn index⟩

instance : Std.TransOrd Handle := inferInstanceAs (Std.TransCmp (compareOn index))

instance : Std.LawfulEqOrd Handle where
  eq_of_compare {a b} h := by
    have h : compareOn index a b = .eq := h
    simp only [compareOn, Std.LawfulEqOrd.compare_eq_iff_eq] at h
    cases a; cases b; simp_all

theorem eq_of_toNat_eq {a b : Handle} (h : a.index.toNat = b.index.toNat) : a = b := by
  cases a; cases b
  exact congrArg Handle.mk (UInt32.toNat_inj.1 h)

/-- The handle of the declaration that is added after `count` others. Handles are 32 bits wide; past
their range the last one is handed out again. -/
def ofCount (count : Nat) : Handle := ⟨UInt32.ofNatClamp count⟩

/-- The text that messages show. -/
def display (h : Handle) : String := "#" ++ toString h.index.toNat

end Handle

end CrossReference
