import CrossReference.Proofs.Containment

/-!
# Members and owners

Two tables hold the containment of a program: the owner of each member, and the members of each
class. Every member has an owner (`Program.Reachable.membersOwned`). As long as handles have not run
out, the class that lists a member is its owner (`Program.Reachable.listsOwned`), so that whatever a
walk down from a class meets has the outermost class of that class
(`Program.Reachable.topLevelClass_of_mem_descendants`). Beyond that number of declarations the last
handle is handed out again, and several classes may list it while it has one owner.
-/

namespace CrossReference

theorem Handle.ofCount_toNat (h : Handle) : Handle.ofCount h.index.toNat = h := by
  have hlt : h.index.toNat < UInt32.size := h.index.toNat_lt
  refine Handle.eq_of_toNat_eq ?_
  rw [Program.toNat_index_ofCount]
  omega

namespace Program

variable {p : Program} {h : Handle}

/-- The handles that a program has handed out. -/
def handles (p : Program) : List Handle := (List.range p.size).map Handle.ofCount

theorem mem_handles {d : Declaration} (hd : p.get h = .ok d) : h ∈ p.handles :=
  List.mem_map.2 ⟨h.index.toNat, List.mem_range.2 (index_lt_size hd), h.ofCount_toNat⟩

/-! ## What a pushed declaration changes -/

section

variable (kind : DeclarationKind) (name descriptor : String) (owner : Option Handle)

theorem size_push : (p.push kind name descriptor owner).1.size = p.size + 1 := by
  rw [size, declarations_push, Array.size_push, size]

theorem get_push_cases {d : Declaration}
    (hd : (p.push kind name descriptor owner).1.get h = .ok d) :
    p.get h = .ok d ∨
      h = Handle.ofCount p.size ∧ d = ⟨Handle.ofCount p.size, kind, name, descriptor, none⟩ := by
  rw [get_eq_ok, declarations_push, Array.getElem?_push] at hd
  split at hd
  · next hlast =>
    refine .inr ⟨?_, (Option.some.inj hd).symm⟩
    rw [← h.ofCount_toNat, hlast]
    rfl
  · exact .inl (get_eq_ok.2 hd)

/-- While handles last, the next one is new. -/
theorem get_push_new (hsize : p.size < UInt32.size) :
    (p.push kind name descriptor owner).1.get (Handle.ofCount p.size) =
      .ok ⟨Handle.ofCount p.size, kind, name, descriptor, none⟩ := by
  have hindex : (Handle.ofCount p.size).index.toNat = p.declarations.size := by
    rw [toNat_index_ofCount]
    exact Nat.min_eq_left (Nat.le_sub_one_of_lt hsize)
  rw [get_eq_ok, declarations_push, hindex, Array.getElem?_push_size]

theorem ne_ofCount_of_get {d : Declaration} (hsize : p.size < UInt32.size) (hd : p.get h = .ok d) :
    h ≠ Handle.ofCount p.size := by
  rintro rfl
  have hlt := index_lt_size hd
  rw [toNat_index_ofCount] at hlt
  omega

@[simp] theorem enterSymbol_memberLists (p : Program) (h : Handle) :
    (p.enterSymbol h).memberLists = p.memberLists := by
  rw [enterSymbol]
  split <;> rfl

theorem members_push (c : Handle) :
    (p.push kind name descriptor owner).1.members c =
      if owner = some c then p.members c ++ [Handle.ofCount p.size] else p.members c := by
  rw [members, push, enterSymbol_memberLists]
  cases owner with
  | none => rfl
  | some o =>
    rw [declare, OrderedMap.get?_alter]
    by_cases hc : c = o
    · subst hc
      rw [if_pos rfl, if_pos rfl]
      rfl
    · have hne : some o ≠ some c := fun h => hc (Option.some.inj h).symm
      rw [if_neg hc, if_neg hne]
      rfl

end

/-! ## Every member has an owner -/

/-- What is no class stands in one. -/
def MembersOwned (p : Program) : Prop :=
  ∀ ⦃h d⦄, p.get h = .ok d → d.isClass = false → ∃ o, p.owner? h = some o

theorem MembersOwned.push (hp : p.MembersOwned) (kind : DeclarationKind) (name descriptor : String)
    {owner : Option Handle} (howner : owner = none → kind = .classDecl) :
    (p.push kind name descriptor owner).1.MembersOwned := by
  intro h d hd hmember
  rw [owner?_push]
  rcases get_push_cases kind name descriptor owner hd with hold | ⟨rfl, rfl⟩
  · obtain ⟨o, ho⟩ := hp hold hmember
    cases owner with
    | none => exact ⟨o, by simp [ho]⟩
    | some new => split <;> simp [ho]
  · cases owner with
    | none => simp [Declaration.isClass, howner rfl] at hmember
    | some new => exact ⟨new, by simp⟩

theorem Reachable.membersOwned (hp : p.Reachable) : p.MembersOwned := by
  refine hp.induction (fun h d hd => ?_) (fun name hp => hp.push .classDecl name "" fun _ => rfl)
    (fun kind name descriptor _ _ hp => hp.push kind name descriptor fun hnone => nomatch hnone)
    (fun {p _ _} position hget hp h d hd hmember => ?_)
  · exact absurd (index_lt_size hd) (Nat.not_lt_zero _)
  · rw [get_placed hget] at hd
    cases hold : p.get h with
    | error cause => simp [hold, Except.map] at hd
    | ok old =>
      rw [hold] at hd
      obtain rfl := Except.ok.inj hd
      exact hp hold (by split at hmember <;> exact hmember)

/-! ## Who lists a member owns it -/

/-- What a class lists, it owns. -/
def ListsOwned (p : Program) : Prop :=
  ∀ ⦃c h⦄, h ∈ p.members c → p.owner? h = some c ∧ ∃ d, p.get h = .ok d

theorem ListsOwned.push (hp : p.ListsOwned) (hsize : p.size < UInt32.size) (kind : DeclarationKind)
    (name descriptor : String) (owner : Option Handle) :
    (p.push kind name descriptor owner).1.ListsOwned := by
  intro c h hmem
  rw [members_push] at hmem
  have hold : h ∈ p.members c →
      (p.push kind name descriptor owner).1.owner? h = some c ∧
        ∃ d, (p.push kind name descriptor owner).1.get h = .ok d := by
    intro hlisted
    obtain ⟨howner, d, hd⟩ := hp hlisted
    rw [owner?_push, if_neg (ne_ofCount_of_get hsize hd)]
    exact ⟨howner, d, get_push hd kind name descriptor owner⟩
  split at hmem
  · next howner =>
    rcases List.mem_append.1 hmem with hlisted | hnew
    · exact hold hlisted
    · obtain rfl := List.mem_singleton.1 hnew
      refine ⟨?_, _, get_push_new kind name descriptor owner hsize⟩
      rw [owner?_push, if_pos rfl, howner]
      rfl
  · exact hold hmem

theorem Reachable.listsOwned (hp : p.Reachable) (hsize : p.size ≤ UInt32.size) : p.ListsOwned := by
  -- A program only grows, so the bound on its size was kept before each edit.
  refine hp.induction (P := fun p => p.size ≤ UInt32.size → p.ListsOwned)
    (fun _ c h hmem => absurd hmem List.not_mem_nil)
    (fun {p} name hp hsize => ?_) (fun {p} kind name descriptor owner _ hp hsize => ?_)
    (fun {p h d} position hd hp hsize c h' hmem => ?_) hsize
  · have hlt : p.size + 1 ≤ UInt32.size := by
      rw [← size_push .classDecl name "" none]
      exact hsize
    exact (hp (Nat.le_of_lt hlt)).push hlt .classDecl name "" none
  · have hlt : p.size + 1 ≤ UInt32.size := by
      rw [← size_push kind name descriptor (some owner)]
      exact hsize
    exact (hp (Nat.le_of_lt hlt)).push hlt kind name descriptor (some owner)
  · have hle : p.size ≤ UInt32.size := by simpa [size] using hsize
    obtain ⟨howner, d', hd'⟩ := hp hle hmem
    have hplaced := get_placed hd position h'
    rw [hd'] at hplaced
    exact ⟨howner, _, hplaced⟩

/-! ## Walking down -/

/-- A walk down stays inside the outermost class in which it starts. -/
theorem topLevelClass_of_mem_visit (hp : p.Sound) (hlists : p.ListsOwned) {c : Handle} {steps : Nat}
    {waiting : List Handle} (hwaiting : ∀ h ∈ waiting, p.topLevelClass h = .ok c) :
    ∀ h ∈ p.visit steps waiting, p.topLevelClass h = .ok c := by
  induction steps generalizing waiting with
  | zero => exact fun h hh => nomatch hh
  | succ steps ih =>
    cases waiting with
    | nil => exact fun h hh => nomatch hh
    | cons first waiting =>
      obtain ⟨hfirst, hrest⟩ := List.forall_mem_cons.1 hwaiting
      refine List.forall_mem_cons.2 ⟨hfirst, ih fun h hh => ?_⟩
      rcases List.mem_append.1 hh with hmember | hh
      · obtain ⟨howner, d, hd⟩ := hlists hmember
        exact (hp.topLevelClass_owner hd howner).trans hfirst
      · exact hrest h hh

theorem Reachable.topLevelClass_of_mem_descendants (hp : p.Reachable) (hsize : p.size ≤ UInt32.size)
    {c outermost : Handle} (hc : p.topLevelClass c = .ok outermost) (hmem : h ∈ p.descendants c) :
    p.topLevelClass h = .ok outermost :=
  topLevelClass_of_mem_visit hp.sound (hp.listsOwned hsize) (by simpa using hc) h hmem

/-- A top-level class is its own outermost class. -/
theorem topLevelClass_of_topLevelSymbol {s : Symbol} (hs : p.topLevelSymbol h = .ok s) :
    p.topLevelClass h = .ok h := by
  obtain ⟨d, hd, -, ho, -⟩ := topLevelSymbol_eq_ok.1 hs
  exact topLevelClass_eq_ok.2 ⟨⟨d, hd⟩, (climb_of_owner?_eq_none ho p.size).symm⟩

end Program

end CrossReference
