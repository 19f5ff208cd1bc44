import CrossReference.Proofs.InPlace
import CrossReference.Proofs.Membership
import CrossReference.Sample

/-!
# The tables of a program agree

A program keeps its declarations in one table, who owns them in a second one, what each class lists
in a third, and its top-level classes in a fourth. As long as handles have not run out, the four say
the same (`Program.Agreeing`): whoever owns a declaration stands in front of it and lists it, and
who owns nobody's member is a top-level class. So every question about a handle that was issued has
an answer, and about any other handle the answer is that the handle is not known
(`Program.Reachable.agreeing_and_answers`).

`Program.editInPlace` carries out an edit as a series of changes to one program, in the order in
which the tables are written. It leaves what `Program.edit` gives, and an edit that is rejected has
then changed nothing (`Program.editInPlace_eq`).
-/

namespace CrossReference

/-- The symbol of a declaration that stands in a class of the given name. -/
def Declaration.symbolIn (d : Declaration) (className : String) : Symbol :=
  match d.kind with
  | .classDecl => .ofClass d.name
  | .fieldDecl => .ofField className d.name d.descriptor
  | .methodDecl _ => .ofMethod className d.name d.descriptor

theorem Declaration.isClass_congr {d e : Declaration} (h : e.kind = d.kind) :
    e.isClass = d.isClass := by
  rw [isClass, isClass, h]

namespace Program

variable {p : Program} {h o c : Handle}

/-! ## Handles that were issued -/

/-- The program has handed out the handle. -/
def Issued (p : Program) (h : Handle) : Prop := h.index.toNat < p.size

instance (p : Program) (h : Handle) : Decidable (p.Issued h) := inferInstanceAs (Decidable (_ < _))

theorem issued_iff : p.Issued h ↔ ∃ d, p.get h = .ok d := by
  constructor
  · intro hissued
    exact ⟨_, get_eq_ok.2 (Array.getElem?_eq_getElem hissued)⟩
  · rintro ⟨d, hd⟩
    exact index_lt_size hd

theorem mem_handles_iff : h ∈ p.handles ↔ p.Issued h := by
  constructor
  · intro hmem
    obtain ⟨n, hn, rfl⟩ := List.mem_map.1 hmem
    rw [Issued, toNat_index_ofCount]
    exact Nat.lt_of_le_of_lt (Nat.min_le_left ..) (List.mem_range.1 hn)
  · intro hissued
    obtain ⟨d, hd⟩ := issued_iff.1 hissued
    exact mem_handles hd

theorem get_of_not_issued (h' : ¬ p.Issued h) : p.get h = .error (.unknownHandle h) := by
  rw [get, Array.getElem?_eq_none (Nat.le_of_not_lt h')]

theorem toNat_index_ofCount_of_lt {n : Nat} (hn : n < UInt32.size) :
    (Handle.ofCount n).index.toNat = n := by
  rw [toNat_index_ofCount]
  exact Nat.min_eq_left (Nat.le_sub_one_of_lt hn)

/-! ## Agreement -/

/-- What the tables of a program have to do with each other. -/
structure Agreeing (p : Program) : Prop where
  /-- Declarations stand in the order of their handles. -/
  handle_eq : ∀ {n : Nat} {d : Declaration}, p.declarations[n]? = some d → d.handle.index.toNat = n
  owned_issued : ∀ {h o : Handle}, p.owner? h = some o → p.Issued h
  owner_isClass : ∀ {h o : Handle}, p.owner? h = some o → ∃ d, p.get o = .ok d ∧ d.isClass = true
  /-- An owner was added before what it owns. -/
  owner_lt : ∀ {h o : Handle}, p.owner? h = some o → o.index < h.index
  /-- A class lists what it owns. -/
  mem_members_iff : ∀ {c h : Handle}, h ∈ p.members c ↔ p.owner? h = some c
  members_increase : ∀ c : Handle, (p.members c).Pairwise (·.index < ·.index)
  /-- A top-level class is what nobody owns. -/
  mem_classes_iff : ∀ {h : Handle}, h ∈ p.classes ↔ p.Issued h ∧ p.owner? h = none
  class_isClass : ∀ {h : Handle}, h ∈ p.classes → ∃ d, p.get h = .ok d ∧ d.isClass = true
  classes_increase : p.classes.Pairwise (·.index < ·.index)

theorem agreeing_empty : (empty : Program).Agreeing where
  handle_eq hd := by simp [empty] at hd
  owned_issued ho := nomatch ho
  owner_isClass ho := nomatch ho
  owner_lt ho := nomatch ho
  mem_members_iff := ⟨(nomatch ·), (nomatch ·)⟩
  members_increase _ := .nil
  mem_classes_iff := ⟨(nomatch ·), fun hc => absurd hc.1 (Nat.not_lt_zero _)⟩
  class_isClass hmem := nomatch hmem
  classes_increase := .nil

theorem Agreeing.sound (hp : p.Agreeing) : p.Sound where
  owner_isClass := hp.owner_isClass
  owner_le ho := Nat.le_of_lt (UInt32.lt_iff_toNat_lt.1 (hp.owner_lt ho))

/-! ## One more declaration -/

/-- The program with one more declaration, which is a top-level class if nobody owns it. -/
def extend (p : Program) (kind : DeclarationKind) (name descriptor : String)
    (owner : Option Handle) : Program :=
  { (p.push kind name descriptor owner).1 with
    classes := if owner = none then p.classes ++ [Handle.ofCount p.size] else p.classes }

section

variable (hp : p.Agreeing) (hsize : p.size < UInt32.size) {kind : DeclarationKind}
  {name descriptor : String} {owner : Option Handle}

theorem get_extend {d : Declaration} (hd : p.get h = .ok d) :
    (p.extend kind name descriptor owner).get h = .ok d :=
  get_push hd kind name descriptor owner

include hsize

theorem lt_new (hissued : p.Issued h) : h.index < (Handle.ofCount p.size).index := by
  rw [UInt32.lt_iff_toNat_lt, toNat_index_ofCount_of_lt hsize]
  exact hissued

theorem ne_new (hissued : p.Issued h) : h ≠ Handle.ofCount p.size := by
  rintro rfl
  exact UInt32.lt_irrefl _ (lt_new hsize hissued)

theorem issued_extend :
    (p.extend kind name descriptor owner).Issued h ↔ p.Issued h ∨ h = Handle.ofCount p.size := by
  have hlast : h = Handle.ofCount p.size ↔ h.index.toNat = p.size := by
    constructor
    · rintro rfl
      exact toNat_index_ofCount_of_lt hsize
    · intro heq
      rw [← h.ofCount_toNat, heq]
  have hgrown : (p.extend kind name descriptor owner).size = p.size + 1 :=
    size_push kind name descriptor owner
  rw [hlast, Issued, hgrown, Issued]
  omega

theorem get_extend_new :
    (p.extend kind name descriptor owner).get (Handle.ofCount p.size) =
      .ok ⟨Handle.ofCount p.size, kind, name, descriptor, none⟩ :=
  get_push_new kind name descriptor owner hsize

theorem handle_eq_extend
    (hhandles : ∀ {n : Nat} {d : Declaration}, p.declarations[n]? = some d →
      d.handle.index.toNat = n)
    {n : Nat} {d : Declaration}
    (hd : (p.extend kind name descriptor owner).declarations[n]? = some d) :
    d.handle.index.toNat = n := by
  have hd : (p.push kind name descriptor owner).1.declarations[n]? = some d := hd
  rw [declarations_push, Array.getElem?_push] at hd
  split at hd
  · next hlast =>
    obtain rfl := Option.some.inj hd
    rw [hlast]
    exact toNat_index_ofCount_of_lt hsize
  · exact hhandles hd

include hp

theorem Agreeing.owner?_extend :
    (p.extend kind name descriptor owner).owner? h =
      if h = Handle.ofCount p.size then owner else p.owner? h := by
  have hpush : (p.extend kind name descriptor owner).owner? h = _ :=
    p.owner?_push kind name descriptor owner h
  rw [hpush]
  split
  · next hnew =>
    -- The handle is new, so nobody owned it before.
    have hfree : p.owner? h = none := Option.eq_none_iff_forall_ne_some.2 fun o ho =>
      ne_new hsize (hp.owned_issued ho) hnew
    rw [hfree]
    cases owner <;> rfl
  · rfl

theorem Agreeing.lt_new_of_mem_members (hmem : h ∈ p.members c) :
    h.index < (Handle.ofCount p.size).index :=
  lt_new hsize (hp.owned_issued (hp.mem_members_iff.1 hmem))

theorem Agreeing.mem_members_extend :
    h ∈ (p.extend kind name descriptor owner).members c ↔
      (p.extend kind name descriptor owner).owner? h = some c := by
  have hmembers : (p.extend kind name descriptor owner).members c = _ :=
    members_push kind name descriptor owner c
  rw [hmembers, hp.owner?_extend hsize]
  by_cases hnew : h = Handle.ofCount p.size
  · have hunlisted : h ∉ p.members c := fun hmem =>
      ne_new hsize (hp.owned_issued (hp.mem_members_iff.1 hmem)) hnew
    rw [if_pos hnew]
    split
    · next howner => simp [hnew, howner]
    · next howner => simp [hunlisted, howner]
  · rw [if_neg hnew, ← hp.mem_members_iff]
    split
    · simp [hnew]
    · rfl

theorem Agreeing.members_increase_extend :
    ((p.extend kind name descriptor owner).members c).Pairwise (·.index < ·.index) := by
  have hmembers : (p.extend kind name descriptor owner).members c = _ :=
    members_push kind name descriptor owner c
  rw [hmembers]
  split
  · refine List.pairwise_append.2 ⟨hp.members_increase c, List.pairwise_singleton _ _, ?_⟩
    intro h hmem new hnew
    obtain rfl := List.mem_singleton.1 hnew
    exact hp.lt_new_of_mem_members hsize hmem
  · exact hp.members_increase c

theorem Agreeing.mem_classes_extend :
    h ∈ (p.extend kind name descriptor owner).classes ↔
      (p.extend kind name descriptor owner).Issued h ∧
        (p.extend kind name descriptor owner).owner? h = none := by
  have hclasses : (p.extend kind name descriptor owner).classes =
    if owner = none then p.classes ++ [Handle.ofCount p.size] else p.classes := rfl
  rw [hclasses, issued_extend hsize, hp.owner?_extend hsize]
  by_cases hnew : h = Handle.ofCount p.size
  · have hunlisted : h ∉ p.classes := fun hmem => ne_new hsize (hp.mem_classes_iff.1 hmem).1 hnew
    rw [if_pos hnew]
    split
    · next howner => simp [hnew, howner]
    · next howner => simp [hunlisted, howner]
  · rw [if_neg hnew, or_iff_left hnew, ← hp.mem_classes_iff]
    split
    · simp [hnew]
    · rfl

theorem Agreeing.classes_increase_extend :
    (p.extend kind name descriptor owner).classes.Pairwise (·.index < ·.index) := by
  rw [extend]
  dsimp only
  split
  · refine List.pairwise_append.2 ⟨hp.classes_increase, List.pairwise_singleton _ _, ?_⟩
    intro h hmem new hnew
    obtain rfl := List.mem_singleton.1 hnew
    exact lt_new hsize (hp.mem_classes_iff.1 hmem).1
  · exact hp.classes_increase

theorem Agreeing.extend (howner : ∀ o ∈ owner, ∃ d, p.get o = .ok d ∧ d.isClass = true)
    (hkind : owner = none → kind = .classDecl) :
    (p.extend kind name descriptor owner).Agreeing := by
  have howned : ∀ {h o}, (p.extend kind name descriptor owner).owner? h = some o →
      h = Handle.ofCount p.size ∧ owner = some o ∨ p.owner? h = some o := by
    intro h o ho
    rw [hp.owner?_extend hsize] at ho
    split at ho
    · next hnew => exact .inl ⟨hnew, ho⟩
    · exact .inr ho
  exact {
    handle_eq := handle_eq_extend hsize hp.handle_eq
    owned_issued := fun ho => by
      rw [issued_extend hsize]
      rcases howned ho with ⟨hnew, -⟩ | hold
      · exact .inr hnew
      · exact .inl (hp.owned_issued hold)
    owner_isClass := fun ho => by
      rcases howned ho with ⟨-, hgiven⟩ | hold
      · obtain ⟨d, hd, hclass⟩ := howner _ hgiven
        exact ⟨d, get_extend hd, hclass⟩
      · obtain ⟨d, hd, hclass⟩ := hp.owner_isClass hold
        exact ⟨d, get_extend hd, hclass⟩
    owner_lt := fun ho => by
      rcases howned ho with ⟨rfl, hgiven⟩ | hold
      · obtain ⟨d, hd, -⟩ := howner _ hgiven
        exact lt_new hsize (issued_iff.2 ⟨d, hd⟩)
      · exact hp.owner_lt hold
    mem_members_iff := hp.mem_members_extend hsize
    members_increase := fun _ => hp.members_increase_extend hsize
    mem_classes_iff := hp.mem_classes_extend hsize
    class_isClass := fun {h} hmem => by
      rw [Program.extend] at hmem
      dsimp only at hmem
      split at hmem
      · next hnone =>
        rcases List.mem_append.1 hmem with hold | hnew
        · obtain ⟨d, hd, hclass⟩ := hp.class_isClass hold
          exact ⟨d, get_extend hd, hclass⟩
        · obtain rfl := List.mem_singleton.1 hnew
          refine ⟨_, get_extend_new hsize, ?_⟩
          simp [Declaration.isClass, hkind hnone]
      · obtain ⟨d, hd, hclass⟩ := hp.class_isClass hmem
        exact ⟨d, get_extend hd, hclass⟩
    classes_increase := hp.classes_increase_extend hsize }

end

/-- What is added to a class changes nothing in the list of top-level classes. -/
theorem extend_some (p : Program) (kind : DeclarationKind) (name descriptor : String) :
    p.extend kind name descriptor (some o) = (p.push kind name descriptor (some o)).1 := by
  rw [extend, if_neg (Option.some_ne_none o), ← classes_push p kind name descriptor (some o)]

/-! ## A new place -/

/-- The program with a new place for a handle, which addresses the given declaration. -/
def placed (p : Program) (h : Handle) (d : Declaration) (position : Position) : Program :=
  { p with
    declarations :=
      p.declarations.setIfInBounds h.index.toNat { d with placement := some position } }

section

variable {d : Declaration} (hd : p.get h = .ok d) (position : Position)

theorem issued_placed {h' : Handle} : (p.placed h d position).Issued h' ↔ p.Issued h' := by
  simp [Issued, size, placed]

include hd

theorem exists_class_placed {d' : Declaration} (hd' : p.get o = .ok d')
    (hclass : d'.isClass = true) :
    ∃ e, (p.placed h d position).get o = .ok e ∧ e.isClass = true := by
  have hget : (p.placed h d position).get o = _ := get_placed hd position o
  rw [hget, hd']
  refine ⟨_, rfl, ?_⟩
  split <;> exact hclass

/-- Where declarations are placed has no part in how they contain each other. -/
theorem Agreeing.placed (hp : p.Agreeing) : (p.placed h d position).Agreeing where
  handle_eq {n d'} hd' := by
    rw [Program.placed, Array.getElem?_setIfInBounds] at hd'
    split at hd'
    · next hplace =>
      split at hd'
      · obtain rfl := Option.some.inj hd'
        exact (hp.handle_eq (get_eq_ok.1 hd)).trans hplace
      · cases hd'
    · exact hp.handle_eq hd'
  owned_issued ho := (issued_placed position).2 (hp.owned_issued ho)
  owner_isClass ho := by
    obtain ⟨d', hd', hclass⟩ := hp.owner_isClass ho
    exact exists_class_placed hd position hd' hclass
  owner_lt := hp.owner_lt
  mem_members_iff := hp.mem_members_iff
  members_increase := hp.members_increase
  mem_classes_iff {h'} := by
    rw [issued_placed]
    exact hp.mem_classes_iff
  class_isClass hmem := by
    obtain ⟨d', hd', hclass⟩ := hp.class_isClass hmem
    exact exists_class_placed hd position hd' hclass
  classes_increase := hp.classes_increase

end

/-! ## Every program -/

/-- What the empty program has, and what one more declaration and a new place keep, every program
has whose handles have not run out. -/
theorem Reachable.induction_extend {P : Program → Prop} (hp : p.Reachable)
    (hsize : p.size ≤ UInt32.size) (hempty : P empty)
    (hextend : ∀ {p} kind name descriptor owner, p.size < UInt32.size →
      (∀ o ∈ owner, ∃ d, p.get o = .ok d ∧ d.isClass = true) → (owner = none → kind = .classDecl) →
      P p → P (p.extend kind name descriptor owner))
    (hplaced : ∀ {p h d} position, p.get h = .ok d → P p → P (p.placed h d position)) : P p := by
  -- A program only grows, so the bound on its size was kept before each edit.
  refine hp.induction (P := fun p => p.size ≤ UInt32.size → P p) (fun _ => hempty)
    (fun {p} name hp hsize => ?_) (fun {p} kind name descriptor owner hclass hp hsize => ?_)
    (fun {p h d} position hd hp hsize => ?_) hsize
  · have hlt : p.size + 1 ≤ UInt32.size := by
      rw [← size_push .classDecl name "" none]
      exact hsize
    exact hextend .classDecl name "" none hlt (fun o ho => nomatch ho) (fun _ => rfl)
      (hp (Nat.le_of_lt hlt))
  · have hlt : p.size + 1 ≤ UInt32.size := by
      rw [← size_push kind name descriptor (some owner)]
      exact hsize
    have howner : ∀ o ∈ some owner, ∃ d, p.get o = .ok d ∧ d.isClass = true := fun o ho => by
      obtain rfl : owner = o := Option.some.inj ho
      exact expectClass_eq_ok.1 hclass
    rw [← extend_some]
    exact hextend kind name descriptor (some owner) hlt howner (fun hnone => nomatch hnone)
      (hp (Nat.le_of_lt hlt))
  · have hle : p.size ≤ UInt32.size := by simpa [size] using hsize
    exact hplaced position hd (hp hle)

theorem Reachable.agreeing (hp : p.Reachable) (hsize : p.size ≤ UInt32.size) : p.Agreeing :=
  hp.induction_extend hsize agreeing_empty
    (fun _ _ _ _ hsize howner hkind hp => hp.extend hsize howner hkind)
    fun position hd hp => hp.placed hd position

/-! ## Answers -/

theorem symbol_of_owner {d around : Declaration} (hd : p.get h = .ok d) (ho : p.owner? h = some o)
    (haround : p.get o = .ok around) : p.symbol h = .ok (d.symbolIn around.name) := by
  have howner : p.owner h = .ok o := owner_eq_ok.2 ho
  rw [symbol, hd, Declaration.symbolIn]
  cases hkind : d.kind <;>
    simp [hkind, howner, haround, bind, Except.bind, pure, Except.pure]

/-- Who owns nobody's member is a top-level class, so a member has an owner. -/
theorem Agreeing.exists_owner (hp : p.Agreeing) {d : Declaration} (hd : p.get h = .ok d)
    (hmember : d.isClass = false) : ∃ o around, p.owner? h = some o ∧ p.get o = .ok around := by
  cases ho : p.owner? h with
  | none =>
    obtain ⟨d', hd', hclass⟩ :=
      hp.class_isClass (hp.mem_classes_iff.2 ⟨issued_iff.2 ⟨d, hd⟩, ho⟩)
    obtain rfl := Except.ok.inj (hd.symm.trans hd')
    exact absurd hclass (by simp [hmember])
  | some o =>
    obtain ⟨around, haround, -⟩ := hp.owner_isClass ho
    exact ⟨o, around, rfl, haround⟩

/-- Every declaration has a symbol. -/
theorem Agreeing.exists_symbol (hp : p.Agreeing) {d : Declaration} (hd : p.get h = .ok d) :
    ∃ s, p.symbol h = .ok s := by
  by_cases hclass : d.isClass = true
  · exact ⟨_, symbol_of_isClass hd hclass⟩
  · obtain ⟨o, around, ho, haround⟩ := hp.exists_owner hd (by simpa using hclass)
    exact ⟨_, symbol_of_owner hd ho haround⟩

theorem Agreeing.exists_declaringClass (hp : p.Agreeing) {d : Declaration} (hd : p.get h = .ok d) :
    ∃ around, p.declaringClass h = .ok around := by
  by_cases hclass : d.isClass = true
  · exact ⟨h, by simp [declaringClass, hd, hclass, bind, Except.bind, pure, Except.pure]⟩
  · obtain ⟨o, -, ho, -⟩ := hp.exists_owner hd (by simpa using hclass)
    exact ⟨o, by simp [declaringClass, hd, hclass, owner_eq_ok.2 ho, bind, Except.bind]⟩

theorem Agreeing.issued_of_declaringClass (hp : p.Agreeing) {around : Handle}
    (ha : p.declaringClass h = .ok around) : p.Issued around := by
  obtain ⟨d, hd, ⟨-, rfl⟩ | ⟨-, ho⟩⟩ := declaringClass_eq_ok ha
  · exact issued_iff.2 ⟨d, hd⟩
  · obtain ⟨o, haround, -⟩ := hp.owner_isClass ho
    exact issued_iff.2 ⟨o, haround⟩

/-- A climb that has as many steps left as the handle has predecessors ends at a top-level class. -/
theorem Agreeing.climb_mem_classes (hp : p.Agreeing) (hissued : p.Issued h) {steps : Nat}
    (hle : h.index.toNat ≤ steps) : p.climb steps h ∈ p.classes := by
  induction steps generalizing h with
  | zero =>
    show h ∈ p.classes
    refine hp.mem_classes_iff.2 ⟨hissued, Option.eq_none_iff_forall_ne_some.2 fun o ho => ?_⟩
    have hlt := UInt32.lt_iff_toNat_lt.1 (hp.owner_lt ho)
    omega
  | succ steps ih =>
    cases ho : p.owner? h with
    | none =>
      rw [climb_of_owner?_eq_none ho]
      exact hp.mem_classes_iff.2 ⟨hissued, ho⟩
    | some o =>
      obtain ⟨d, hd, -⟩ := hp.owner_isClass ho
      have hlt := UInt32.lt_iff_toNat_lt.1 (hp.owner_lt ho)
      rw [climb, ho]
      exact ih (issued_iff.2 ⟨d, hd⟩) (by omega)

theorem Agreeing.exists_topLevelClass (hp : p.Agreeing) (hissued : p.Issued h) :
    ∃ c ∈ p.classes, p.topLevelClass h = .ok c :=
  ⟨_, hp.climb_mem_classes hissued (Nat.le_of_lt hissued),
    topLevelClass_eq_ok.2 ⟨issued_iff.1 hissued, rfl⟩⟩

/-- Whatever is asked about a handle that was not issued, the answer is that it is not known. -/
theorem unknown_of_not_issued (hunknown : ¬ p.Issued h) :
    p.get h = .error (.unknownHandle h) ∧ p.placement h = .error (.unknownHandle h) ∧
      p.topLevelClass h = .error (.unknownHandle h) ∧
      p.declaringClass h = .error (.unknownHandle h) ∧ p.symbol h = .error (.unknownHandle h) := by
  have hget := get_of_not_issued hunknown
  refine ⟨hget, ?_, ?_, ?_, ?_⟩
  · rw [placement, hget]
    rfl
  · rw [topLevelClass, hget]
    rfl
  · rw [declaringClass, hget]
    rfl
  · rw [symbol, hget]
    rfl

theorem expectClass_ne_ownerMissing (member : Handle) :
    p.expectClass h ≠ .error (.ownerMissing member) := by
  rw [expectClass]
  by_cases hissued : p.Issued h
  · obtain ⟨d, hd⟩ := issued_iff.1 hissued
    by_cases hclass : d.isClass = true <;>
      simp [hd, hclass, bind, Except.bind, pure, Except.pure, throw, throwThe,
        MonadExceptOf.throw]
  · simp [get_of_not_issued hissued, bind, Except.bind]

theorem edit_ne_ownerMissing (p : Program) (e : Edit) (member : Handle) :
    p.edit e ≠ .error (.ownerMissing member) := by
  have haddTo : ∀ (owner : Handle) (kind : DeclarationKind) (name descriptor : String),
      (do p.expectClass owner; return p.push kind name descriptor (some owner)) ≠
        Except.error (ProgramError.ownerMissing member) := by
    intro owner kind name descriptor
    have hne : p.expectClass owner ≠ .error (.ownerMissing member) :=
      expectClass_ne_ownerMissing member
    cases hclass : p.expectClass owner with
    | error cause =>
      rw [hclass] at hne
      exact fun heq => hne (congrArg Except.error (Except.error.inj heq))
    | ok u => exact fun heq => nomatch heq
  cases e with
  | addClass name => exact fun heq => nomatch heq
  | addNestedClass outer name => exact haddTo outer _ _ _
  | addMethod owner name descriptor => exact haddTo owner _ _ _
  | addConstructor owner descriptor => exact haddTo owner _ _ _
  | addField owner name descriptor => exact haddTo owner _ _ _
  | place h position =>
    by_cases hissued : p.Issued h
    · obtain ⟨d, hd⟩ := issued_iff.1 hissued
      simp [edit, place, hd, bind, Except.bind, pure, Except.pure, Except.map]
    · simp [edit, place, get_of_not_issued hissued, bind, Except.bind, Except.map]

/-- Whatever edits built a program, rejected ones included: as long as handles have not run out, its
tables agree (`Agreeing`). Every question about a handle that was issued has an answer, and the
outermost class is a top-level class; about any other handle the answer is that it is not known, so
nothing ever comes upon a member without a class. An edit that is rejected has changed nothing on
its way. -/
theorem Reachable.agreeing_and_answers (hp : p.Reachable) (hsize : p.size ≤ UInt32.size) :
    p.Agreeing ∧
    (∀ h, p.Issued h →
      (∃ d, p.get h = .ok d) ∧ (∃ placement, p.placement h = .ok placement) ∧
      (∃ c ∈ p.classes, p.topLevelClass h = .ok c) ∧ (∃ around, p.declaringClass h = .ok around) ∧
      ∃ s, p.symbol h = .ok s) ∧
    (∀ h, ¬ p.Issued h →
      p.get h = .error (.unknownHandle h) ∧ p.placement h = .error (.unknownHandle h) ∧
      p.topLevelClass h = .error (.unknownHandle h) ∧
      p.declaringClass h = .error (.unknownHandle h) ∧ p.symbol h = .error (.unknownHandle h)) ∧
    (∀ h member,
      p.get h ≠ .error (.ownerMissing member) ∧ p.placement h ≠ .error (.ownerMissing member) ∧
      p.topLevelClass h ≠ .error (.ownerMissing member) ∧
      p.declaringClass h ≠ .error (.ownerMissing member) ∧
      p.symbol h ≠ .error (.ownerMissing member)) ∧
    ∀ e cause, p.edit e = .error cause →
      (∀ member, cause ≠ .ownerMissing member) ∧ p.editInPlace e = (.error cause, p) := by
  have hagreeing : p.Agreeing := hp.agreeing hsize
  have hanswers : ∀ h, p.Issued h →
      (∃ d, p.get h = .ok d) ∧ (∃ placement, p.placement h = .ok placement) ∧
      (∃ c ∈ p.classes, p.topLevelClass h = .ok c) ∧ (∃ around, p.declaringClass h = .ok around) ∧
      ∃ s, p.symbol h = .ok s := by
    intro h hissued
    obtain ⟨d, hd⟩ := issued_iff.1 hissued
    refine ⟨⟨d, hd⟩, ⟨d.placement, ?_⟩, hagreeing.exists_topLevelClass hissued,
      hagreeing.exists_declaringClass hd, hagreeing.exists_symbol hd⟩
    rw [placement, hd]
    rfl
  refine ⟨hagreeing, hanswers, fun h => unknown_of_not_issued, fun h member => ?_,
    fun e cause he => ⟨fun member hcause => ?_, ?_⟩⟩
  · by_cases hissued : p.Issued h
    · obtain ⟨⟨d, hd⟩, ⟨placement, hplacement⟩, ⟨c, -, hc⟩, ⟨around, haround⟩, s, hs⟩ :=
        hanswers h hissued
      simp [hd, hplacement, hc, haround, hs]
    · obtain ⟨hget, hplacement, hc, haround, hs⟩ := unknown_of_not_issued hissued
      simp [hget, hplacement, hc, haround, hs]
  · exact edit_ne_ownerMissing p e member (hcause ▸ he)
  · rw [editInPlace_eq, afterEdit, he]
    rfl

open Sample in
/-- The member of a nested class has an outermost class, the handle behind the last one is not
known, and a field cannot be added to a method. -/
theorem agreeing_and_answers_nest :
    let p := Nest.program
    p.Reachable ∧ p.size = 8 ∧ p.Agreeing ∧
      p.members Nest.item = [Nest.itemConstructor, Nest.itemCopy] ∧
      (∃ c ∈ p.classes, p.topLevelClass Nest.itemCopy = .ok c) ∧
      p.symbol ⟨8⟩ = .error (.unknownHandle ⟨8⟩) ∧
      p.editInPlace (.addField Nest.bagFill "count" "I") =
        (.error (.notAClass Nest.bagFill), p) := by
  intro p
  have hp : p.Reachable := ⟨_, rfl⟩
  have hsize : p.size = 8 := by decide +kernel
  have hmethod : p.get Nest.bagFill =
      .ok ⟨Nest.bagFill, .methodDecl false, "fill", "()Ldemo/Shop$Item;", some ⟨18, 2⟩⟩ :=
    get_eq_ok.2 (by decide +kernel)
  have hrejected : p.edit (.addField Nest.bagFill "count" "I") =
      .error (.notAClass Nest.bagFill) := by
    rw [edit, addField, expectClass, hmethod]
    rfl
  have hissued : p.Issued Nest.itemCopy := by decide +kernel
  have hunknown : ¬ p.Issued ⟨8⟩ := by decide +kernel
  have hmembers : p.members Nest.item = [Nest.itemConstructor, Nest.itemCopy] := by decide +kernel
  obtain ⟨hagreeing, hanswers, hothers, -, hedits⟩ :=
    hp.agreeing_and_answers (hsize ▸ by decide)
  exact ⟨hp, hsize, hagreeing, hmembers, (hanswers _ hissued).2.2.1, (hothers _ hunknown).2.2.2.2,
    (hedits _ _ hrejected).2⟩

end Program

end CrossReference
