import CrossReference.OrderedMap.Lemmas
import CrossReference.Program.Containment
import CrossReference.Program.Edit

/-!
# Containment of declarations

Which class a declaration lies in, for every program that edits can build. Owners are classes and
stand at or before their members (`Program.Sound`), so following owners comes to an end within the
number of declarations, and asking for the outermost class gives the same answer for a member and
for the class around it.

If no two classes share a binary name (`Program.ClassNamesDistinct`), a symbol determines the
outermost class of the declarations it names, although it need not determine the declaration: two
members of one class may share their symbol.
-/

namespace CrossReference

theorem bind_eq_ok {ε α β : Type} {x : Except ε α} {f : α → Except ε β} {b : β} :
    x >>= f = .ok b ↔ ∃ a, x = .ok a ∧ f a = .ok b := by
  cases x with
  | error e => simp [bind, Except.bind]
  | ok a => simp [bind, Except.bind]

namespace Program

variable {p : Program} {h o : Handle}

/-! ## Questions about one handle -/

theorem get_eq_ok {d : Declaration} :
    p.get h = .ok d ↔ p.declarations[h.index.toNat]? = some d := by
  rw [get]
  cases p.declarations[h.index.toNat]? with
  | none => simp
  | some d' => simp

theorem index_lt_size {d : Declaration} (hd : p.get h = .ok d) : h.index.toNat < p.size := by
  obtain ⟨hlt, -⟩ := Array.getElem?_eq_some_iff.1 (get_eq_ok.1 hd)
  exact hlt

theorem placement_of_get {d : Declaration} (hd : p.get h = .ok d) :
    p.placement h = .ok d.placement := by
  rw [placement, hd]
  rfl

theorem expectClass_eq_ok : p.expectClass h = .ok () ↔ ∃ d, p.get h = .ok d ∧ d.isClass = true := by
  rw [expectClass, bind_eq_ok]
  refine exists_congr fun d => and_congr_right fun _ => ?_
  by_cases hd : d.isClass = true
  · simp [hd, pure, Except.pure]
  · simp [hd, throw, throwThe, MonadExceptOf.throw]

theorem owner_eq_ok : p.owner h = .ok o ↔ p.owner? h = some o := by
  rw [owner]
  cases p.owner? h with
  | none => simp
  | some o' => simp

/-- The class in which a member stands is its owner, and a class stands for itself. -/
theorem declaringClass_eq_ok {around : Handle} (ha : p.declaringClass h = .ok around) :
    ∃ d, p.get h = .ok d ∧
      (d.isClass = true ∧ around = h ∨ d.isClass = false ∧ p.owner? h = some around) := by
  rw [declaringClass, bind_eq_ok] at ha
  obtain ⟨d, hd, ha⟩ := ha
  refine ⟨d, hd, ?_⟩
  by_cases hc : d.isClass = true
  · rw [if_pos hc] at ha
    exact .inl ⟨hc, (Except.ok.inj ha).symm⟩
  · rw [if_neg hc] at ha
    exact .inr ⟨by simpa using hc, owner_eq_ok.1 ha⟩

/-- The symbol of a class is made from its name, that of a member from the name of its owner. -/
theorem symbol_eq_ok {s : Symbol} (hs : p.symbol h = .ok s) :
    ∃ d, p.get h = .ok d ∧
      (d.isClass = true ∧ s = .ofClass d.name ∨
        d.isClass = false ∧ s.kind ≠ .classDecl ∧
          ∃ o around, p.owner? h = some o ∧ p.get o = .ok around ∧ s.className = around.name) := by
  rw [symbol, bind_eq_ok] at hs
  obtain ⟨d, hd, hs⟩ := hs
  refine ⟨d, hd, ?_⟩
  cases hk : d.kind with
  | classDecl =>
    rw [hk] at hs
    exact .inl ⟨by simp [Declaration.isClass, hk], (Except.ok.inj hs).symm⟩
  | fieldDecl =>
    simp only [hk, bind_eq_ok, pure, Except.pure, Except.ok.injEq] at hs
    obtain ⟨o, ho, around, haround, rfl⟩ := hs
    exact .inr ⟨by simp [Declaration.isClass, hk], by simp [Symbol.ofField], o, around,
      owner_eq_ok.1 ho, haround, rfl⟩
  | methodDecl constructor =>
    simp only [hk, bind_eq_ok, pure, Except.pure, Except.ok.injEq] at hs
    obtain ⟨o, ho, around, haround, rfl⟩ := hs
    exact .inr ⟨by simp [Declaration.isClass, hk], by simp [Symbol.ofMethod], o, around,
      owner_eq_ok.1 ho, haround, rfl⟩

theorem symbol_of_isClass {d : Declaration} (hd : p.get h = .ok d) (hc : d.isClass = true) :
    p.symbol h = .ok (.ofClass d.name) := by
  have hk : d.kind = .classDecl := by simpa [Declaration.isClass] using hc
  rw [symbol, hd]
  simp [bind, Except.bind, hk, pure, Except.pure]

theorem topLevelSymbol_eq_ok {s : Symbol} :
    p.topLevelSymbol h = .ok s ↔
      ∃ d, p.get h = .ok d ∧ d.isClass = true ∧ p.owner? h = none ∧ s = .ofClass d.name := by
  rw [topLevelSymbol, bind_eq_ok]
  constructor
  · rintro ⟨⟨⟩, hclass, hs⟩
    obtain ⟨d, hd, hc⟩ := expectClass_eq_ok.1 hclass
    cases ho : p.owner? h with
    | some o => simp [ho, throw, throwThe, MonadExceptOf.throw] at hs
    | none =>
      rw [ho] at hs
      exact ⟨d, hd, hc, rfl, Except.ok.inj (hs.symm.trans (symbol_of_isClass hd hc))⟩
  · rintro ⟨d, hd, hc, ho, rfl⟩
    refine ⟨(), expectClass_eq_ok.2 ⟨d, hd, hc⟩, ?_⟩
    rw [ho]
    exact symbol_of_isClass hd hc

theorem symbol_of_topLevelSymbol {s : Symbol} (hs : p.topLevelSymbol h = .ok s) :
    p.symbol h = .ok s := by
  obtain ⟨d, hd, hc, -, rfl⟩ := topLevelSymbol_eq_ok.1 hs
  exact symbol_of_isClass hd hc

/-! ## Class names -/

/-- No two classes of a program, top-level or nested, share a binary name. -/
def ClassNamesDistinct (p : Program) : Prop :=
  p.declarations.toList.Pairwise fun d d' => d.isClass = true → d'.isClass = true → d.name ≠ d'.name

instance (p : Program) : Decidable p.ClassNamesDistinct :=
  inferInstanceAs (Decidable (List.Pairwise _ _))

theorem ClassNamesDistinct.eq_of_name_eq (hn : p.ClassNamesDistinct) {h' : Handle}
    {d d' : Declaration} (hd : p.get h = .ok d) (hd' : p.get h' = .ok d')
    (hc : d.isClass = true) (hc' : d'.isClass = true) (hname : d.name = d'.name) : h = h' := by
  rw [get_eq_ok, ← Array.getElem?_toList, List.getElem?_eq_some_iff] at hd hd'
  obtain ⟨hlt, hd⟩ := hd
  obtain ⟨hlt', hd'⟩ := hd'
  have hpair := List.pairwise_iff_getElem.1 hn
  -- Two different places would make a pair of classes with one name.
  have hindex : h.index.toNat = h'.index.toNat := by
    rcases Nat.lt_trichotomy h.index.toNat h'.index.toNat with hless | heq | hgreater
    · have hne := hpair _ _ hlt hlt' hless
      rw [hd, hd'] at hne
      exact absurd hname (hne hc hc')
    · exact heq
    · have hne := hpair _ _ hlt' hlt hgreater
      rw [hd, hd'] at hne
      exact absurd hname.symm (hne hc' hc)
  cases h; cases h'
  exact congrArg Handle.mk (UInt32.toNat_inj.1 hindex)

theorem ClassNamesDistinct.topLevelSymbol_injective (hn : p.ClassNamesDistinct) {h' : Handle}
    {s : Symbol} (hs : p.topLevelSymbol h = .ok s) (hs' : p.topLevelSymbol h' = .ok s) :
    h = h' := by
  obtain ⟨d, hd, hc, -, rfl⟩ := topLevelSymbol_eq_ok.1 hs
  obtain ⟨d', hd', hc', -, heq⟩ := topLevelSymbol_eq_ok.1 hs'
  exact hn.eq_of_name_eq hd hd' hc hc' (congrArg Symbol.className heq)

/-! ## Soundness of the owner table -/

/-- Owners are classes of the program, and no owner stands behind its member. Once the handles are
used up, the last one may come to own itself. -/
structure Sound (p : Program) : Prop where
  owner_isClass : ∀ {h o : Handle}, p.owner? h = some o → ∃ d, p.get o = .ok d ∧ d.isClass = true
  owner_le : ∀ {h o : Handle}, p.owner? h = some o → o.index.toNat ≤ h.index.toNat

/-- Soundness carries over to a program that still has the classes and whose new owner entries are
sound on their own. -/
theorem Sound.of_owner? (hp : p.Sound) {q : Program}
    (hclass : ∀ {h d}, p.get h = .ok d → d.isClass = true →
      ∃ d', q.get h = .ok d' ∧ d'.isClass = true)
    (howner : ∀ {h o}, q.owner? h = some o → p.owner? h = some o ∨
      (∃ d, p.get o = .ok d ∧ d.isClass = true) ∧ o.index.toNat ≤ h.index.toNat) : q.Sound where
  owner_isClass ho := by
    rcases howner ho with hold | ⟨⟨d, hd, hc⟩, -⟩
    · obtain ⟨d, hd, hc⟩ := hp.owner_isClass hold
      exact hclass hd hc
    · exact hclass hd hc
  owner_le ho := by
    rcases howner ho with hold | ⟨-, hle⟩
    · exact hp.owner_le hold
    · exact hle

@[simp] theorem enterSymbol_declarations (p : Program) (h : Handle) :
    (p.enterSymbol h).declarations = p.declarations := by
  rw [enterSymbol]
  split <;> rfl

@[simp] theorem enterSymbol_owners (p : Program) (h : Handle) :
    (p.enterSymbol h).owners = p.owners := by
  rw [enterSymbol]
  split <;> rfl

@[simp] theorem declarations_push (p : Program) (kind : DeclarationKind) (name descriptor : String)
    (owner : Option Handle) :
    (p.push kind name descriptor owner).1.declarations =
      p.declarations.push ⟨Handle.ofCount p.size, kind, name, descriptor, none⟩ := by
  rw [push, enterSymbol_declarations]
  cases owner <;> rfl

theorem owner?_push (p : Program) (kind : DeclarationKind) (name descriptor : String)
    (owner : Option Handle) (h : Handle) :
    (p.push kind name descriptor owner).1.owner? h =
      if h = Handle.ofCount p.size then owner <|> p.owner? h else p.owner? h := by
  rw [owner?, push, enterSymbol_owners]
  cases owner with
  | none => simp [declare, owner?]
  | some o =>
    rw [declare, OrderedMap.get?_insert]
    by_cases hnew : h = Handle.ofCount p.size <;> simp [hnew, owner?]

theorem get_push {d : Declaration} (hd : p.get h = .ok d) (kind : DeclarationKind)
    (name descriptor : String) (owner : Option Handle) :
    (p.push kind name descriptor owner).1.get h = .ok d := by
  have hlt : h.index.toNat < p.declarations.size := index_lt_size hd
  rw [get_eq_ok] at hd ⊢
  rw [declarations_push, Array.getElem?_push, if_neg (Nat.ne_of_lt hlt), hd]

theorem toNat_index_ofCount (n : Nat) :
    (Handle.ofCount n).index.toNat = min n (UInt32.size - 1) := by
  rw [Handle.ofCount, UInt32.ofNatClamp]
  split
  · next hlt =>
    rw [UInt32.toNat_ofNatLT]
    omega
  · next hge =>
    rw [UInt32.toNat_ofNatLT]
    omega

theorem Sound.push (hp : p.Sound) (kind : DeclarationKind) (name descriptor : String)
    {owner : Option Handle}
    (howner : ∀ o ∈ owner, ∃ d, p.get o = .ok d ∧ d.isClass = true) :
    (p.push kind name descriptor owner).1.Sound := by
  refine hp.of_owner? (fun hd hc => ⟨_, get_push hd .., hc⟩) fun {h o} ho => ?_
  rw [owner?_push] at ho
  split at ho
  · next hnew =>
    cases owner with
    | none => exact .inl (by simpa using ho)
    | some o' =>
      obtain rfl : o' = o := by simpa using ho
      obtain ⟨d, hd, hc⟩ := howner o' rfl
      refine .inr ⟨⟨d, hd, hc⟩, ?_⟩
      -- The owner is an earlier declaration, and handles never pass the last one.
      have hlt := index_lt_size hd
      have hword := o'.index.toNat_lt
      rw [hnew, toNat_index_ofCount]
      simp only [UInt32.size]
      omega
  · exact .inl ho

/-- An edit that adds something to a class does nothing if there is no such class. -/
theorem afterEdit_of_member {e : Edit} {kind : DeclarationKind} {name descriptor : String}
    {owner : Handle}
    (he : p.edit e = (do p.expectClass owner; return p.push kind name descriptor (some owner))) :
    p.afterEdit e = p ∨ ∃ kind name descriptor owner, p.expectClass owner = .ok () ∧
      p.afterEdit e = (p.push kind name descriptor (some owner)).1 := by
  rw [afterEdit, he]
  cases hclass : p.expectClass owner with
  | error cause => exact .inl rfl
  | ok u => exact .inr ⟨kind, name, descriptor, owner, hclass, rfl⟩

/-- What an edit does: nothing, or it adds a top-level class, or it adds something to a class, or it
places a declaration. -/
theorem afterEdit_cases (p : Program) (e : Edit) :
    p.afterEdit e = p ∨
    (∃ name, p.afterEdit e = (p.addClass name).1) ∨
    (∃ kind name descriptor owner, p.expectClass owner = .ok () ∧
      p.afterEdit e = (p.push kind name descriptor (some owner)).1) ∨
    ∃ h position d, p.get h = .ok d ∧
      p.afterEdit e = { p with
        declarations :=
          p.declarations.setIfInBounds h.index.toNat { d with placement := some position } } := by
  cases e with
  | addClass name => exact .inr (.inl ⟨name, rfl⟩)
  -- Whatever is added to a class, only what is pushed differs.
  | addNestedClass | addMethod | addConstructor | addField =>
    exact (afterEdit_of_member rfl).imp_right fun h => .inr (.inl h)
  | place h position =>
    cases hd : p.get h with
    | error cause =>
      exact .inl (by simp [afterEdit, edit, place, hd, bind, Except.bind, Except.map])
    | ok d =>
      refine .inr (.inr (.inr ⟨h, position, d, hd, ?_⟩))
      simp [afterEdit, edit, place, hd, bind, Except.bind, Except.map, pure, Except.pure]

/-- What the empty program has, and what adding a top-level class, adding something to a class and
placing a declaration keep, every program has that edits can build. -/
theorem Reachable.induction {P : Program → Prop} (hp : p.Reachable) (hempty : P empty)
    (haddClass : ∀ {p} name, P p → P (p.addClass name).1)
    (hmember : ∀ {p} kind name descriptor {owner}, p.expectClass owner = .ok () → P p →
      P (p.push kind name descriptor (some owner)).1)
    (hplace : ∀ {p h d} position, p.get h = .ok d → P p →
      P { p with
        declarations :=
          p.declarations.setIfInBounds h.index.toNat { d with placement := some position } }) :
    P p := by
  have hstep : ∀ q e, P q → P (q.afterEdit e) := by
    intro q e hq
    rcases afterEdit_cases q e with heq | ⟨name, heq⟩ |
      ⟨kind, name, descriptor, owner, hclass, heq⟩ | ⟨h, position, d, hd, heq⟩
    · rw [heq]
      exact hq
    · rw [heq]
      exact haddClass name hq
    · rw [heq]
      exact hmember kind name descriptor hclass hq
    · rw [heq]
      exact hplace position hd hq
  obtain ⟨edits, rfl⟩ := hp
  suffices hrun : ∀ q, P q → P (q.afterEdits edits) from hrun empty hempty
  induction edits with
  | nil => exact fun q hq => hq
  | cons e rest ih => exact fun q hq => ih (q.afterEdit e) (hstep q e hq)

/-- Placing a declaration changes nothing but where it is placed. -/
theorem get_placed {d : Declaration} (hd : p.get h = .ok d) (position : Position) (h' : Handle) :
    ({ p with
        declarations :=
          p.declarations.setIfInBounds h.index.toNat { d with placement := some position } } :
      Program).get h' =
      (p.get h').map fun d' => if h' = h then { d' with placement := some position } else d' := by
  by_cases hsame : h' = h
  · subst hsame
    have hplaced : (p.declarations.setIfInBounds h'.index.toNat
        { d with placement := some position })[h'.index.toNat]? =
          some { d with placement := some position } :=
      Array.getElem?_setIfInBounds_self_of_lt (index_lt_size hd)
    rw [get_eq_ok.2 hplaced, hd]
    simp [Except.map]
  · have hne : h.index.toNat ≠ h'.index.toNat := fun heq =>
      hsame (Handle.eq_of_toNat_eq heq.symm)
    rw [get, get, Array.getElem?_setIfInBounds_ne hne]
    cases p.declarations[h'.index.toNat]? <;> simp [Except.map, hsame]

theorem sound_empty : (empty : Program).Sound where
  owner_isClass ho := by cases ho
  owner_le ho := by cases ho

/-- Whatever edits built a program, its owner table is sound. -/
theorem Reachable.sound (hp : p.Reachable) : p.Sound := by
  refine hp.induction sound_empty (fun {p} name hp => ?_)
    (fun {p} kind name descriptor {owner} hclass hp => ?_) (fun {p h d} position hd hp => ?_)
  · -- A top-level class is pushed without an owner; the list of classes is not looked at.
    have hpush : (p.push .classDecl name "" none).1.Sound :=
      hp.push .classDecl name "" fun o ho => nomatch ho
    exact ⟨hpush.owner_isClass, hpush.owner_le⟩
  · refine hp.push kind name descriptor fun o ho => ?_
    obtain rfl : owner = o := Option.some.inj ho
    exact expectClass_eq_ok.1 hclass
  · refine hp.of_owner? (fun {h' d'} hd' hc => ?_) .inl
    rw [get_placed hd, hd']
    refine ⟨_, rfl, ?_⟩
    split <;> exact hc

/-! ## Outermost classes -/

theorem climb_of_owner?_eq_none (ho : p.owner? h = none) (steps : Nat) : p.climb steps h = h := by
  cases steps with
  | zero => rfl
  | succ steps => rw [climb, ho]

theorem climb_of_owner?_eq_self (ho : p.owner? h = some h) (steps : Nat) : p.climb steps h = h := by
  induction steps with
  | zero => rfl
  | succ steps ih =>
    rw [climb, ho]
    exact ih

/-- An owner stands strictly in front of its member, unless the member owns itself. -/
theorem Sound.owner_lt_or_eq (hp : p.Sound) (ho : p.owner? h = some o) :
    o.index.toNat < h.index.toNat ∨ o = h := by
  rcases Nat.lt_or_eq_of_le (hp.owner_le ho) with hlt | heq
  · exact .inl hlt
  · exact .inr (Handle.eq_of_toNat_eq heq)

/-- As many steps as the handle has predecessors are enough; a further one changes nothing. -/
theorem Sound.climb_succ (hp : p.Sound) {steps : Nat} (hle : h.index.toNat ≤ steps) :
    p.climb (steps + 1) h = p.climb steps h := by
  -- Each step either ends the climb for good or leads strictly to the front.
  induction steps generalizing h with
  | zero =>
    cases ho : p.owner? h with
    | none => rw [climb_of_owner?_eq_none ho, climb_of_owner?_eq_none ho]
    | some o =>
      rcases hp.owner_lt_or_eq ho with hlt | rfl
      · omega
      · rw [climb_of_owner?_eq_self ho, climb_of_owner?_eq_self ho]
  | succ steps ih =>
    cases ho : p.owner? h with
    | none => rw [climb_of_owner?_eq_none ho, climb_of_owner?_eq_none ho]
    | some o =>
      rcases hp.owner_lt_or_eq ho with hlt | rfl
      · rw [climb, ho, climb, ho]
        exact ih (by omega)
      · rw [climb_of_owner?_eq_self ho, climb_of_owner?_eq_self ho]

theorem topLevelClass_eq_ok {c : Handle} :
    p.topLevelClass h = .ok c ↔ (∃ d, p.get h = .ok d) ∧ c = p.climb p.size h := by
  rw [topLevelClass, bind_eq_ok]
  simp [pure, Except.pure, eq_comm]

/-- A declaration and the class directly around it have one outermost class. -/
theorem Sound.topLevelClass_owner (hp : p.Sound) {d : Declaration} (hd : p.get h = .ok d)
    (ho : p.owner? h = some o) : p.topLevelClass h = p.topLevelClass o := by
  obtain ⟨c, hc, -⟩ := hp.owner_isClass ho
  obtain ⟨steps, hsize⟩ : ∃ steps, p.size = steps + 1 :=
    Nat.exists_eq_succ_of_ne_zero
      (Nat.ne_of_gt (Nat.lt_of_le_of_lt (Nat.zero_le _) (index_lt_size hc)))
  have hlt := index_lt_size hc
  -- The climb from `o` has one step less to go, which it does not need.
  have hclimb : p.climb p.size h = p.climb p.size o := by
    rw [hsize, climb, ho, hp.climb_succ (by omega)]
  rw [topLevelClass_eq_ok.2 ⟨⟨d, hd⟩, rfl⟩, topLevelClass_eq_ok.2 ⟨⟨c, hc⟩, rfl⟩, hclimb]

theorem Sound.topLevelClass_declaringClass (hp : p.Sound) {around : Handle}
    (ha : p.declaringClass h = .ok around) : p.topLevelClass h = p.topLevelClass around := by
  obtain ⟨d, hd, ⟨-, rfl⟩ | ⟨-, ho⟩⟩ := declaringClass_eq_ok ha
  · rfl
  · exact hp.topLevelClass_owner hd ho

/-- If class names are distinct, declarations with one symbol have one outermost class. -/
theorem Sound.topLevelClass_eq_of_symbol_eq (hp : p.Sound) (hn : p.ClassNamesDistinct)
    {h' : Handle} {s : Symbol} (hs : p.symbol h = .ok s) (hs' : p.symbol h' = .ok s) :
    p.topLevelClass h = p.topLevelClass h' := by
  obtain ⟨d, hd, ⟨hc, rfl⟩ | ⟨-, hkind, o, around, ho, ha, hname⟩⟩ := symbol_eq_ok hs
  · obtain ⟨d', hd', ⟨hc', heq⟩ | ⟨-, hkind', -⟩⟩ := symbol_eq_ok hs'
    · rw [hn.eq_of_name_eq hd hd' hc hc' (congrArg Symbol.className heq)]
    · exact absurd rfl hkind'
  · obtain ⟨d', hd', ⟨hc', heq⟩ | ⟨-, -, o', around', ho', ha', hname'⟩⟩ := symbol_eq_ok hs'
    · exact absurd (heq ▸ rfl) hkind
    · -- Both are members, and the class name in the symbol singles out their owner.
      obtain ⟨c, hc, hcclass⟩ := hp.owner_isClass ho
      obtain ⟨c', hc', hcclass'⟩ := hp.owner_isClass ho'
      obtain rfl : around = c := Except.ok.inj (ha.symm.trans hc)
      obtain rfl : around' = c' := Except.ok.inj (ha'.symm.trans hc')
      have hsame : o = o' :=
        hn.eq_of_name_eq ha ha' hcclass hcclass' (hname.symm.trans hname')
      rw [hp.topLevelClass_owner hd ho, hp.topLevelClass_owner hd' ho', hsame]

end Program

end CrossReference
