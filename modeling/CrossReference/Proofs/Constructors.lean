import CrossReference.Proofs.Ownership

/-!
# Usages of constructors

If using a constructor counts as using its class, the usages of the constructor are at every time
among the usages of the class, in the same order (`Index.Reachable.query_sublist_of_isConstructor`).
A pass files both together, also when it is given up later; a retraction treats both buckets alike,
because a constructor and its class lie in one outermost class, however deep the class is nested.
-/

namespace CrossReference

namespace Program

variable {p : Program} {h k around : Handle} {d : Declaration} {s s' owner owner' : Symbol}

/-- No two declarations of a program share their symbol. -/
def SymbolsDistinct (p : Program) : Prop :=
  ∀ ⦃h h' s⦄, p.symbol h = .ok s → p.symbol h' = .ok s → h = h'

instance (p : Program) : Decidable p.SymbolsDistinct :=
  decidable_of_iff
    (∀ h ∈ p.handles, ∀ h' ∈ p.handles, h ≠ h' →
      ∀ s ∈ (p.symbol h).toOption, p.symbol h' ≠ .ok s) <| by
  constructor
  · intro hdistinct h h' s hs hs'
    obtain ⟨d, hd, -⟩ := symbol_eq_ok hs
    obtain ⟨d', hd', -⟩ := symbol_eq_ok hs'
    by_contra hne
    exact hdistinct h (mem_handles hd) h' (mem_handles hd') hne s
      (by simp [hs, Except.toOption]) hs'
  · intro hdistinct h _ h' _ hne s hs hs'
    cases hsymbol : p.symbol h with
    | error cause => simp [hsymbol, Except.toOption] at hs
    | ok t =>
      obtain rfl : t = s := by simpa [hsymbol, Except.toOption] using hs
      exact hne (hdistinct hsymbol hs')

/-- `s` names a constructor, and `s'` the class in which it stands. -/
def ConstructorOf (p : Program) (s s' : Symbol) : Prop :=
  ∃ k around d, p.get k = .ok d ∧ d.isConstructor = true ∧ p.symbol k = .ok s ∧
    p.declaringClass k = .ok around ∧ p.symbol around = .ok s'

theorem isClass_of_isConstructor (hk : d.isConstructor = true) : d.isClass = false := by
  have hkind : d.kind = .methodDecl true := by simpa [Declaration.isConstructor] using hk
  simp [Declaration.isClass, hkind]

theorem Reachable.exists_constructorOf (hp : p.Reachable) (hd : p.get k = .ok d)
    (hk : d.isConstructor = true) :
    ∃ s around s', p.symbol k = .ok s ∧ p.declaringClass k = .ok around ∧
      p.symbol around = .ok s' := by
  obtain ⟨o, ho⟩ := hp.membersOwned hd (isClass_of_isConstructor hk)
  obtain ⟨c, hc, hclass⟩ := hp.sound.owner_isClass ho
  have hkind : d.kind = .methodDecl true := by simpa [Declaration.isConstructor] using hk
  have howner : p.owner k = .ok o := owner_eq_ok.2 ho
  refine ⟨.ofMethod c.name d.name d.descriptor, o, .ofClass c.name, ?_, ?_,
    symbol_of_isClass hc hclass⟩
  · simp [symbol, hd, hkind, howner, hc, bind, Except.bind, pure, Except.pure]
  · simp [declaringClass, hd, isClass_of_isConstructor hk, howner, bind, Except.bind]

theorem ConstructorOf.kind_ne (hs : p.ConstructorOf s s') : s.kind ≠ .classDecl := by
  obtain ⟨k, around, d, hd, hk, hsymbol, -, -⟩ := hs
  obtain ⟨d', hd', ⟨hclass, -⟩ | ⟨-, hkind, -⟩⟩ := symbol_eq_ok hsymbol
  · obtain rfl := Except.ok.inj (hd.symm.trans hd')
    exact absurd hclass (by simp [isClass_of_isConstructor hk])
  · exact hkind

theorem Sound.kind_of_declaringClass (hp : p.Sound) (ha : p.declaringClass h = .ok around)
    (hs : p.symbol around = .ok s) : s.kind = .classDecl := by
  have hclass : ∃ d, p.get around = .ok d ∧ d.isClass = true := by
    obtain ⟨d, hd, ⟨hclass, rfl⟩ | ⟨-, ho⟩⟩ := declaringClass_eq_ok ha
    · exact ⟨d, hd, hclass⟩
    · exact hp.owner_isClass ho
  obtain ⟨d, hd, hclass⟩ := hclass
  obtain rfl := Except.ok.inj ((symbol_of_isClass hd hclass).symm.trans hs)
  rfl

/-- A constructor is declared in the top-level class in which its class is declared. -/
theorem ConstructorOf.owner_eq (hs : p.ConstructorOf s s') (hp : p.Sound)
    (hsymbols : p.SymbolsDistinct) (h : p.DeclaredIn s owner) (h' : p.DeclaredIn s' owner') :
    owner = owner' := by
  obtain ⟨k, around, d, -, -, hsymbol, haround, haroundSymbol⟩ := hs
  obtain ⟨x, c, hx, hc, howner⟩ := h
  obtain ⟨x', c', hx', hc', howner'⟩ := h'
  obtain rfl : k = x := hsymbols hsymbol hx
  obtain rfl : around = x' := hsymbols haroundSymbol hx'
  have htop := hp.topLevelClass_declaringClass haround
  obtain rfl : c = c' := Except.ok.inj (hc.symm.trans (htop.trans hc'))
  exact Except.ok.inj (howner.symm.trans howner')

end Program

/-! ## A pass files both together -/

namespace Pass

variable {pass : Pass} {s s' : Symbol}

section

variable (hp : pass.program.Sound) (hsymbols : pass.program.SymbolsDistinct)
  (hdouble : pass.settings.constructorUsesClass = true) (hs : pass.program.ConstructorOf s s')

include hp hsymbols hdouble hs

theorem Reads.sublist_recordsFor {position : Position} {target : Handle} {c : Contribution}
    (h : pass.Reads position target c) :
    (Index.recordsFor s c.filings).Sublist (Index.recordsFor s' c.filings) := by
  have hkind := hs.kind_ne
  obtain ⟨k, around, d, hd, hk, hsymbol, haround, haroundSymbol⟩ := hs
  cases h with
  | declaration | missing | importLine => exact List.nil_sublist _
  | @usage _ _ symbol _ _ _ _ _ _ htarget hd' plain =>
    by_cases hsame : s = symbol
    · -- A usage of the constructor would have been filed twice.
      subst hsame
      obtain rfl : k = target := hsymbols hsymbol htarget
      obtain rfl := Except.ok.inj (hd.symm.trans hd')
      simp [hdouble, hk] at plain
    · simp [Contribution.filings, Index.recordsFor_cons, hsame]
  | @construction _ _ around' symbol aroundSymbol _ _ _ _ _ _ htarget _ _ haround' haroundSymbol' =>
    have hne : s ≠ aroundSymbol := fun heq =>
      hkind (heq ▸ hp.kind_of_declaringClass haround' haroundSymbol')
    by_cases hsame : s = symbol
    · subst hsame
      obtain rfl : k = target := hsymbols hsymbol htarget
      obtain rfl : around = around' := Except.ok.inj (haround.symm.trans haround')
      obtain rfl : s' = aroundSymbol := Except.ok.inj (haroundSymbol.symm.trans haroundSymbol')
      simp [Contribution.filings, Index.recordsFor_cons, hne, Ne.symm hne]
    · simp [Contribution.filings, Index.recordsFor_cons, hsame, hne]

/-- Whether or not a pass comes to its end, it has filed both records of each construction that it
has read. -/
theorem sublist_recordsFor_findings (entries : List (Position × Handle)) :
    (Index.recordsFor s (pass.findings entries).filings).Sublist
      (Index.recordsFor s' (pass.findings entries).filings) := by
  induction entries with
  | nil => exact List.nil_sublist _
  | cons e rest ih =>
    obtain ⟨position, target⟩ := e
    rw [findings]
    cases hexamine : pass.examine position target with
    | error cause => exact List.nil_sublist _
    | ok c =>
      dsimp only
      rw [Index.recordsFor_append, Index.recordsFor_append]
      exact (Reads.sublist_recordsFor hp hsymbols hdouble hs (reads_of_examine hexamine)).append ih

end

end Pass

namespace Index

open Sample

variable {i : Index} {p : Program} {s s' : Symbol}

theorem sublist_recordsFor_filingsOf (hp : p.Sound) (hsymbols : p.SymbolsDistinct)
    {settings : UsageSettings} (hdouble : settings.constructorUsesClass = true)
    (hs : p.ConstructorOf s s') (subject : Handle) (occurrences : Occurrences) (lines : List String)
    (locator : Locator) :
    (recordsFor s (filingsOf settings p subject occurrences lines locator)).Sublist
      (recordsFor s' (filingsOf settings p subject occurrences lines locator)) := by
  rw [filingsOf]
  split
  · exact List.nil_sublist _
  · next unit _ =>
    rw [published]
    let pass : Pass := ⟨p, subject, unit, lines, locator, settings⟩
    have hfound : (recordsFor s (pass.findings occurrences.toList).filings).Sublist
        (recordsFor s' (pass.findings occurrences.toList).filings) :=
      Pass.sublist_recordsFor_findings hp hsymbols hdouble hs occurrences.toList
    split
    · exact List.nil_sublist _
    · exact hfound
    · exact hfound

/-! ## At every time -/

/-- The usages of each constructor are among those of its class. -/
def ConstructorsCounted (i : Index) (p : Program) : Prop :=
  ∀ ⦃s s'⦄, p.ConstructorOf s s' → (i.query s).Sublist (i.query s')

theorem constructorsCounted_empty (settings : UsageSettings) :
    (empty settings).ConstructorsCounted p :=
  fun _ _ _ => List.nil_sublist _

theorem ConstructorsCounted.addClass (hi : i.ConstructorsCounted p) (hp : p.Sound)
    (hsymbols : p.SymbolsDistinct) (hdouble : i.settings.constructorUsesClass = true)
    (subject : Handle) (occurrences : Occurrences) (lines : List String) (locator : Locator) :
    (i.addClass p subject occurrences lines locator).1.ConstructorsCounted p := by
  intro s s' hs
  rw [query_addClass, query_addClass]
  exact (hi hs).append
    (sublist_recordsFor_filingsOf hp hsymbols hdouble hs subject occurrences lines locator)

/-- If the bucket of the class goes as a whole, so does the bucket of the constructor. -/
theorem ConstructorsCounted.retract (hi : i.ConstructorsCounted p) (howners : i.OwnersDeclared p)
    (hp : p.Sound) (hsymbols : p.SymbolsDistinct) (unit : Symbol) :
    (i.retract unit).1.ConstructorsCounted p := by
  intro s s' hs
  rw [query_retract, query_retract]
  by_cases hgone : i.bucketOwner? s' = some unit
  · cases howner : i.bucketOwner? s with
    | none =>
      rw [query_eq_nil_of_bucketOwner?_eq_none howner]
      simp
    | some owner =>
      obtain rfl : owner = unit := hs.owner_eq hp hsymbols (howners howner) (howners hgone)
      rw [if_pos rfl]
      exact List.nil_sublist _
  · rw [if_neg hgone]
    split
    · exact List.nil_sublist _
    · exact (hi hs).filter _

theorem isInvariant_constructorsCounted (hp : p.Sound) (hsymbols : p.SymbolsDistinct) :
    IsInvariant p fun i =>
      i.settings.constructorUsesClass = true ∧ i.OwnersDeclared p ∧ i.ConstructorsCounted p where
  addClass {i} subject occurrences lines locator hi := by
    obtain ⟨hdouble, howners, hcounted⟩ := hi
    rw [addClass_settings]
    exact ⟨hdouble, howners.addClass hp subject occurrences lines locator,
      hcounted.addClass hp hsymbols hdouble subject occurrences lines locator⟩
  retract unit hi :=
    ⟨hi.1, hi.2.1.retract unit, hi.2.2.retract hi.2.1 hp hsymbols unit⟩
  clear hi := ⟨hi.1, ownersDeclared_empty _, constructorsCounted_empty _⟩

/-- If using a constructor counts as using its class, then at every time the usages of a constructor
are among the usages of the class in which it stands, as often and in the same order. -/
theorem Reachable.query_sublist_of_isConstructor (hprogram : p.Reachable)
    (hsymbols : p.SymbolsDistinct) (hi : i.Reachable p)
    (hdouble : i.settings.constructorUsesClass = true) {k : Handle} {d : Declaration}
    (hd : p.get k = .ok d) (hk : d.isConstructor = true) :
    ∃ s around s', p.symbol k = .ok s ∧ p.declaringClass k = .ok around ∧
      p.symbol around = .ok s' ∧ (i.query s).Sublist (i.query s') := by
  have hp : p.Sound := hprogram.sound
  obtain ⟨s, around, s', hs, haround, haroundSymbol⟩ := hprogram.exists_constructorOf hd hk
  obtain ⟨-, -, hcounted⟩ := (isInvariant_constructorsCounted hp hsymbols).of_reachable
    ⟨hdouble, ownersDeclared_empty _, constructorsCounted_empty _⟩ hi
  exact ⟨s, around, s', hs, haround, haroundSymbol,
    hcounted ⟨k, around, d, hd, hk, hs, haround, haroundSymbol⟩⟩

/-- Two uses of the constructor of a nested class, one of them in the outer class, behind a pass
that was given up and a refresh: both are among the three uses of the nested class. -/
theorem query_sublist_of_isConstructor_nest :
    let broken : ClassText := { Nest.tillText with
      occurrences := .ofList [(⟨39, 3⟩, Nest.itemConstructor), (⟨50, 3⟩, ⟨9⟩)] }
    let index := (empty { publication := .streaming }).after Nest.program
      [.add broken, .add Nest.shopText, .refresh Nest.tillText]
    let constructor := Symbol.ofMethod "demo.Shop$Item" "<init>" "()V"
    let item := Symbol.ofClass "demo.Shop$Item"
    Nest.program.SymbolsDistinct ∧ (index.query constructor).length = 2 ∧
      (index.query item).length = 3 ∧ (index.query constructor).Sublist (index.query item) := by
  intro broken index constructor item
  have hprogram : Nest.program.Reachable := ⟨_, rfl⟩
  have hsymbols : Nest.program.SymbolsDistinct := by decide +kernel
  have hreachable : index.Reachable Nest.program := reachable_after Nest.program _ _
  have hdouble : index.settings.constructorUsesClass = true := by
    rw [after_settings]
    rfl
  have hconstructor : Nest.program.get Nest.itemConstructor =
      .ok ⟨Nest.itemConstructor, .methodDecl true, "<init>", "()V", none⟩ := by decide +kernel
  have hsymbol : Nest.program.symbol Nest.itemConstructor = .ok constructor := by decide +kernel
  have haround : Nest.program.declaringClass Nest.itemConstructor = .ok Nest.item := by
    decide +kernel
  have haroundSymbol : Nest.program.symbol Nest.item = .ok item := by decide +kernel
  have htwo : (index.query constructor).length = 2 := by decide +kernel
  have hthree : (index.query item).length = 3 := by decide +kernel
  -- From here on it does not matter how the index came about.
  clear_value index
  obtain ⟨s, around, s', hs, ha, has, hsublist⟩ :=
    hreachable.query_sublist_of_isConstructor hprogram hsymbols hdouble hconstructor (by decide)
  rw [hsymbol] at hs
  rw [haround] at ha
  obtain rfl := Except.ok.inj ha
  rw [haroundSymbol] at has
  rw [← Except.ok.inj hs, ← Except.ok.inj has] at hsublist
  exact ⟨hsymbols, htwo, hthree, hsublist⟩

end Index

end CrossReference
