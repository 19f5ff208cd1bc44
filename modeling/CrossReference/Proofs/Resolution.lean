import CrossReference.Proofs.Constructors
import CrossReference.Proofs.Tables
import Mathlib.Data.List.Basic

/-!
# Resolving symbols

The table that leads from symbols back to handles is written when a declaration is added, before
anything that is added later is there. Symbols never change afterwards, so the table leads from a
symbol to the declaration added last among those that have it (`Program.ResolvesLatest`).

Two declarations have one symbol only if they stand in classes of one name and their signatures read
the same. A signature runs name and descriptor together; it can be taken apart again if the name
does not contain what the descriptor starts with (`Declaration.SignatureSplits`). If in addition no
class name and no member is declared twice, every declaration has a symbol of its own, which leads
back to it (`Program.Reachable.resolve_eq_some_iff_latest`).
-/

namespace CrossReference

/-! ## Signatures -/

/-- What stands in front of the first mark and what stands behind it can be told from the whole. -/
theorem append_cons_inj_of_not_mem {α : Type} {mark : α} {front front' back back' : List α}
    (hfront : mark ∉ front) (hfront' : mark ∉ front')
    (heq : front ++ mark :: back = front' ++ mark :: back') : front = front' ∧ back = back' := by
  induction front generalizing front' with
  | nil =>
    cases front' with
    | nil => exact ⟨rfl, (List.cons.inj heq).2⟩
    | cons a rest =>
      obtain rfl : mark = a := (List.cons.inj heq).1
      exact absurd List.mem_cons_self hfront'
  | cons a rest ih =>
    cases front' with
    | nil =>
      obtain rfl : a = mark := (List.cons.inj heq).1
      exact absurd List.mem_cons_self hfront
    | cons a' rest' =>
      obtain ⟨rfl, hrest⟩ := List.cons.inj heq
      obtain ⟨rfl, rfl⟩ := ih (fun hmem => hfront (List.mem_cons_of_mem _ hmem))
        (fun hmem => hfront' (List.mem_cons_of_mem _ hmem)) hrest
      exact ⟨rfl, rfl⟩

namespace Declaration

variable {d d' : Declaration} {c c' : String}

/-- The name of a member does not contain the mark at which its descriptor starts: a colon in front
of the type of a field, the opening parenthesis of the type of a method. -/
def SignatureSplits (d : Declaration) : Prop :=
  (d.kind = .fieldDecl → ':' ∉ d.name.toList) ∧
    (d.isMethod = true → '(' ∉ d.name.toList ∧ d.descriptor.toList.head? = some '(')

instance (d : Declaration) : Decidable d.SignatureSplits := inferInstanceAs (Decidable (_ ∧ _))

/-- Two members that read the same: both are fields or both are methods, with one name
and one descriptor. -/
def SameMember (d d' : Declaration) : Prop :=
  d.isClass = false ∧ d'.isClass = false ∧ d.isMethod = d'.isMethod ∧ d.name = d'.name ∧
    d.descriptor = d'.descriptor

instance (d d' : Declaration) : Decidable (d.SameMember d') := inferInstanceAs (Decidable (_ ∧ _))

end Declaration

theorem Symbol.ofField_injective {c c' name name' descriptor descriptor' : String}
    (hname : ':' ∉ name.toList) (hname' : ':' ∉ name'.toList)
    (heq : ofField c name descriptor = ofField c' name' descriptor') :
    c = c' ∧ name = name' ∧ descriptor = descriptor' := by
  have hsignature : name ++ ":" ++ descriptor = name' ++ ":" ++ descriptor' :=
    congrArg Symbol.signature heq
  have hlists : name.toList ++ ':' :: descriptor.toList =
      name'.toList ++ ':' :: descriptor'.toList := by
    simpa using congrArg String.toList hsignature
  obtain ⟨hn, hd⟩ := append_cons_inj_of_not_mem hname hname' hlists
  exact ⟨congrArg Symbol.className heq, String.toList_inj.1 hn, String.toList_inj.1 hd⟩

theorem Symbol.ofMethod_injective {c c' name name' descriptor descriptor' : String}
    (hname : '(' ∉ name.toList) (hname' : '(' ∉ name'.toList)
    (hdescriptor : descriptor.toList.head? = some '(')
    (hdescriptor' : descriptor'.toList.head? = some '(')
    (heq : ofMethod c name descriptor = ofMethod c' name' descriptor') :
    c = c' ∧ name = name' ∧ descriptor = descriptor' := by
  obtain ⟨parameters, hparameters⟩ := List.head?_eq_some_iff.1 hdescriptor
  obtain ⟨parameters', hparameters'⟩ := List.head?_eq_some_iff.1 hdescriptor'
  have hsignature : name ++ descriptor = name' ++ descriptor' := congrArg Symbol.signature heq
  have hlists : name.toList ++ '(' :: parameters = name'.toList ++ '(' :: parameters' := by
    simpa [hparameters, hparameters'] using congrArg String.toList hsignature
  obtain ⟨hn, rfl⟩ := append_cons_inj_of_not_mem hname hname' hlists
  exact ⟨congrArg Symbol.className heq, String.toList_inj.1 hn,
    String.toList_inj.1 (hparameters.trans hparameters'.symm)⟩

/-- If their signatures can be taken apart, two declarations have one symbol only if they are
classes of one name, or members that read the same in classes of one name. -/
theorem Declaration.symbolIn_inj {d d' : Declaration} {c c' : String} (hd : d.SignatureSplits)
    (hd' : d'.SignatureSplits) (heq : d.symbolIn c = d'.symbolIn c') :
    d.isClass = true ∧ d'.isClass = true ∧ d.name = d'.name ∨ c = c' ∧ d.SameMember d' := by
  rw [symbolIn, symbolIn] at heq
  cases hkind : d.kind <;> cases hkind' : d'.kind <;> rw [hkind, hkind'] at heq
  case classDecl.classDecl =>
    exact .inl ⟨by simp [isClass, hkind], by simp [isClass, hkind'], congrArg Symbol.className heq⟩
  case fieldDecl.fieldDecl =>
    obtain ⟨hc, hname, hdescriptor⟩ := Symbol.ofField_injective (hd.1 hkind) (hd'.1 hkind') heq
    exact .inr ⟨hc, by simp [isClass, hkind], by simp [isClass, hkind'],
      by simp [isMethod, hkind, hkind'], hname, hdescriptor⟩
  case methodDecl.methodDecl =>
    obtain ⟨hparen, hhead⟩ := hd.2 (by simp [isMethod, hkind])
    obtain ⟨hparen', hhead'⟩ := hd'.2 (by simp [isMethod, hkind'])
    obtain ⟨hc, hname, hdescriptor⟩ := Symbol.ofMethod_injective hparen hparen' hhead hhead' heq
    exact .inr ⟨hc, by simp [isClass, hkind], by simp [isClass, hkind'],
      by simp [isMethod, hkind, hkind'], hname, hdescriptor⟩
  -- What is left are symbols of different kinds.
  all_goals
    exact absurd (congrArg Symbol.kind heq)
      (by simp [Symbol.ofClass, Symbol.ofField, Symbol.ofMethod])

namespace Program

variable {p q : Program} {h : Handle} {s : Symbol}

/-! ## Symbols do not change -/

/-- A symbol carries over to wherever what is declared and the class around it are found again. -/
theorem symbol_eq_ok_of_found {f : Handle → Handle}
    (hget : ∀ {x d}, p.get x = .ok d → ∃ e, q.get (f x) = .ok e ∧
      e.kind = d.kind ∧ e.name = d.name ∧ e.descriptor = d.descriptor)
    (howner : ∀ {o}, p.owner? h = some o → q.owner? (f h) = some (f o)) (hs : p.symbol h = .ok s) :
    q.symbol (f h) = .ok s := by
  obtain ⟨d, hd, hcase⟩ := symbol_eq_ok hs
  obtain ⟨e, he, hkind, hname, hdescriptor⟩ := hget hd
  rcases hcase with ⟨hclass, rfl⟩ | ⟨-, -, o, around, ho, haround, -⟩
  · rw [symbol_of_isClass he ((Declaration.isClass_congr hkind).trans hclass), hname]
  · obtain ⟨around', haround', -, hclassName, -⟩ := hget haround
    have hsame : e.symbolIn around'.name = d.symbolIn around.name := by
      rw [Declaration.symbolIn, Declaration.symbolIn, hkind, hname, hdescriptor, hclassName]
    rw [symbol_of_owner he (howner ho) haround', hsame, ← symbol_of_owner hd ho haround, hs]

/-- Placing a declaration leaves all symbols as they are. -/
theorem symbol_placed {x : Handle} {d : Declaration} (hd : p.get x = .ok d) (position : Position) :
    (p.placed x d position).symbol h = .ok s ↔ p.symbol h = .ok s := by
  have hget (y : Handle) : (p.placed x d position).get y =
      (p.get y).map fun e => if y = x then { e with placement := some position } else e :=
    get_placed hd position y
  constructor <;> intro hs
  · refine symbol_eq_ok_of_found (p := p.placed x d position) (q := p) (f := id)
      (fun {y e} he => ?_) (fun ho => ho) hs
    rw [hget] at he
    cases hold : p.get y with
    | error cause => simp [hold, Except.map] at he
    | ok old =>
      rw [hold] at he
      obtain rfl := Except.ok.inj he
      refine ⟨old, hold, ?_⟩
      split <;> exact ⟨rfl, rfl, rfl⟩
  · refine symbol_eq_ok_of_found (p := p) (q := p.placed x d position) (f := id)
      (fun {y e} he => ?_) (fun ho => ho) hs
    refine ⟨_, (hget y).trans (congrArg (Except.map _) he), ?_⟩
    split <;> exact ⟨rfl, rfl, rfl⟩

section

variable (hp : p.Agreeing) (hsize : p.size < UInt32.size) {kind : DeclarationKind}
  {name descriptor : String} {owner : Option Handle}

include hp hsize

/-- One more declaration leaves the symbols of the others as they are. -/
theorem Agreeing.symbol_extend (hs : p.symbol h = .ok s) :
    (p.extend kind name descriptor owner).symbol h = .ok s := by
  refine symbol_eq_ok_of_found (f := id) (fun {x d} hd => ⟨d, get_extend hd, rfl, rfl, rfl⟩)
    (fun {o} ho => ?_) hs
  rw [id, id, hp.owner?_extend hsize, if_neg (ne_new hsize (hp.owned_issued ho))]
  exact ho

theorem Agreeing.symbol_of_extend (hs : (p.extend kind name descriptor owner).symbol h = .ok s) :
    p.symbol h = .ok s ∨ h = Handle.ofCount p.size := by
  obtain ⟨d, hd, -⟩ := symbol_eq_ok hs
  rcases (issued_extend hsize).1 (issued_iff.2 ⟨d, hd⟩) with hissued | hnew
  · obtain ⟨old, hold⟩ := issued_iff.1 hissued
    obtain ⟨s', hs'⟩ := hp.exists_symbol hold
    obtain rfl : s' = s := Except.ok.inj ((hp.symbol_extend hsize hs').symm.trans hs)
    exact .inl hs'
  · exact .inr hnew

/-- The new declaration has a symbol, which leads to it from now on. -/
theorem Agreeing.exists_resolve_extend (name descriptor : String)
    (howner : ∀ o ∈ owner, ∃ d, p.get o = .ok d ∧ d.isClass = true)
    (hkind : owner = none → kind = .classDecl) :
    ∃ new, (p.extend kind name descriptor owner).symbol (Handle.ofCount p.size) = .ok new ∧
      ∀ s, (p.extend kind name descriptor owner).resolve s =
        if s = new then some (Handle.ofCount p.size) else p.resolve s := by
  have hextended : (p.extend kind name descriptor owner).Agreeing := hp.extend hsize howner hkind
  obtain ⟨new, hnew⟩ := hextended.exists_symbol (get_extend_new hsize)
  -- The table is written in between, when the declaration and its owner are already there.
  have hget (x : Handle) : (p.declare kind name descriptor owner).get x =
      (p.extend kind name descriptor owner).get x := by
    rw [get, ← enterSymbol_declarations _ (Handle.ofCount p.size)]
    rfl
  have howner? (x : Handle) : (p.declare kind name descriptor owner).owner? x =
      (p.extend kind name descriptor owner).owner? x := by
    rw [owner?, ← enterSymbol_owners _ (Handle.ofCount p.size)]
    rfl
  have hdeclared : (p.declare kind name descriptor owner).symbol (Handle.ofCount p.size) =
      .ok new :=
    symbol_eq_ok_of_found (p := p.extend kind name descriptor owner) (f := id)
      (fun {x d} hd => ⟨d, (hget x).trans hd, rfl, rfl, rfl⟩) (fun ho => (howner? _).trans ho) hnew
  refine ⟨new, hnew, fun s => ?_⟩
  have hsymbols : (p.extend kind name descriptor owner).symbols =
      p.symbols.insert new (Handle.ofCount p.size) := by
    rw [Program.extend, push, enterSymbol, hdeclared]
    cases owner <;> rfl
  rw [resolve, hsymbols, OrderedMap.get?_insert, resolve]

end

/-! ## The table of symbols -/

/-- Of the declarations with the symbol, the one that was added last. -/
def Latest (p : Program) (s : Symbol) (h : Handle) : Prop :=
  p.symbol h = .ok s ∧ ∀ h', p.symbol h' = .ok s → h'.index ≤ h.index

/-- The table leads from every symbol that some declaration has to the latest one. -/
structure ResolvesLatest (p : Program) : Prop where
  latest : ∀ {s h}, p.resolve s = some h → p.Latest s h
  found : ∀ {s h}, p.symbol h = .ok s → ∃ h', p.resolve s = some h'

theorem resolvesLatest_empty : (empty : Program).ResolvesLatest where
  latest hr := nomatch hr
  found {s h} hs := by
    obtain ⟨d, hd, -⟩ := symbol_eq_ok hs
    exact absurd (index_lt_size hd) (Nat.not_lt_zero _)

theorem ResolvesLatest.extend (hp : p.Agreeing) (hr : p.ResolvesLatest)
    (hsize : p.size < UInt32.size)
    {kind : DeclarationKind} {name descriptor : String} {owner : Option Handle}
    (howner : ∀ o ∈ owner, ∃ d, p.get o = .ok d ∧ d.isClass = true)
    (hkind : owner = none → kind = .classDecl) :
    (p.extend kind name descriptor owner).ResolvesLatest := by
  obtain ⟨new, hnew, hresolve⟩ := hp.exists_resolve_extend hsize name descriptor howner hkind
  refine ⟨fun {s h} hs => ?_, fun {s h} hs => ?_⟩
  · rw [hresolve] at hs
    split at hs
    · next heq =>
      obtain rfl := Option.some.inj hs
      refine ⟨heq ▸ hnew, fun h' hs' => ?_⟩
      rcases hp.symbol_of_extend hsize hs' with hold | rfl
      · obtain ⟨d, hd, -⟩ := symbol_eq_ok hold
        exact UInt32.le_of_lt (lt_new hsize (issued_iff.2 ⟨d, hd⟩))
      · exact UInt32.le_refl _
    · next hne =>
      obtain ⟨hsymbol, hlatest⟩ := hr.latest hs
      refine ⟨hp.symbol_extend hsize hsymbol, fun h' hs' => ?_⟩
      rcases hp.symbol_of_extend hsize hs' with hold | rfl
      · exact hlatest h' hold
      · exact absurd (Except.ok.inj (hs'.symm.trans hnew)) hne
  · rw [hresolve]
    split
    · exact ⟨_, rfl⟩
    · next hne =>
      rcases hp.symbol_of_extend hsize hs with hold | rfl
      · exact hr.found hold
      · exact absurd (Except.ok.inj (hs.symm.trans hnew)) hne

theorem ResolvesLatest.placed (hr : p.ResolvesLatest) {x : Handle} {d : Declaration}
    (hd : p.get x = .ok d) (position : Position) : (p.placed x d position).ResolvesLatest where
  latest {s h} hs := by
    obtain ⟨hsymbol, hlatest⟩ := hr.latest hs
    exact ⟨(symbol_placed hd position).2 hsymbol, fun h' hs' =>
      hlatest h' ((symbol_placed hd position).1 hs')⟩
  found hs := hr.found ((symbol_placed hd position).1 hs)

theorem Reachable.resolvesLatest (hp : p.Reachable) (hsize : p.size ≤ UInt32.size) :
    p.ResolvesLatest := by
  have hboth : p.Agreeing ∧ p.ResolvesLatest := by
    refine hp.induction_extend (P := fun p => p.Agreeing ∧ p.ResolvesLatest) hsize
      ⟨agreeing_empty, resolvesLatest_empty⟩
      (fun {p} kind name descriptor owner hsize howner hkind hp => ?_)
      (fun {p h d} position hd hp => ?_)
    · exact ⟨hp.1.extend hsize howner hkind, hp.2.extend hp.1 hsize howner hkind⟩
    · exact ⟨hp.1.placed hd position, hp.2.placed hd position⟩
  exact hboth.2

/-! ## Distinct symbols -/

/-- No class declares a member twice. -/
def MembersDistinct (p : Program) : Prop :=
  ∀ ⦃h h' c d d'⦄, p.owner? h = some c → p.owner? h' = some c →
    p.get h = .ok d → p.get h' = .ok d' → d.SameMember d' → h = h'

instance (p : Program) : Decidable p.MembersDistinct :=
  decidable_of_iff
    (∀ h ∈ p.handles, ∀ h' ∈ p.handles, h ≠ h' → ∀ c ∈ p.owner? h, p.owner? h' = some c →
      ∀ d ∈ p.declarations[h.index.toNat]?, ∀ d' ∈ p.declarations[h'.index.toNat]?,
        ¬ d.SameMember d') <| by
  constructor
  · intro hdistinct h h' c d d' hc hc' hd hd' hsame
    by_contra hne
    exact hdistinct h (mem_handles hd) h' (mem_handles hd') hne c hc hc' d (get_eq_ok.1 hd) d'
      (get_eq_ok.1 hd') hsame
  · intro hdistinct h _ h' _ hne c hc hc' d hd d' hd' hsame
    exact hne (hdistinct hc hc' (get_eq_ok.2 hd) (get_eq_ok.2 hd') hsame)

/-- Every signature can be taken apart again. -/
def SignaturesSplit (p : Program) : Prop :=
  ∀ ⦃h d⦄, p.get h = .ok d → d.SignatureSplits

instance (p : Program) : Decidable p.SignaturesSplit :=
  decidable_of_iff (∀ h ∈ p.handles, ∀ d ∈ p.declarations[h.index.toNat]?, d.SignatureSplits)
    ⟨fun hsplit h d hd => hsplit h (mem_handles hd) d (get_eq_ok.1 hd),
      fun hsplit _ _ _ hd => hsplit (get_eq_ok.2 hd)⟩

theorem Agreeing.symbolsDistinct (hp : p.Agreeing) (hnames : p.ClassNamesDistinct)
    (hmembers : p.MembersDistinct) (hsplit : p.SignaturesSplit) : p.SymbolsDistinct := by
  intro h h' s hs hs'
  obtain ⟨d, hd, ⟨hclass, hsymbol⟩ | ⟨hmember, hkind, o, around, ho, haround, -⟩⟩ := symbol_eq_ok hs
  · obtain ⟨d', hd', ⟨hclass', hsymbol'⟩ | ⟨-, hkind', -⟩⟩ := symbol_eq_ok hs'
    · have hname : d.name = d'.name := congrArg Symbol.className (hsymbol.symm.trans hsymbol')
      exact hnames.eq_of_name_eq hd hd' hclass hclass' hname
    · exact absurd (hsymbol ▸ rfl) hkind'
  · obtain ⟨d', hd', ⟨-, hsymbol'⟩ | ⟨-, -, o', around', ho', haround', -⟩⟩ := symbol_eq_ok hs'
    · exact absurd (hsymbol' ▸ rfl) hkind
    · have heq : d.symbolIn around.name = d'.symbolIn around'.name :=
        Except.ok.inj ((symbol_of_owner hd ho haround).symm.trans
          (hs.trans (hs'.symm.trans (symbol_of_owner hd' ho' haround'))))
      rcases Declaration.symbolIn_inj (hsplit hd) (hsplit hd') heq with ⟨hclass, -⟩ | ⟨hname, hsame⟩
      · exact absurd hclass (by simp [hmember])
      · -- Both stand in the class of that name, which declares each member once.
        obtain ⟨e, he, hclass⟩ := hp.owner_isClass ho
        obtain ⟨e', he', hclass'⟩ := hp.owner_isClass ho'
        obtain rfl := Except.ok.inj (he.symm.trans haround)
        obtain rfl := Except.ok.inj (he'.symm.trans haround')
        obtain rfl : o = o' := hnames.eq_of_name_eq he he' hclass hclass' hname
        exact hmembers ho ho' hd hd' hsame

/-- As long as handles have not run out, a symbol resolves to the declaration that was added last
among those that have it, and to nothing if there is none. If no class name and no member is
declared twice and every signature can be taken apart, no two declarations share their symbol, and
every declaration is what its symbol resolves to. -/
theorem Reachable.resolve_eq_some_iff_latest (hp : p.Reachable) (hsize : p.size ≤ UInt32.size) :
    (∀ s h, p.resolve s = some h ↔ p.Latest s h) ∧
    (∀ s, p.resolve s = none ↔ ∀ h, p.symbol h ≠ .ok s) ∧
    (p.ClassNamesDistinct → p.MembersDistinct → p.SignaturesSplit →
      p.SymbolsDistinct ∧ ∀ h, p.Issued h → ∃ s, p.symbol h = .ok s ∧ p.resolve s = some h) := by
  have hagreeing : p.Agreeing := hp.agreeing hsize
  have hr : p.ResolvesLatest := hp.resolvesLatest hsize
  refine ⟨fun s h => ⟨hr.latest, fun hlatest => ?_⟩,
    fun s => ⟨fun hnone h hs => ?_, fun hall => ?_⟩, fun hnames hmembers hsplit => ?_⟩
  · obtain ⟨h', hresolve⟩ := hr.found hlatest.1
    have hlatest' : p.Latest s h' := hr.latest hresolve
    -- Two latest declarations stand at or before each other.
    have hindex : h'.index = h.index :=
      UInt32.le_antisymm (hlatest.2 h' hlatest'.1) (hlatest'.2 h hlatest.1)
    rw [hresolve, Handle.eq_of_toNat_eq (congrArg UInt32.toNat hindex)]
  · obtain ⟨h', hresolve⟩ := hr.found hs
    exact absurd (hnone.symm.trans hresolve) (Option.some_ne_none h').symm
  · exact Option.eq_none_iff_forall_ne_some.2 fun h hresolve => hall h (hr.latest hresolve).1
  · have hdistinct : p.SymbolsDistinct := hagreeing.symbolsDistinct hnames hmembers hsplit
    refine ⟨hdistinct, fun h hissued => ?_⟩
    obtain ⟨d, hd⟩ := issued_iff.1 hissued
    obtain ⟨s, hs⟩ := hagreeing.exists_symbol hd
    obtain ⟨h', hresolve⟩ := hr.found hs
    obtain rfl : h' = h := hdistinct (hr.latest hresolve).1 hs
    exact ⟨s, hs, hresolve⟩

open Sample in
/-- Where two methods read the same, their symbol resolves to the second one, although they are
different members; where all signatures can be taken apart, the symbol of every declaration leads
back to it. -/
theorem resolve_eq_some_iff_latest_alike :
    (alike.Reachable ∧ alike.size ≤ UInt32.size ∧ alike.MembersDistinct ∧ ¬ alike.SignaturesSplit ∧
      alike.Latest (.ofMethod "demo.Alike" "run" "()V") ⟨2⟩ ∧
      ∀ h, alike.symbol h ≠ .ok (.ofClass "demo.Other")) ∧
    Nest.program.Reachable ∧ Nest.program.size ≤ UInt32.size ∧ Nest.program.ClassNamesDistinct ∧
      Nest.program.MembersDistinct ∧ Nest.program.SignaturesSplit ∧ Nest.program.SymbolsDistinct ∧
      Nest.program.Issued Nest.itemCopy ∧
      ∃ s, Nest.program.symbol Nest.itemCopy = .ok s ∧
        Nest.program.resolve s = some Nest.itemCopy := by
  have halike : alike.Reachable := ⟨_, rfl⟩
  have halikeSize : alike.size ≤ UInt32.size := by decide +kernel
  have hsecond : alike.resolve (.ofMethod "demo.Alike" "run" "()V") = some ⟨2⟩ := by decide +kernel
  have habsent : alike.resolve (.ofClass "demo.Other") = none := by decide +kernel
  have hnest : Nest.program.Reachable := ⟨_, rfl⟩
  have hnestSize : Nest.program.size ≤ UInt32.size := by decide +kernel
  have hnames : Nest.program.ClassNamesDistinct := by decide +kernel
  have hmembers : Nest.program.MembersDistinct := by decide +kernel
  have hsplit : Nest.program.SignaturesSplit := by decide +kernel
  have hissued : Nest.program.Issued Nest.itemCopy := by decide +kernel
  obtain ⟨hlatest, hnone, -⟩ := halike.resolve_eq_some_iff_latest halikeSize
  obtain ⟨-, -, hback⟩ := hnest.resolve_eq_some_iff_latest hnestSize
  obtain ⟨hdistinct, hall⟩ := hback hnames hmembers hsplit
  exact ⟨⟨halike, halikeSize, by decide +kernel, by decide +kernel, (hlatest _ _).1 hsecond,
      (hnone _).1 habsent⟩,
    hnest, hnestSize, hnames, hmembers, hsplit, hdistinct, hissued, hall _ hissued⟩

end Program

end CrossReference
