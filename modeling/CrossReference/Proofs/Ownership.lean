import CrossReference.Proofs.Indexing
import CrossReference.Proofs.Membership
import CrossReference.Proofs.Retraction

/-!
# Who owns a bucket

In every index that operations over a program can reach, a bucket belongs to the outermost class
around a declaration with the symbol of the bucket (`Index.OwnersDeclared`). If no two classes of
the program share a binary name, a symbol is declared in one class only, so the owner of a bucket is
known from its symbol alone, whoever filed into it first.
-/

namespace CrossReference

/-- The program has a declaration with the symbol inside the top-level class with
the symbol `owner`. -/
def Program.DeclaredIn (p : Program) (s owner : Symbol) : Prop :=
  ∃ h c, p.symbol h = .ok s ∧ p.topLevelClass h = .ok c ∧ p.symbol c = .ok owner

instance (p : Program) (s owner : Symbol) : Decidable (p.DeclaredIn s owner) :=
  decidable_of_iff
    (∃ h ∈ p.handles, p.symbol h = .ok s ∧ (p.topLevelClass h >>= p.symbol) = .ok owner) <| by
  simp only [bind_eq_ok]
  constructor
  · rintro ⟨h, -, hs, c, hc, howner⟩
    exact ⟨h, c, hs, hc, howner⟩
  · rintro ⟨h, c, hs, hc, howner⟩
    obtain ⟨d, hd, -⟩ := Program.symbol_eq_ok hs
    exact ⟨h, Program.mem_handles hd, hs, c, hc, howner⟩

/-- With distinct class names, a symbol is declared in one top-level class. -/
theorem Program.DeclaredIn.unique {p : Program} (hp : p.Sound) (hnames : p.ClassNamesDistinct)
    {s owner owner' : Symbol} (h : p.DeclaredIn s owner) (h' : p.DeclaredIn s owner') :
    owner = owner' := by
  obtain ⟨x, c, hs, hc, howner⟩ := h
  obtain ⟨x', c', hs', hc', howner'⟩ := h'
  have hsame : c = c' := by
    have htop := hp.topLevelClass_eq_of_symbol_eq hnames hs hs'
    exact Except.ok.inj (hc.symm.trans (htop.trans hc'))
  subst hsame
  exact Except.ok.inj (howner.symm.trans howner')

/-- A filing names as its owner the outermost class around its target, also where a constructor is
filed under its class. -/
theorem Pass.Reads.declaredIn {pass : Pass} (hp : pass.program.Sound) {position : Position}
    {target : Handle} {c : Contribution} (h : pass.Reads position target c) :
    ∀ f ∈ c.filings, pass.program.DeclaredIn f.target f.owner := by
  cases h with
  | declaration | missing | importLine => simp [Contribution.filings]
  | @usage _ outermost _ _ _ _ _ _ _ hsymbol _ _ houter howner _ =>
    intro f hf
    obtain rfl := List.mem_singleton.1 hf
    exact ⟨target, outermost, hsymbol, houter, howner⟩
  | @construction _ outermost around _ _ _ _ _ _ _ _ hsymbol _ _ haround haroundSymbol houter
      howner _ =>
    intro f hf
    rcases List.mem_cons.1 hf with rfl | hf
    · exact ⟨target, outermost, hsymbol, houter, howner⟩
    · -- The second filing names the owner of the first; both targets lie in one outermost class.
      obtain rfl := List.mem_singleton.1 hf
      have hsame := hp.topLevelClass_declaringClass haround
      exact ⟨around, outermost, haroundSymbol, hsame.symm.trans houter, howner⟩

namespace Index

variable {i : Index} {p : Program}

theorem declaredIn_of_mem_filingsOf (hp : p.Sound) {settings : UsageSettings} (subject : Handle)
    (occurrences : Occurrences) (lines : List String) (locator : Locator) {f : Filing}
    (hf : f ∈ filingsOf settings p subject occurrences lines locator) :
    p.DeclaredIn f.target f.owner := by
  obtain ⟨unit, -, e, -, c, hreads, hmem⟩ :=
    exists_reads_of_mem_filingsOf p subject occurrences lines locator hf
  exact hreads.declaredIn hp f hmem

/-- Each bucket is owned by a class in which its symbol is declared. -/
def OwnersDeclared (i : Index) (p : Program) : Prop :=
  ∀ ⦃s owner : Symbol⦄, i.bucketOwner? s = some owner → p.DeclaredIn s owner

theorem ownersDeclared_empty (settings : UsageSettings) : (empty settings).OwnersDeclared p :=
  fun _ _ h => nomatch h

theorem OwnersDeclared.addClass (hi : i.OwnersDeclared p) (hp : p.Sound) (subject : Handle)
    (occurrences : Occurrences) (lines : List String) (locator : Locator) :
    (i.addClass p subject occurrences lines locator).1.OwnersDeclared p := by
  intro s owner h
  rw [bucketOwner?_congr (addClass_buckets i p subject occurrences lines locator)] at h
  -- The bucket is older than the pass, or a filing of the pass has opened it.
  rcases bucketOwner?_stream i h with hold | ⟨f, hf, rfl, rfl⟩
  · exact hi hold
  · exact declaredIn_of_mem_filingsOf hp subject occurrences lines locator hf

theorem OwnersDeclared.retract (hi : i.OwnersDeclared p) (unit : Symbol) :
    (i.retract unit).1.OwnersDeclared p :=
  fun _ _ h => hi (bucketOwner?_retract i unit h).1

theorem isInvariant_ownersDeclared (hp : p.Sound) : IsInvariant p (·.OwnersDeclared p) where
  addClass _ _ _ _ hi := hi.addClass hp _ _ _ _
  retract unit hi := hi.retract unit
  clear _ := ownersDeclared_empty _

theorem OwnersDeclared.perform (hi : i.OwnersDeclared p) (hp : p.Sound) (o : Operation) :
    (i.perform p o).1.OwnersDeclared p :=
  (isInvariant_ownersDeclared hp).perform hi o

theorem OwnersDeclared.refresh (hi : i.OwnersDeclared p) (hp : p.Sound) (text : ClassText) :
    (i.refresh p text).1.OwnersDeclared p :=
  hi.perform hp (.refresh text)

theorem OwnersDeclared.after (hi : i.OwnersDeclared p) (hp : p.Sound)
    (operations : List Operation) : (i.after p operations).OwnersDeclared p :=
  (isInvariant_ownersDeclared hp).after hi operations

theorem Reachable.ownersDeclared (hi : i.Reachable p) (hp : p.Sound) : i.OwnersDeclared p :=
  (isInvariant_ownersDeclared hp).of_reachable (ownersDeclared_empty i.settings) hi

end Index

end CrossReference
