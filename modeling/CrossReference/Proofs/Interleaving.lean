import CrossReference.Proofs.Accounting
import CrossReference.Proofs.NonInterference

/-!
# Interleaved passes

Passes over different classes may run at one time. What a pass does to the buckets is a list of
appends (`PassInput.buckets_addClass`): record by record if the index is streamed, target by target
if it is buffered. In a `Race` each pass has some appends still to make; at each turn some pass
makes its next one, or a class is retracted.

Whoever has a turn when, a pass leaves of each target what it would have left alone, and in its
order (`Race.Sound.prospect_after`). Without retractions, a race does the same as making the appends
of all passes in some order (`Race.exists_made_of_after`), and the order matters to nothing but the
order of the records in a bucket (`Index.appendAll_of_perm`).
-/

namespace CrossReference

namespace Index

variable (i : Index)

/-! ## Appends -/

/-- The appends by which filings enter an index: each filing on its own, or all filings of
a target together. -/
def appendsOf (settings : UsageSettings) (filings : List Filing) : List Group :=
  match settings.publication with
  | .buffered => group filings
  | .streaming => filings.map fun f => ⟨f.target, f.owner, [f.record]⟩

def appendAll (i : Index) (appends : List Group) : Index := appends.foldl appendGroup i

theorem enter_eq_appendAll (filings : List Filing) :
    i.enter filings = i.appendAll (appendsOf i.settings filings) := by
  rw [enter, appendsOf, appendAll]
  cases i.settings.publication with
  | buffered => rfl
  | streaming => rw [List.foldl_map]; rfl

/-- The records that appends bring to a target, in their order. -/
def appendedTo (s : Symbol) (appends : List Group) : List UsageRecord :=
  appends.flatMap fun g => if s = g.target then g.records else []

theorem appendedTo_cons (s : Symbol) (g : Group) (appends : List Group) :
    appendedTo s (g :: appends) =
      (if s = g.target then g.records else []) ++ appendedTo s appends := rfl

theorem query_appendAll (appends : List Group) (s : Symbol) :
    (i.appendAll appends).query s = i.query s ++ appendedTo s appends := by
  induction appends generalizing i with
  | nil => exact (List.append_nil _).symm
  | cons g rest ih =>
    have hrest := ih (i.appendGroup g)
    rw [appendGroup, query_append, List.append_assoc] at hrest
    exact hrest

theorem appendedTo_appendsOf (settings : UsageSettings) (filings : List Filing) (s : Symbol) :
    appendedTo s (appendsOf settings filings) = recordsFor s filings := by
  have hentered := congrArg (·.query s) (enter_eq_appendAll (empty settings) filings)
  rw [enter_eq_stream] at hentered
  simp only [query_stream, query_appendAll] at hentered
  exact (List.append_cancel_left hentered).symm

theorem recordCount_appendAll (appends : List Group) :
    (i.appendAll appends).recordCount =
      i.recordCount + (appends.map (·.records.length)).sum := by
  induction appends generalizing i with
  | nil => rfl
  | cons g rest ih =>
    have hrest := ih (i.appendGroup g)
    rw [appendGroup, recordCount_append, Nat.add_assoc] at hrest
    rw [List.map_cons, List.sum_cons]
    exact hrest

/-- A bucket keeps the owner that it was opened with. -/
theorem bucketOwner?_appendAll (appends : List Group) (s : Symbol) :
    (i.appendAll appends).bucketOwner? s =
      (i.bucketOwner? s).or ((appends.find? (s = ·.target)).map (·.owner)) := by
  induction appends generalizing i with
  | nil => exact (Option.or_none).symm
  | cons g rest ih =>
    have hrest := ih (i.appendGroup g)
    rw [appendGroup, bucketOwner?_append] at hrest
    refine hrest.trans ?_
    by_cases htarget : s = g.target
    · rw [if_pos htarget, List.find?_cons_of_pos (by simpa using htarget)]
      cases i.bucketOwner? s with
      | none => rfl
      | some owner => rfl
    · rw [if_neg htarget, List.find?_cons_of_neg (by simpa using htarget)]

theorem exists_filing_of_mem_addToGroups {f : Filing} {groups : List Group} {g : Group}
    (hg : g ∈ addToGroups f groups) :
    (f.target = g.target ∧ f.owner = g.owner) ∨
      ∃ known ∈ groups, known.target = g.target ∧ known.owner = g.owner := by
  induction groups with
  | nil =>
    obtain rfl := List.mem_singleton.1 hg
    exact .inl ⟨rfl, rfl⟩
  | cons first rest ih =>
    rw [addToGroups] at hg
    split at hg
    · rcases List.mem_cons.1 hg with rfl | hg
      · exact .inr ⟨first, List.mem_cons_self, rfl, rfl⟩
      · exact .inr ⟨g, List.mem_cons_of_mem _ hg, rfl, rfl⟩
    · rcases List.mem_cons.1 hg with rfl | hg
      · exact .inr ⟨_, List.mem_cons_self, rfl, rfl⟩
      · rcases ih hg with hsame | ⟨known, hknown, hsame⟩
        · exact .inl hsame
        · exact .inr ⟨known, List.mem_cons_of_mem _ hknown, hsame⟩

theorem exists_filing_of_mem_foldl_addToGroups {filings : List Filing} {groups : List Group}
    {g : Group} (hg : g ∈ filings.foldl (fun groups f => addToGroups f groups) groups) :
    (∃ f ∈ filings, f.target = g.target ∧ f.owner = g.owner) ∨
      ∃ known ∈ groups, known.target = g.target ∧ known.owner = g.owner := by
  induction filings generalizing groups with
  | nil => exact .inr ⟨g, hg, rfl, rfl⟩
  | cons f rest ih =>
    rcases ih hg with ⟨f', hf', hsame⟩ | ⟨known, hknown, htarget, howner⟩
    · exact .inl ⟨f', List.mem_cons_of_mem _ hf', hsame⟩
    · rcases exists_filing_of_mem_addToGroups hknown with hsame | ⟨first, hfirst, hsame⟩
      · exact .inl ⟨f, List.mem_cons_self, hsame.1.trans htarget, hsame.2.trans howner⟩
      · exact .inr ⟨first, hfirst, hsame.1.trans htarget, hsame.2.trans howner⟩

theorem exists_filing_of_mem_appendsOf {settings : UsageSettings} {filings : List Filing}
    {g : Group} (hg : g ∈ appendsOf settings filings) :
    ∃ f ∈ filings, f.target = g.target ∧ f.owner = g.owner := by
  rw [appendsOf] at hg
  split at hg
  · rcases exists_filing_of_mem_foldl_addToGroups hg with hfiling | ⟨known, hknown, -⟩
    · exact hfiling
    · cases hknown
  · obtain ⟨f, hf, rfl⟩ := List.mem_map.1 hg
    exact ⟨f, hf, rfl, rfl⟩

/-! ## Owners and usages behind an append -/

variable {i} {p : Program} {s unit : Symbol}

theorem OwnersDeclared.appendGroup (hi : i.OwnersDeclared p) {g : Group}
    (hg : p.DeclaredIn g.target g.owner) : (i.appendGroup g).OwnersDeclared p := by
  intro s owner howner
  rw [Index.appendGroup, bucketOwner?_append] at howner
  split at howner
  · next htarget =>
    subst htarget
    cases hknown : i.bucketOwner? g.target with
    | none =>
      rw [hknown] at howner
      obtain rfl := Option.some.inj howner
      exact hg
    | some known =>
      rw [hknown] at howner
      obtain rfl := Option.some.inj howner
      exact hi hknown
  · exact hi howner

theorem usagesBy_appendGroup (i : Index) {g : Group} (h : ∀ r ∈ g.records, r.unit = unit)
    (s : Symbol) :
    (i.appendGroup g).usagesBy unit s =
      i.usagesBy unit s ++ if s = g.target then g.records else [] := by
  have hall : (if s = g.target then g.records else []).filter (·.unit = unit) =
      if s = g.target then g.records else [] := by
    refine List.filter_eq_self.2 fun r hr => decide_eq_true ?_
    split at hr
    · exact h r hr
    · cases hr
  rw [usagesBy, appendGroup, query_append, List.filter_append, hall]
  rfl

theorem usagesBy_appendGroup_of_ne (i : Index) {g : Group} (h : ∀ r ∈ g.records, r.unit ≠ unit)
    (s : Symbol) : (i.appendGroup g).usagesBy unit s = i.usagesBy unit s := by
  have hnone : (if s = g.target then g.records else []).filter (·.unit = unit) = [] := by
    refine List.filter_eq_nil_iff.2 fun r hr hby => ?_
    split at hr
    · exact h r hr (of_decide_eq_true hby)
    · cases hr
  rw [usagesBy, appendGroup, query_append, List.filter_append, hnone, List.append_nil]
  rfl

/-! ## Appends in any order -/

/-- Appends that name the owners of their targets agree on them, so it does not matter
which comes first. -/
theorem map_owner_find?_eq_some_iff (hp : p.Sound) (hnames : p.ClassNamesDistinct)
    {appends : List Group} (happends : ∀ g ∈ appends, p.DeclaredIn g.target g.owner)
    {owner : Symbol} :
    (appends.find? (s = ·.target)).map (·.owner) = some owner ↔
      ∃ g ∈ appends, s = g.target ∧ g.owner = owner := by
  rw [Option.map_eq_some_iff]
  constructor
  · rintro ⟨g, hfound, howner⟩
    have htarget : s = g.target := by simpa using List.find?_some hfound
    exact ⟨g, List.mem_of_find?_eq_some hfound, htarget, howner⟩
  · rintro ⟨g, hg, rfl, rfl⟩
    have hany : (appends.find? (g.target = ·.target)).isSome = true :=
      List.find?_isSome.2 ⟨g, hg, decide_eq_true rfl⟩
    obtain ⟨first, hfound⟩ := Option.isSome_iff_exists.1 hany
    have htarget : g.target = first.target := by simpa using List.find?_some hfound
    have hfirst : p.DeclaredIn g.target first.owner :=
      htarget ▸ happends first (List.mem_of_find?_eq_some hfound)
    exact ⟨first, hfound, hfirst.unique hp hnames (happends g hg)⟩

/-- Which order appends are made in shows in nothing but the order of the records of a target. -/
theorem appendAll_of_perm (hp : p.Sound) (hnames : p.ClassNamesDistinct) (i : Index)
    {made made' : List Group} (hmade : ∀ g ∈ made, p.DeclaredIn g.target g.owner)
    (hperm : made.Perm made') :
    (i.appendAll made).buckets.keys = (i.appendAll made').buckets.keys ∧
      (∀ s, (i.appendAll made).bucketOwner? s = (i.appendAll made').bucketOwner? s) ∧
      (i.appendAll made).recordCount = (i.appendAll made').recordCount ∧
      ∀ s, ((i.appendAll made).query s).Perm ((i.appendAll made').query s) := by
  have hmade' : ∀ g ∈ made', p.DeclaredIn g.target g.owner := fun g hg =>
    hmade g (hperm.mem_iff.2 hg)
  have howner : ∀ s, (i.appendAll made).bucketOwner? s = (i.appendAll made').bucketOwner? s := by
    intro s
    rw [bucketOwner?_appendAll, bucketOwner?_appendAll]
    refine congrArg _ (Option.ext fun owner => ?_)
    rw [map_owner_find?_eq_some_iff hp hnames hmade, map_owner_find?_eq_some_iff hp hnames hmade']
    exact exists_congr fun g => and_congr_left fun _ => hperm.mem_iff
  refine ⟨OrderedMap.keys_eq_of_contains_eq fun s => ?_, howner, ?_, fun s => ?_⟩
  · have hsame := congrArg Option.isSome (howner s)
    rwa [bucketOwner?, bucketOwner?, Option.isSome_map, Option.isSome_map] at hsame
  · rw [recordCount_appendAll, recordCount_appendAll, (hperm.map _).sum_eq]
  · rw [query_appendAll, query_appendAll]
    exact (hperm.flatMap_right _).append_left _

end Index

/-! ## Passes as appends -/

/-- What indexing a class is given. -/
structure PassInput where
  subject : Handle
  occurrences : Occurrences
  lines : List String
  locator : Locator

def ClassText.passInput (text : ClassText) : PassInput :=
  ⟨text.subject, text.occurrences, text.lines, text.layout.locator⟩

namespace PassInput

variable {p : Program}

/-- What the pass appends to an index with the given settings, one after another. -/
def appends (input : PassInput) (settings : UsageSettings) (p : Program) : List Index.Group :=
  Index.appendsOf settings
    (Index.filingsOf settings p input.subject input.occurrences input.lines input.locator)

/-- On its own, a pass makes its appends and nothing else. -/
theorem buckets_addClass (input : PassInput) (i : Index) (p : Program) :
    (i.addClass p input.subject input.occurrences input.lines input.locator).1.buckets =
      (i.appendAll (input.appends i.settings p)).buckets := by
  rw [Index.addClass_buckets, appends, ← Index.enter_eq_appendAll, Index.enter_eq_stream]

/-- Appends of records by the class of a pass, to buckets that they name the right owner of. -/
def Owns (input : PassInput) (p : Program) (appends : List Index.Group) : Prop :=
  ∀ g ∈ appends, p.DeclaredIn g.target g.owner ∧
    ∀ r ∈ g.records, p.symbol input.subject = .ok r.unit

theorem owns_appends (input : PassInput) (settings : UsageSettings) (hp : p.Sound) :
    input.Owns p (input.appends settings p) := by
  intro g hg
  constructor
  · obtain ⟨f, hf, htarget, howner⟩ := Index.exists_filing_of_mem_appendsOf hg
    rw [← htarget, ← howner]
    exact Index.declaredIn_of_mem_filingsOf hp _ _ _ _ hf
  · intro r hr
    have happended : r ∈ Index.appendedTo g.target (input.appends settings p) :=
      List.mem_flatMap.2 ⟨g, hg, by simpa using hr⟩
    rw [appends, Index.appendedTo_appendsOf] at happended
    obtain ⟨f, hf, -, rfl⟩ := Index.mem_recordsFor.1 happended
    exact Program.symbol_of_topLevelSymbol (Index.topLevelSymbol_of_mem_filingsOf p _ _ _ _ hf)

end PassInput

/-! ## Races -/

/-- An index, and the appends that each of several passes has still to make. -/
structure Race where
  index : Index
  waiting : List (List Index.Group)

/-- What happens next in a race. -/
inductive Turn where
  /-- The pass with the given number makes its next append, if it has any. -/
  | append (number : Nat)
  /-- A class is retracted as a whole. -/
  | retract (unit : Symbol)
deriving DecidableEq

/-- A turn that retracts neither the class `unit` nor the class around `s`. -/
def Turn.Spares (p : Program) (unit s : Symbol) : Turn → Prop
  | append _ => True
  | retract swept => swept ≠ unit ∧ ¬ p.DeclaredIn s swept

namespace Race

/-- The race of some passes before any of them has made an append. -/
def start (i : Index) (p : Program) (family : List PassInput) : Race :=
  ⟨i, family.map (·.appends i.settings p)⟩

def turn (r : Race) : Turn → Race
  | .append number =>
    match r.waiting[number]? with
    | some (g :: rest) => ⟨r.index.appendGroup g, r.waiting.set number rest⟩
    | some [] | none => r
  | .retract unit => { r with index := (r.index.retract unit).1 }

def after (r : Race) (turns : List Turn) : Race := turns.foldl turn r

theorem after_cons (r : Race) (t : Turn) (rest : List Turn) :
    r.after (t :: rest) = (r.turn t).after rest := rfl

/-- No pass has anything left to do. -/
def Done (r : Race) : Prop := ∀ appends ∈ r.waiting, appends = []

instance (r : Race) : Decidable r.Done := inferInstanceAs (Decidable (∀ _ ∈ _, _))

variable {r : Race} {i : Index} {p : Program} {family : List PassInput} {input : PassInput}
  {s unit : Symbol}

theorem turn_append_cases (r : Race) (number : Nat) :
    r.turn (.append number) = r ∨
      ∃ g rest, r.waiting[number]? = some (g :: rest) ∧
        r.turn (.append number) = ⟨r.index.appendGroup g, r.waiting.set number rest⟩ := by
  rw [turn]
  split
  · next g rest hwaiting => exact .inr ⟨g, rest, hwaiting, rfl⟩
  · exact .inl rfl
  · exact .inl rfl

/-- Buckets have the right owners, and what a pass has still to append is by its class. -/
structure Sound (r : Race) (p : Program) (family : List PassInput) : Prop where
  owners : r.index.OwnersDeclared p
  waiting : ∀ {number : Nat} {appends : List Index.Group}, r.waiting[number]? = some appends →
    ∃ input : PassInput, family[number]? = some input ∧ input.Owns p appends

theorem sound_start (hi : i.OwnersDeclared p) (hp : p.Sound) (family : List PassInput) :
    (start i p family).Sound p family where
  owners := hi
  waiting h := by
    rw [start, List.getElem?_map] at h
    obtain ⟨input, hinput, rfl⟩ := Option.map_eq_some_iff.1 h
    exact ⟨input, hinput, input.owns_appends i.settings hp⟩

theorem Sound.turn (hr : r.Sound p family) (t : Turn) : (r.turn t).Sound p family := by
  cases t with
  | append number =>
    obtain heq | ⟨g, rest, hwaiting, heq⟩ := r.turn_append_cases number
    · rw [heq]
      exact hr
    · obtain ⟨input, hinput, howns⟩ := hr.waiting hwaiting
      obtain ⟨hg, hrest⟩ := List.forall_mem_cons.1 howns
      rw [heq]
      refine ⟨hr.owners.appendGroup hg.1, fun {other appends} hother => ?_⟩
      rw [List.getElem?_set] at hother
      split at hother
      · next hsame =>
        split at hother
        · obtain rfl := Option.some.inj hother
          exact ⟨input, hsame ▸ hinput, hrest⟩
        · cases hother
      · exact hr.waiting hother
  | retract swept => exact ⟨hr.owners.retract swept, hr.waiting⟩

/-! ### What a pass leaves -/

/-- The usages of a target by the class of a pass that are known already, and those that the pass
has still to append. -/
def prospect (r : Race) (number : Nat) (unit s : Symbol) : List UsageRecord :=
  r.index.usagesBy unit s ++ Index.appendedTo s (r.waiting[number]?.getD [])

theorem prospect_start {number : Nat} (hinput : family[number]? = some input) :
    (start i p family).prospect number unit s =
      i.usagesBy unit s ++ Index.appendedTo s (input.appends i.settings p) := by
  rw [prospect, start, List.getElem?_map, hinput]
  rfl

theorem Done.prospect_eq (hr : r.Done) (number : Nat) :
    r.prospect number unit s = r.index.usagesBy unit s := by
  have hnone : r.waiting[number]?.getD [] = [] := by
    cases hwaiting : r.waiting[number]? with
    | none => rfl
    | some appends => exact hr appends (List.mem_of_getElem? hwaiting)
  rw [prospect, hnone]
  exact List.append_nil _

section

variable (hdistinct : (family.map fun input => p.symbol input.subject).Nodup) {number : Nat}
  (hinput : family[number]? = some input) (hunit : p.symbol input.subject = .ok unit)

include hdistinct hinput hunit

theorem number_eq_of_symbol_eq {other : Nat} {otherInput : PassInput}
    (hother : family[other]? = some otherInput) (hsymbol : p.symbol otherInput.subject = .ok unit) :
    other = number := by
  obtain ⟨hlt, -⟩ := List.getElem?_eq_some_iff.1 hother
  refine (List.getElem?_inj (by rwa [List.length_map]) hdistinct).1 ?_
  rw [List.getElem?_map, List.getElem?_map, hother, hinput, Option.map_some, Option.map_some,
    hsymbol, hunit]

/-- An append of the pass turns into known usages what it had still to append; an append of another
pass brings no usages by the class of this one. -/
theorem Sound.prospect_turn (hr : r.Sound p family) {t : Turn} (ht : t.Spares p unit s) :
    (r.turn t).prospect number unit s = r.prospect number unit s := by
  cases t with
  | append other =>
    obtain heq | ⟨g, rest, hwaiting, heq⟩ := r.turn_append_cases other
    · rw [heq]
    · obtain ⟨otherInput, hother, howns⟩ := hr.waiting hwaiting
      have hrecords := (howns g List.mem_cons_self).2
      rw [heq, prospect, prospect]
      by_cases hsame : other = number
      · subst hsame
        obtain rfl := Option.some.inj (hinput.symm.trans hother)
        obtain ⟨hlt, -⟩ := List.getElem?_eq_some_iff.1 hwaiting
        have hown : ∀ r ∈ g.records, r.unit = unit := fun r hr =>
          (Except.ok.inj (hunit.symm.trans (hrecords r hr))).symm
        rw [Index.usagesBy_appendGroup _ hown, List.getElem?_set_self hlt, hwaiting,
          Option.getD_some, Option.getD_some, Index.appendedTo_cons, List.append_assoc]
      · have hforeign : ∀ r ∈ g.records, r.unit ≠ unit := fun r hr heq =>
          hsame (number_eq_of_symbol_eq hdistinct hinput hunit hother (heq ▸ hrecords r hr))
        rw [Index.usagesBy_appendGroup_of_ne _ hforeign, List.getElem?_set_ne hsame]
  | retract swept =>
    rw [prospect, Race.turn, Index.usagesBy_retract_of_not_declaredIn hr.owners ht.1 ht.2]
    rfl

theorem Sound.prospect_after (hr : r.Sound p family) {turns : List Turn}
    (hturns : ∀ t ∈ turns, t.Spares p unit s) :
    (r.after turns).prospect number unit s = r.prospect number unit s := by
  induction turns generalizing r with
  | nil => rfl
  | cons t rest ih =>
    obtain ⟨ht, hrest⟩ := List.forall_mem_cons.1 hturns
    rw [after_cons, ih (hr.turn t) hrest]
    exact hr.prospect_turn hdistinct hinput hunit ht

end

/-! ### What all passes leave -/

theorem perm_flatten_set {α : Type} {lists : List (List α)} {number : Nat} {a : α} {rest : List α}
    (h : lists[number]? = some (a :: rest)) :
    (a :: (lists.set number rest).flatten).Perm lists.flatten := by
  induction lists generalizing number with
  | nil => cases h
  | cons first lists ih =>
    cases number with
    | zero =>
      obtain rfl := Option.some.inj h
      exact .refl _
    | succ number => exact List.perm_middle.symm.trans ((ih h).append_left first)

/-- Without retractions, turns make some of the appends of the passes. -/
theorem exists_made_of_after (r : Race) {turns : List Turn}
    (hturns : ∀ swept, Turn.retract swept ∉ turns) :
    ∃ made, (r.after turns).index = r.index.appendAll made ∧
      (made ++ (r.after turns).waiting.flatten).Perm r.waiting.flatten := by
  induction turns generalizing r with
  | nil => exact ⟨[], rfl, .refl _⟩
  | cons t rest ih =>
    have hrest : ∀ swept, Turn.retract swept ∉ rest := fun swept hmem =>
      hturns swept (List.mem_cons_of_mem _ hmem)
    obtain ⟨made, hmade, hperm⟩ := ih (r.turn t) hrest
    rw [after_cons]
    cases t with
    | append number =>
      obtain heq | ⟨g, left, hwaiting, heq⟩ := r.turn_append_cases number
      · rw [heq] at hmade hperm ⊢
        exact ⟨made, hmade, hperm⟩
      · rw [heq] at hmade hperm ⊢
        exact ⟨g :: made, hmade, (hperm.cons g).trans (perm_flatten_set hwaiting)⟩
    | retract swept => exact absurd List.mem_cons_self (hturns swept)

theorem Done.exists_made {turns : List Turn} (hturns : ∀ swept, Turn.retract swept ∉ turns)
    (hdone : (r.after turns).Done) :
    ∃ made, (r.after turns).index = r.index.appendAll made ∧ made.Perm r.waiting.flatten := by
  obtain ⟨made, hmade, hperm⟩ := r.exists_made_of_after hturns
  rw [List.flatten_eq_nil_iff.2 hdone, List.append_nil] at hperm
  exact ⟨made, hmade, hperm⟩

/-- Let passes over different classes make their appends in any interleaving, with classes retracted
in between that none of the passes is over. Once all passes are done, each of them has left of a
target outside the retracted classes what was known by its class, and behind that exactly its own
appends in their order. If nothing is retracted, every interleaving leads to the same buckets,
owners and number of records, and to the same records of each target up to their order. -/
theorem index_of_done (hprogram : p.Reachable) (hnames : p.ClassNamesDistinct) (hi : i.Reachable p)
    (family : List PassInput) (hdistinct : (family.map fun input => p.symbol input.subject).Nodup) :
    (∀ turns, ((start i p family).after turns).Done →
      (∀ swept, Turn.retract swept ∈ turns → ∀ input ∈ family, p.symbol input.subject ≠ .ok swept) →
      ∀ s, (∀ swept, Turn.retract swept ∈ turns → ¬ p.DeclaredIn s swept) →
      ∀ input ∈ family, ∀ unit, p.symbol input.subject = .ok unit →
        ((start i p family).after turns).index.usagesBy unit s =
          i.usagesBy unit s ++ Index.appendedTo s (input.appends i.settings p)) ∧
    (∀ turns turns',
      ((start i p family).after turns).Done → ((start i p family).after turns').Done →
      (∀ swept, Turn.retract swept ∉ turns) → (∀ swept, Turn.retract swept ∉ turns') →
      let j := ((start i p family).after turns).index
      let j' := ((start i p family).after turns').index
      j.buckets.keys = j'.buckets.keys ∧ (∀ s, j.bucketOwner? s = j'.bucketOwner? s) ∧
        j.recordCount = j'.recordCount ∧ ∀ s, (j.query s).Perm (j'.query s)) := by
  have howners : i.OwnersDeclared p := hi.ownersDeclared hprogram.sound
  constructor
  · intro turns hdone hunits s hs input hmem unit hunit
    obtain ⟨number, hinput⟩ := List.mem_iff_getElem?.1 hmem
    have hturns : ∀ t ∈ turns, t.Spares p unit s := by
      intro t ht
      cases t with
      | append => trivial
      | retract swept =>
        exact ⟨fun heq => hunits swept ht input hmem (heq ▸ hunit), hs swept ht⟩
    rw [← hdone.prospect_eq number, ← prospect_start hinput]
    exact (sound_start howners hprogram.sound family).prospect_after hdistinct hinput hunit hturns
  · intro turns turns' hdone hdone' hturns hturns' j j'
    obtain ⟨made, hmade, hperm⟩ := hdone.exists_made hturns
    obtain ⟨made', hmade', hperm'⟩ := hdone'.exists_made hturns'
    have hdeclared : ∀ g ∈ made, p.DeclaredIn g.target g.owner := by
      intro g hg
      obtain ⟨appends, happends, hg⟩ := List.mem_flatten.1 (hperm.mem_iff.1 hg)
      obtain ⟨input, -, rfl⟩ := List.mem_map.1 happends
      exact (input.owns_appends i.settings hprogram.sound g hg).1
    have hj : j = i.appendAll made := hmade
    have hj' : j' = i.appendAll made' := hmade'
    rw [hj, hj']
    exact Index.appendAll_of_perm hprogram.sound hnames i hdeclared (hperm.trans hperm'.symm)

open Sample in
/-- Two classes use the nested class of one of them, and their appends take turns; in between a
third class is retracted that had used it as well. -/
theorem index_of_done_nest :
    let index := (Index.empty { publication := .streaming }).after Nest.program
      [.add Nest.tillText, .add Nest.shopText]
    let family := [Nest.shopText.passInput, Nest.bagText.passInput]
    let race := start index Nest.program family
    let item := Symbol.ofClass "demo.Shop$Item"
    let till := Symbol.ofClass "demo.Till"
    let shop := Symbol.ofClass "demo.Shop"
    let turns : List Turn :=
      [.append 1, .append 0, .append 1, .append 0, .append 1, .append 1, .append 0, .append 1]
    let withRetraction := turns.take 3 ++ .retract till :: turns.drop 3
    (index.usagesBy till item).length = 1 ∧
      (race.after withRetraction).index.usagesBy till item = [] ∧
      (index.usagesBy shop item).length = 2 ∧
      (race.after withRetraction).index.usagesBy shop item = index.usagesBy shop item ++
        Index.appendedTo item (Nest.shopText.passInput.appends index.settings Nest.program) ∧
      ((race.after turns).index.query item).Perm ((race.after turns.reverse).index.query item) := by
  intro index family race item till shop turns withRetraction
  have hprogram : Nest.program.Reachable := ⟨_, rfl⟩
  have hnames : Nest.program.ClassNamesDistinct := by decide +kernel
  have hindex : index.Reachable Nest.program := Index.reachable_after Nest.program _ _
  have hdistinct : (family.map fun input => Nest.program.symbol input.subject).Nodup := by
    decide +kernel
  have hshop : Nest.program.symbol Nest.shopText.passInput.subject = .ok shop := by decide +kernel
  have hfamily : ∀ input ∈ family, Nest.program.symbol input.subject ≠ .ok till := by decide +kernel
  have hitem : ¬ Nest.program.DeclaredIn item till := by decide +kernel
  have hswept : ∀ swept, Turn.retract swept ∈ withRetraction → swept = till := fun swept h => by
    simpa [withRetraction, turns] using h
  obtain ⟨hretracting, hplain⟩ := index_of_done hprogram hnames hindex family hdistinct
  refine ⟨by decide +kernel, by decide +kernel, by decide +kernel, ?_, ?_⟩
  · exact hretracting withRetraction (by decide +kernel) (fun swept h => hswept swept h ▸ hfamily)
      item (fun swept h => hswept swept h ▸ hitem) _ List.mem_cons_self shop hshop
  · exact (hplain turns turns.reverse (by decide +kernel) (by decide +kernel) (by simp [turns])
      (by simp [turns])).2.2.2 item

end Race

end CrossReference
