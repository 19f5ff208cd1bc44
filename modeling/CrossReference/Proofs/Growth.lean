import CrossReference.Proofs.Resolution
import CrossReference.Proofs.Walks

/-!
# Later edits

Symbols, outermost classes and what lies inside a class are found anew whenever they are asked for,
in tables that go on changing. `Program.GrowsInto p q` says what no edit changes in these tables:
what was declared stays declared, who was issued keeps its owner, and lists of members become longer
at their ends only. One edit keeps it (`Program.Agreeing.growsInto_afterEdit`), so all do, and then
every question about a handle that was issued before has the answer that it had; what lies inside a
class may only become more (`Program.Reachable.stable_afterEdits`).

A new place changes nothing but the place.
-/

namespace CrossReference.Program

open StateTransition (Reaches mem_eval)

variable {p q r : Program} {h o c n : Handle}

/-! ## What stays -/

/-- What later edits keep of a program. -/
structure GrowsInto (p q : Program) : Prop where
  /-- A declaration stays what it is; only its place may become another. -/
  get : ∀ {h : Handle} {d : Declaration}, p.get h = .ok d → ∃ e, q.get h = .ok e ∧
    e.handle = d.handle ∧ e.kind = d.kind ∧ e.name = d.name ∧ e.descriptor = d.descriptor
  owner? : ∀ {h : Handle}, p.Issued h → q.owner? h = p.owner? h
  members : ∀ c : Handle, p.members c <+: q.members c

namespace GrowsInto

theorem refl (p : Program) : p.GrowsInto p where
  get hd := ⟨_, hd, rfl, rfl, rfl, rfl⟩
  owner? _ := rfl
  members _ := List.prefix_refl _

theorem issued (hq : p.GrowsInto q) (hissued : p.Issued h) : q.Issued h := by
  obtain ⟨d, hd⟩ := issued_iff.1 hissued
  obtain ⟨e, he, -⟩ := hq.get hd
  exact issued_iff.2 ⟨e, he⟩

theorem trans (hq : p.GrowsInto q) (hr : q.GrowsInto r) : p.GrowsInto r where
  get hd := by
    obtain ⟨e, he, hhandle, hkind, hname, hdescriptor⟩ := hq.get hd
    obtain ⟨e', he', hhandle', hkind', hname', hdescriptor'⟩ := hr.get he
    exact ⟨e', he', hhandle'.trans hhandle, hkind'.trans hkind, hname'.trans hname,
      hdescriptor'.trans hdescriptor⟩
  owner? hissued := (hr.owner? (hq.issued hissued)).trans (hq.owner? hissued)
  members c := (hq.members c).trans (hr.members c)

end GrowsInto

/-! ## One edit -/

theorem Agreeing.growsInto_extend (hp : p.Agreeing) (hsize : p.size < UInt32.size)
    (kind : DeclarationKind) (name descriptor : String) (owner : Option Handle) :
    p.GrowsInto (p.extend kind name descriptor owner) where
  get hd := ⟨_, get_extend hd, rfl, rfl, rfl, rfl⟩
  owner? hissued := by rw [hp.owner?_extend hsize, if_neg (ne_new hsize hissued)]
  members c := by
    have hmembers : (p.extend kind name descriptor owner).members c = _ :=
      members_push kind name descriptor owner c
    rw [hmembers]
    split
    · exact List.prefix_append _ _
    · exact List.prefix_refl _

theorem growsInto_placed {d : Declaration} (hd : p.get h = .ok d) (position : Position) :
    p.GrowsInto (p.placed h d position) where
  get {h'} d' hd' := by
    have hget : (p.placed h d position).get h' = _ := get_placed hd position h'
    rw [hget, hd']
    refine ⟨_, rfl, ?_⟩
    split <;> exact ⟨rfl, rfl, rfl, rfl⟩
  owner? _ := rfl
  members _ := List.prefix_refl _

theorem Agreeing.growsInto_afterEdit (hp : p.Agreeing) {e : Edit}
    (hsize : (p.afterEdit e).size ≤ UInt32.size) : p.GrowsInto (p.afterEdit e) := by
  rcases afterEdit_cases p e with heq | ⟨name, heq⟩ |
    ⟨kind, name, descriptor, owner, -, heq⟩ | ⟨h, position, d, hd, heq⟩
  · rw [heq]
    exact .refl p
  · have hgrown : (p.addClass name).1.size = p.size + 1 := size_push .classDecl name "" none
    rw [heq, hgrown] at hsize
    rw [heq]
    exact hp.growsInto_extend hsize .classDecl name "" none
  · rw [heq, size_push] at hsize
    rw [heq, ← extend_some]
    exact hp.growsInto_extend hsize kind name descriptor (some owner)
  · rw [heq]
    exact growsInto_placed hd position

theorem size_le_afterEdit (p : Program) (e : Edit) : p.size ≤ (p.afterEdit e).size := by
  rcases afterEdit_cases p e with heq | ⟨name, heq⟩ |
    ⟨kind, name, descriptor, owner, -, heq⟩ | ⟨h, position, d, -, heq⟩
  · rw [heq]
  · have hgrown : (p.addClass name).1.size = p.size + 1 := size_push .classDecl name "" none
    rw [heq, hgrown]
    exact Nat.le_succ _
  · rw [heq, size_push]
    exact Nat.le_succ _
  · rw [heq, size, size, Array.size_setIfInBounds]

/-! ## Any number of edits -/

theorem Reachable.afterEdits (hp : p.Reachable) (edits : List Edit) :
    (p.afterEdits edits).Reachable := by
  obtain ⟨earlier, rfl⟩ := hp
  exact ⟨earlier ++ edits, List.foldl_append.symm⟩

theorem size_le_afterEdits (p : Program) (edits : List Edit) :
    p.size ≤ (p.afterEdits edits).size := by
  induction edits generalizing p with
  | nil => exact Nat.le_refl _
  | cons e rest ih => exact Nat.le_trans (p.size_le_afterEdit e) (ih _)

theorem Reachable.growsInto_afterEdits (hp : p.Reachable) {edits : List Edit}
    (hsize : (p.afterEdits edits).size ≤ UInt32.size) : p.GrowsInto (p.afterEdits edits) := by
  induction edits generalizing p with
  | nil => exact .refl p
  | cons e rest ih =>
    -- Handles have not run out behind the first edit, as they have not run out at the end.
    have hfirst : (p.afterEdit e).size ≤ UInt32.size :=
      Nat.le_trans (size_le_afterEdits _ rest) hsize
    have hstart : p.size ≤ UInt32.size := Nat.le_trans (p.size_le_afterEdit e) hfirst
    exact ((hp.agreeing hstart).growsInto_afterEdit hfirst).trans (ih (hp.afterEdits [e]) hsize)

/-! ## Answers -/

namespace GrowsInto

variable (hq : p.GrowsInto q) (hp : p.Agreeing)

include hq hp

theorem symbol_eq (hissued : p.Issued h) : q.symbol h = p.symbol h := by
  obtain ⟨d, hd⟩ := issued_iff.1 hissued
  obtain ⟨s, hs⟩ := hp.exists_symbol hd
  rw [hs]
  refine symbol_eq_ok_of_found (f := id) (fun hd => ?_) (fun ho => ?_) hs
  · obtain ⟨e, he, -, hkind, hname, hdescriptor⟩ := hq.get hd
    exact ⟨e, he, hkind, hname, hdescriptor⟩
  · exact (hq.owner? hissued).trans ho

omit hp in
theorem declaringClass_eq (hissued : p.Issued h) : q.declaringClass h = p.declaringClass h := by
  obtain ⟨d, hd⟩ := issued_iff.1 hissued
  obtain ⟨e, he, -, hkind, -⟩ := hq.get hd
  have hclass : e.isClass = d.isClass := Declaration.isClass_congr hkind
  have howner : q.owner h = p.owner h := by rw [owner, owner, hq.owner? hissued]
  rw [declaringClass, declaringClass, he, hd]
  simp only [bind, Except.bind, hclass, howner]

/-- The way up from what was issued is as it was. -/
theorem reaches_iff (hissued : p.Issued n) :
    Reaches q.owner? n c ↔ Reaches p.owner? n c := by
  constructor
  · intro hr
    induction hr using Relation.ReflTransGen.head_induction_on with
    | refl => exact .refl
    | @head n o ho _ ih =>
      have ho' : p.owner? n = some o := (hq.owner? hissued).symm.trans ho
      obtain ⟨d, hd, -⟩ := hp.owner_isClass ho'
      exact .head ho' (ih (issued_iff.2 ⟨d, hd⟩))
  · intro hr
    exact hr.lift id fun n o ho => (hq.owner? (hp.owned_issued ho)).trans ho

theorem topLevelClass_eq (hq' : q.Agreeing) (hissued : p.Issued h) :
    q.topLevelClass h = p.topLevelClass h := by
  obtain ⟨c, hmem, hc⟩ := hp.exists_topLevelClass hissued
  obtain ⟨hclass, ho⟩ := hp.mem_classes_iff.1 hmem
  obtain ⟨hreaches, -⟩ := mem_eval.1 (hp.mem_eval_of_topLevelClass hc).2
  rw [hc, hq'.topLevelClass_eq_ok_iff_mem_eval, mem_eval]
  exact ⟨hq.issued hissued, (hq.reaches_iff hp hissued).2 hreaches, (hq.owner? hclass).trans ho⟩

omit hp in
theorem subtree_sublist (depth : Nat) (h : Handle) :
    (p.subtree depth h).Sublist (q.subtree depth h) := by
  induction depth generalizing h with
  | zero => exact List.Sublist.refl _
  | succ depth ih =>
    have hinside := List.Sublist.flatMap_right (p.members h) fun m _ => ih m
    exact (hinside.trans ((hq.members h).sublist.flatMap _)).cons_cons h

theorem descendants_sublist (hq' : q.Agreeing) (c : Handle) :
    (p.descendants c).Sublist (q.descendants c) := by
  -- Both trees are as deep as the larger of the two programs allows.
  have hp' := hp.subtree_of_le (Nat.le_max_left p.size q.size) c
  have hq'' := hq'.subtree_of_le (Nat.le_max_right p.size q.size) c
  rw [hp.descendants_eq_subtree, hq'.descendants_eq_subtree, ← hp', ← hq'']
  exact hq.subtree_sublist _ c

/-- What has come to lie inside a class was issued later. -/
theorem mem_descendants_of_issued (hq' : q.Agreeing) (hissued : p.Issued n)
    (hmem : n ∈ q.descendants c) : n ∈ p.descendants c :=
  hp.mem_descendants_iff.2 ((hq.reaches_iff hp hissued).1 (hq'.mem_descendants_iff.1 hmem))

end GrowsInto

/-! ## A new place -/

/-- A walk looks at nothing but lists of members. -/
theorem visit_congr (hmembers : ∀ c, q.members c = p.members c) (steps : Nat)
    (waiting : List Handle) : q.visit steps waiting = p.visit steps waiting := by
  induction steps generalizing waiting with
  | zero => rfl
  | succ steps ih =>
    cases waiting with
    | nil => rfl
    | cons h waiting => rw [visit, visit, hmembers, ih]

theorem descendants_placed (d : Declaration) (position : Position) :
    (p.placed h d position).descendants c = p.descendants c := by
  have hsize : (p.placed h d position).size = p.size := Array.size_setIfInBounds
  have hmembers : ∀ c, (p.placed h d position).members c = p.members c := fun _ => rfl
  rw [descendants, descendants, hsize, visit_congr hmembers]

/-- A new place changes no answer about classes, owners, members and symbols. -/
theorem Agreeing.answers_placed (hp : p.Agreeing) {d : Declaration} (hd : p.get n = .ok d)
    (position : Position) (h : Handle) :
    (p.placed n d position).topLevelClass h = p.topLevelClass h ∧
      (p.placed n d position).declaringClass h = p.declaringClass h ∧
      (p.placed n d position).symbol h = p.symbol h := by
  have hgrown : p.GrowsInto (p.placed n d position) := growsInto_placed hd position
  by_cases hissued : p.Issued h
  · exact ⟨hgrown.topLevelClass_eq hp (hp.placed hd position) hissued,
      hgrown.declaringClass_eq hissued, hgrown.symbol_eq hp hissued⟩
  · obtain ⟨-, -, htop, haround, hs⟩ := unknown_of_not_issued hissued
    obtain ⟨-, -, htop', haround', hs'⟩ :=
      unknown_of_not_issued (mt (issued_placed (d := d) position).1 hissued)
    exact ⟨htop'.trans htop.symm, haround'.trans haround.symm, hs'.trans hs.symm⟩

/-- A new place is given to what was issued; anything else leaves the program as it is. -/
theorem afterEdit_place (p : Program) (n : Handle) (position : Position) :
    (∃ d, p.get n = .ok d ∧ p.afterEdit (.place n position) = p.placed n d position) ∨
      ¬ p.Issued n ∧ p.afterEdit (.place n position) = p := by
  by_cases hissued : p.Issued n
  · obtain ⟨d, hd⟩ := issued_iff.1 hissued
    refine .inl ⟨d, hd, ?_⟩
    simp [afterEdit, edit, place, placed, hd, bind, Except.bind, Except.map, pure, Except.pure]
  · refine .inr ⟨hissued, ?_⟩
    simp [afterEdit, edit, place, get_of_not_issued hissued, bind, Except.bind, Except.map]

theorem get_afterEdit_place_self (p : Program) (n : Handle) (position : Position) :
    (p.afterEdit (.place n position)).get n =
      (p.get n).map ({ · with placement := some position }) := by
  rcases p.afterEdit_place n position with ⟨d, hd, heq⟩ | ⟨hunknown, heq⟩
  · have hplaced : (p.placed n d position).get n = _ := get_placed hd position n
    rw [heq, hplaced]
    simp only [if_true]
  · rw [heq, get_of_not_issued hunknown]
    rfl

theorem get_afterEdit_place_of_ne (hne : h ≠ n) (position : Position) :
    (p.afterEdit (.place n position)).get h = p.get h := by
  rcases p.afterEdit_place n position with ⟨d, hd, heq⟩ | ⟨-, heq⟩
  · have hplaced : (p.placed n d position).get h = _ := get_placed hd position h
    rw [heq, hplaced]
    simp only [if_neg hne]
    cases p.get h <;> rfl
  · rw [heq]

/-- Nothing but declarations knows about places. -/
theorem Agreeing.answers_afterEdit_place (hp : p.Agreeing) (n : Handle) (position : Position) :
    let q := p.afterEdit (.place n position)
    q.size = p.size ∧ q.classes = p.classes ∧ (∀ s, q.resolve s = p.resolve s) ∧
      ∀ h, q.owner? h = p.owner? h ∧ q.members h = p.members h ∧
        q.topLevelClass h = p.topLevelClass h ∧ q.declaringClass h = p.declaringClass h ∧
        q.symbol h = p.symbol h ∧ q.descendants h = p.descendants h := by
  intro q
  rcases p.afterEdit_place n position with ⟨d, hd, heq⟩ | ⟨-, heq⟩
  · have hq : q = p.placed n d position := heq
    rw [hq]
    refine ⟨Array.size_setIfInBounds, rfl, fun _ => rfl, fun h => ?_⟩
    obtain ⟨htop, haround, hs⟩ := hp.answers_placed hd position h
    exact ⟨rfl, rfl, htop, haround, hs, descendants_placed d position⟩
  · have hq : q = p := heq
    rw [hq]
    exact ⟨rfl, rfl, fun _ => rfl, fun _ => ⟨rfl, rfl, rfl, rfl, rfl, rfl⟩⟩

/-- Whatever edits follow, rejected ones included, as long as handles have not run out: about a
handle that was issued before, every question but that for the place has the answer that it had,
except that members and descendants may have joined. Members join at the end, descendants in
between, and whatever has joined was issued later. An edit that places a declaration changes no
answer but that for the place of this one. -/
theorem Reachable.stable_afterEdits (hp : p.Reachable) :
    (∀ edits, (p.afterEdits edits).size ≤ UInt32.size →
      let q := p.afterEdits edits
      ∀ h, p.Issued h →
        (∃ d e, p.get h = .ok d ∧ q.get h = .ok e ∧ e.handle = d.handle ∧ e.kind = d.kind ∧
          e.name = d.name ∧ e.descriptor = d.descriptor) ∧
        q.owner? h = p.owner? h ∧ q.topLevelClass h = p.topLevelClass h ∧
        q.declaringClass h = p.declaringClass h ∧ q.symbol h = p.symbol h ∧
        p.members h <+: q.members h ∧ (p.descendants h).Sublist (q.descendants h) ∧
        ∀ n ∈ q.descendants h, n ∉ p.descendants h → ¬ p.Issued n) ∧
    (p.size ≤ UInt32.size → ∀ n position,
      let q := p.afterEdit (.place n position)
      q.size = p.size ∧ q.classes = p.classes ∧ (∀ s, q.resolve s = p.resolve s) ∧
        (∀ h, q.owner? h = p.owner? h ∧ q.members h = p.members h ∧
          q.topLevelClass h = p.topLevelClass h ∧ q.declaringClass h = p.declaringClass h ∧
          q.symbol h = p.symbol h ∧ q.descendants h = p.descendants h) ∧
        (∀ h, h ≠ n → q.get h = p.get h ∧ q.placement h = p.placement h) ∧
        q.get n = (p.get n).map ({ · with placement := some position }) ∧
        q.placement n = (p.get n).map fun _ => some position) := by
  constructor
  · intro edits hsize q h hissued
    have hagreeing : p.Agreeing := hp.agreeing (Nat.le_trans (p.size_le_afterEdits edits) hsize)
    have hagreeing' : q.Agreeing := (hp.afterEdits edits).agreeing hsize
    have hq : p.GrowsInto q := hp.growsInto_afterEdits hsize
    obtain ⟨d, hd⟩ := issued_iff.1 hissued
    obtain ⟨e, he, hsame⟩ := hq.get hd
    exact ⟨⟨d, e, hd, he, hsame⟩, hq.owner? hissued,
      hq.topLevelClass_eq hagreeing hagreeing' hissued,
      hq.declaringClass_eq hissued, hq.symbol_eq hagreeing hissued, hq.members h,
      hq.descendants_sublist hagreeing hagreeing' h, fun n hmem hnew hn =>
        hnew (hq.mem_descendants_of_issued hagreeing hagreeing' hn hmem)⟩
  · intro hsize n position q
    obtain ⟨hsame, hclasses, hresolve, hanswers⟩ :=
      (hp.agreeing hsize).answers_afterEdit_place n position
    have hothers : ∀ h, h ≠ n → q.get h = p.get h := fun h hne =>
      get_afterEdit_place_of_ne hne position
    have hplaced : q.get n = (p.get n).map ({ · with placement := some position }) :=
      p.get_afterEdit_place_self n position
    refine ⟨hsame, hclasses, hresolve, hanswers, fun h hne => ⟨hothers h hne, ?_⟩, hplaced, ?_⟩
    · rw [placement, placement, hothers h hne]
    · rw [placement, hplaced]
      cases p.get n <;> rfl

open Sample in
/-- A class nested in a nested class, added late: the outer classes have gained it, and the method
that stood in the nested class before has kept its symbol and its outermost class. -/
theorem stable_afterEdits_nest :
    let p := Nest.program
    let edits := [Edit.addNestedClass Nest.item "demo.Shop$Item$Tag", .place Nest.itemCopy ⟨50, 4⟩]
    let q := p.afterEdits edits
    p.Reachable ∧ q.size ≤ UInt32.size ∧ p.Issued Nest.itemCopy ∧ p.Issued Nest.shop ∧
      q.descendants Nest.shop = [Nest.shop, Nest.item, Nest.itemConstructor, Nest.itemCopy, ⟨8⟩] ∧
      (p.descendants Nest.shop).Sublist (q.descendants Nest.shop) ∧
      q.symbol Nest.itemCopy = p.symbol Nest.itemCopy ∧
      q.topLevelClass Nest.itemCopy = p.topLevelClass Nest.itemCopy ∧
      (p.afterEdit (.place Nest.itemCopy ⟨50, 4⟩)).placement Nest.item = p.placement Nest.item := by
  intro p edits q
  have hp : p.Reachable := ⟨_, rfl⟩
  have hstart : p.size ≤ UInt32.size := by decide +kernel
  have hsize : q.size ≤ UInt32.size := by decide +kernel
  have hcopy : p.Issued Nest.itemCopy := by decide +kernel
  have hshop : p.Issued Nest.shop := by decide +kernel
  have hdescendants : q.descendants Nest.shop =
      [Nest.shop, Nest.item, Nest.itemConstructor, Nest.itemCopy, ⟨8⟩] := by decide +kernel
  obtain ⟨hlater, hplace⟩ := hp.stable_afterEdits
  obtain ⟨-, -, htop, -, hs, -⟩ := hlater edits hsize _ hcopy
  obtain ⟨-, -, -, -, -, -, hsublist, -⟩ := hlater edits hsize _ hshop
  obtain ⟨-, -, -, -, hothers, -⟩ := hplace hstart Nest.itemCopy ⟨50, 4⟩
  exact ⟨hp, hsize, hcopy, hshop, hdescendants, hsublist, hs, htop, (hothers _ (by decide)).2⟩

end CrossReference.Program
