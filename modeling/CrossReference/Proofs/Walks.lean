import CrossReference.Proofs.Tables
import Mathlib.Computability.StateTransition
import Mathlib.Data.List.Nodup

/-!
# Walks up and down

Two loops go over the containment of a program, and neither has a bound of its own. The loop upwards
follows owners: its turn is `Program.owner?`. The loop downwards keeps a stack: its turn,
`Program.descend`, puts out what is on top and puts the members of that on the stack.
`StateTransition.eval` is what such a loop comes to, if it ends.

As long as handles have not run out, an owner stands in front of what it owns. So both loops end,
within the number of turns that `Program.topLevelClass` and `Program.descendants` allow, and the
stack puts out a class in front of what its members put out, one member after the other. Both loops
read the same containment, one by the table of owners, the other by the lists of members: a
declaration is met on the way down from a class if and only if the class is met on the way up from
it (`Program.Reachable.walks_agree`).
-/

namespace CrossReference.Program

open StateTransition (Reaches eval mem_eval reaches_total)

variable {p : Program} {h o c n : Handle}

/-! ## The loop downwards -/

/-- Where a walk down stands: its stack, the top in front, and what it has put out. -/
structure Walk where
  stack : List Handle
  out : List Handle

/-- One turn of a walk down. The members of the top are put on from the last one to the first, so
that the first one is met next. -/
def descend (p : Program) (w : Walk) : Option Walk :=
  match w.stack with
  | [] => none
  | h :: stack =>
    some ⟨(p.members h).reverse.foldl (fun stack member => member :: stack) stack, w.out ++ [h]⟩

theorem descend_cons (p : Program) (h : Handle) (stack out : List Handle) :
    p.descend ⟨h :: stack, out⟩ = some ⟨p.members h ++ stack, out ++ [h]⟩ := by
  have hpushed : (p.members h).reverse.foldl (fun stack member => member :: stack) stack =
      p.members h ++ stack := by
    rw [List.foldl_flip_cons_eq_append', List.reverse_reverse]
  rw [descend]
  dsimp only
  rw [hpushed]

/-! ## Owners -/

theorem Agreeing.lt_of_mem_members (hp : p.Agreeing) (hmem : h ∈ p.members c) :
    c.index.toNat < h.index.toNat ∧ p.Issued h := by
  have ho : p.owner? h = some c := hp.mem_members_iff.1 hmem
  exact ⟨UInt32.lt_iff_toNat_lt.1 (hp.owner_lt ho), hp.owned_issued ho⟩

theorem Agreeing.index_le_of_reaches (hp : p.Agreeing) (hr : Reaches p.owner? n c) :
    c.index.toNat ≤ n.index.toNat := by
  induction hr with
  | refl => exact Nat.le_refl _
  | tail _ ho ih =>
    have hlt := UInt32.lt_iff_toNat_lt.1 (hp.owner_lt ho)
    omega

/-- What leads up to something that was issued was issued. -/
theorem Agreeing.issued_of_reaches (hp : p.Agreeing) (hr : Reaches p.owner? n c)
    (hc : p.Issued c) : p.Issued n := by
  rcases Relation.ReflTransGen.cases_head hr with rfl | ⟨o, ho, -⟩
  · exact hc
  · exact hp.owned_issued ho

/-- The way up passes one member of a class at most. -/
theorem Agreeing.eq_of_reaches_of_owner?_eq (hp : p.Agreeing) {m m' : Handle}
    (hm : p.owner? m = some o) (hm' : p.owner? m' = some o) (hr : Reaches p.owner? n m)
    (hr' : Reaches p.owner? n m') : m = m' := by
  have hbelow : ∀ {a b}, p.owner? a = some o → p.owner? b = some o →
      Reaches p.owner? a b → a = b := by
    intro a b ha hb hab
    rcases Relation.ReflTransGen.cases_head hab with rfl | ⟨x, hx, hxb⟩
    · rfl
    · -- The way up from `a` goes on at `o`, which is already above `b`.
      obtain rfl : x = o := Option.some.inj (hx.symm.trans ha)
      have hle := hp.index_le_of_reaches hxb
      have hlt := UInt32.lt_iff_toNat_lt.1 (hp.owner_lt hb)
      omega
  rcases reaches_total hr hr' with hmm' | hm'm
  · exact hbelow hm hm' hmm'
  · exact (hbelow hm' hm hm'm).symm

/-! ## What lies inside -/

/-- A declaration and what lies inside it, down to a depth: in front of all the declaration itself,
then what each of its members holds, one after the other. -/
def subtree (p : Program) : Nat → Handle → List Handle
  | 0, h => [h]
  | depth + 1, h => h :: (p.members h).flatMap (p.subtree depth)

/-- Below the last handle there is nothing, so some depth is deep enough. -/
theorem Agreeing.subtree_succ (hp : p.Agreeing) {depth : Nat}
    (hle : p.size ≤ h.index.toNat + depth + 1) : p.subtree (depth + 1) h = p.subtree depth h := by
  induction depth generalizing h with
  | zero =>
    have hnone : p.members h = [] := by
      refine List.eq_nil_iff_forall_not_mem.2 fun m hm => ?_
      obtain ⟨hlt, hissued⟩ := hp.lt_of_mem_members hm
      rw [Issued] at hissued
      omega
    rw [subtree, subtree, hnone]
    rfl
  | succ depth ih =>
    have hsame : (p.members h).flatMap (p.subtree (depth + 1)) =
        (p.members h).flatMap (p.subtree depth) := by
      refine List.flatMap_congr fun m hm => ih ?_
      obtain ⟨hlt, -⟩ := hp.lt_of_mem_members hm
      omega
    rw [subtree, subtree, hsame]

theorem Agreeing.subtree_of_le (hp : p.Agreeing) {depth : Nat} (hle : p.size ≤ depth) (h : Handle) :
    p.subtree depth h = p.subtree p.size h := by
  induction hle with
  | refl => rfl
  | @step depth hle ih =>
    have hdeep : p.size ≤ h.index.toNat + depth + 1 := Nat.le_trans hle (by omega)
    rw [hp.subtree_succ hdeep, ih]

theorem Agreeing.subtree_size (hp : p.Agreeing) (h : Handle) :
    p.subtree p.size h = h :: (p.members h).flatMap (p.subtree p.size) := by
  rw [← hp.subtree_of_le (Nat.le_succ p.size) h, subtree]

theorem Agreeing.reaches_of_mem_subtree (hp : p.Agreeing) {depth : Nat}
    (hmem : n ∈ p.subtree depth h) : Reaches p.owner? n h := by
  induction depth generalizing h with
  | zero =>
    obtain rfl := List.mem_singleton.1 hmem
    exact .refl
  | succ depth ih =>
    rcases List.mem_cons.1 hmem with rfl | hinside
    · exact .refl
    · obtain ⟨m, hm, hn⟩ := List.mem_flatMap.1 hinside
      exact (ih hn).tail (hp.mem_members_iff.1 hm)

theorem Agreeing.nodup_subtree (hp : p.Agreeing) (depth : Nat) (h : Handle) :
    (p.subtree depth h).Nodup := by
  induction depth generalizing h with
  | zero => exact List.nodup_singleton h
  | succ depth ih =>
    refine List.nodup_cons.2 ⟨fun hmem => ?_, List.nodup_flatMap.2 ⟨fun m _ => ih m, ?_⟩⟩
    · obtain ⟨m, hm, hh⟩ := List.mem_flatMap.1 hmem
      have hle := hp.index_le_of_reaches (hp.reaches_of_mem_subtree hh)
      obtain ⟨hlt, -⟩ := hp.lt_of_mem_members hm
      omega
    · -- Whatever lies in two members of one class would lead up to both.
      refine (hp.members_increase h).imp_of_mem fun {m m'} hm hm' hlt n hn hn' => ?_
      have heq : m = m' := hp.eq_of_reaches_of_owner?_eq (hp.mem_members_iff.1 hm)
        (hp.mem_members_iff.1 hm') (hp.reaches_of_mem_subtree hn) (hp.reaches_of_mem_subtree hn')
      exact UInt32.lt_irrefl _ (heq ▸ hlt)

/-- Below a declaration stand only others that were issued, and each of them once. -/
theorem Agreeing.length_subtree_le (hp : p.Agreeing) (h : Handle) :
    (p.subtree p.size h).length ≤ p.size + 1 := by
  have hnodup := hp.nodup_subtree p.size h
  rw [hp.subtree_size, List.nodup_cons] at hnodup
  have hissued : (p.members h).flatMap (p.subtree p.size) ⊆ p.handles := by
    intro n hn
    obtain ⟨m, hm, hn⟩ := List.mem_flatMap.1 hn
    exact mem_handles_iff.2
      (hp.issued_of_reaches (hp.reaches_of_mem_subtree hn) (hp.lt_of_mem_members hm).2)
  have hle := hnodup.2.length_le_of_subset hissued
  rw [handles, List.length_map, List.length_range] at hle
  rw [hp.subtree_size, List.length_cons]
  exact Nat.succ_le_succ hle

/-! ## The walk down puts out what lies inside -/

theorem Agreeing.flatMap_subtree_cons (hp : p.Agreeing) (h : Handle) (waiting : List Handle) :
    (h :: waiting).flatMap (p.subtree p.size) =
      h :: (p.members h ++ waiting).flatMap (p.subtree p.size) := by
  rw [List.flatMap_cons, hp.subtree_size, List.cons_append, List.flatMap_append]

/-- A walk with enough steps meets all that lies inside what waits. -/
theorem Agreeing.visit_eq_flatMap (hp : p.Agreeing) {steps : Nat} {waiting : List Handle}
    (hle : (waiting.flatMap (p.subtree p.size)).length ≤ steps) :
    p.visit steps waiting = waiting.flatMap (p.subtree p.size) := by
  induction steps generalizing waiting with
  | zero =>
    rw [List.eq_nil_of_length_eq_zero (Nat.le_zero.1 hle)]
    rfl
  | succ steps ih =>
    cases waiting with
    | nil => rfl
    | cons h waiting =>
      rw [hp.flatMap_subtree_cons, List.length_cons] at hle
      rw [hp.flatMap_subtree_cons, visit, ih (Nat.le_of_succ_le_succ hle)]

theorem Agreeing.descendants_eq_subtree (hp : p.Agreeing) (h : Handle) :
    p.descendants h = p.subtree p.size h := by
  have hwaiting : [h].flatMap (p.subtree p.size) = p.subtree p.size h := List.flatMap_singleton ..
  rw [descendants, hp.visit_eq_flatMap (by rw [hwaiting]; exact hp.length_subtree_le h), hwaiting]

/-- In front of what lies inside a class stands the class itself, and behind it follows what each
member holds, in the order of the members. -/
theorem Agreeing.descendants_eq_cons (hp : p.Agreeing) (c : Handle) :
    p.descendants c = c :: (p.members c).flatMap p.descendants := by
  have hsame : p.descendants = p.subtree p.size := funext hp.descendants_eq_subtree
  rw [hsame, hp.subtree_size]

theorem Agreeing.nodup_descendants (hp : p.Agreeing) (c : Handle) : (p.descendants c).Nodup := by
  rw [hp.descendants_eq_subtree]
  exact hp.nodup_subtree p.size c

/-- Inside a class lies what leads up to it. -/
theorem Agreeing.mem_descendants_iff (hp : p.Agreeing) :
    n ∈ p.descendants c ↔ Reaches p.owner? n c := by
  constructor
  · intro hmem
    rw [hp.descendants_eq_subtree] at hmem
    exact hp.reaches_of_mem_subtree hmem
  · intro hr
    induction hr with
    | refl =>
      rw [hp.descendants_eq_cons]
      exact List.mem_cons_self
    | @tail m c _ ho ih =>
      rw [hp.descendants_eq_cons]
      exact List.mem_cons_of_mem _ (List.mem_flatMap.2 ⟨m, hp.mem_members_iff.2 ho, ih⟩)

/-- The loop downwards empties its stack, and has then put out what lies inside all that
stood on it. -/
theorem Agreeing.reaches_descend (hp : p.Agreeing) (stack out : List Handle) :
    Reaches p.descend ⟨stack, out⟩ ⟨[], out ++ stack.flatMap p.descendants⟩ := by
  -- Each turn puts out one of the handles that are still to come.
  induction hturns : (stack.flatMap p.descendants).length generalizing stack out with
  | zero =>
    cases stack with
    | nil =>
      rw [List.flatMap_nil, List.append_nil]
      exact .refl
    | cons h stack =>
      rw [List.flatMap_cons, hp.descendants_eq_cons] at hturns
      simp at hturns
  | succ turns ih =>
    cases stack with
    | nil => simp at hturns
    | cons h stack =>
      have hcons : (h :: stack).flatMap p.descendants =
          h :: (p.members h ++ stack).flatMap p.descendants := by
        rw [List.flatMap_cons, hp.descendants_eq_cons, List.cons_append, List.flatMap_append]
      rw [hcons, List.length_cons] at hturns
      have hrest := ih (p.members h ++ stack) (out ++ [h]) (Nat.succ.inj hturns)
      rw [hcons, List.append_cons]
      exact .head (descend_cons p h stack out) hrest

/-! ## The walk up ends at a top-level class -/

theorem reaches_climb (p : Program) (steps : Nat) (h : Handle) :
    Reaches p.owner? h (p.climb steps h) := by
  induction steps generalizing h with
  | zero => exact .refl
  | succ steps ih =>
    cases ho : p.owner? h with
    | none =>
      rw [climb_of_owner?_eq_none ho]
      exact .refl
    | some o =>
      rw [climb, ho]
      exact .head ho (ih o)

theorem Agreeing.mem_eval_of_topLevelClass (hp : p.Agreeing) (hc : p.topLevelClass h = .ok c) :
    c ∈ p.classes ∧ c ∈ eval p.owner? h := by
  obtain ⟨hissued, rfl⟩ := topLevelClass_eq_ok.1 hc
  have hmem := hp.climb_mem_classes (issued_iff.2 hissued) (Nat.le_of_lt (issued_iff.2 hissued))
  exact ⟨hmem, mem_eval.2 ⟨reaches_climb p p.size h, (hp.mem_classes_iff.1 hmem).2⟩⟩

/-- The outermost class is where following owners comes to its end. -/
theorem Agreeing.topLevelClass_eq_ok_iff_mem_eval (hp : p.Agreeing) :
    p.topLevelClass h = .ok c ↔ p.Issued h ∧ c ∈ eval p.owner? h := by
  constructor
  · intro hc
    exact ⟨issued_iff.2 (topLevelClass_eq_ok.1 hc).1, (hp.mem_eval_of_topLevelClass hc).2⟩
  · rintro ⟨hissued, hc⟩
    obtain ⟨c', -, hc'⟩ := hp.exists_topLevelClass hissued
    rw [hc', Part.mem_unique hc (hp.mem_eval_of_topLevelClass hc').2]

/-- Of all top-level classes, the outermost class is the one inside which a declaration lies. -/
theorem Agreeing.mem_classes_and_mem_descendants_iff (hp : p.Agreeing)
    (hc : p.topLevelClass n = .ok c) {c' : Handle} :
    c' ∈ p.classes ∧ n ∈ p.descendants c' ↔ c' = c := by
  obtain ⟨hmem, heval⟩ := hp.mem_eval_of_topLevelClass hc
  constructor
  · rintro ⟨hmem', hinside⟩
    have heval' : c' ∈ eval p.owner? n :=
      mem_eval.2 ⟨hp.mem_descendants_iff.1 hinside, (hp.mem_classes_iff.1 hmem').2⟩
    exact Part.mem_unique heval' heval
  · rintro rfl
    exact ⟨hmem, hp.mem_descendants_iff.2 (mem_eval.1 heval).1⟩

/-- What lies inside the top-level classes, one after the other, is everything, and
each declaration once. -/
theorem Agreeing.nodup_flatMap_descendants (hp : p.Agreeing) :
    (p.classes.flatMap p.descendants).Nodup ∧
      ∀ n, n ∈ p.classes.flatMap p.descendants ↔ p.Issued n := by
  have hissued : ∀ {c n}, c ∈ p.classes → n ∈ p.descendants c → p.Issued n := fun hc hn =>
    hp.issued_of_reaches (hp.mem_descendants_iff.1 hn) (hp.mem_classes_iff.1 hc).1
  refine ⟨List.nodup_flatMap.2 ⟨fun c _ => hp.nodup_descendants c, ?_⟩,
    fun n => ⟨fun hn => ?_, fun hn => ?_⟩⟩
  · refine hp.classes_increase.imp_of_mem fun {c c'} hc hc' hlt n hn hn' => ?_
    obtain ⟨top, -, htop⟩ := hp.exists_topLevelClass (hissued hc hn)
    have heq : c = c' := ((hp.mem_classes_and_mem_descendants_iff htop).1 ⟨hc, hn⟩).trans
      ((hp.mem_classes_and_mem_descendants_iff htop).1 ⟨hc', hn'⟩).symm
    exact UInt32.lt_irrefl _ (heq ▸ hlt)
  · obtain ⟨c, hc, hn⟩ := List.mem_flatMap.1 hn
    exact hissued hc hn
  · obtain ⟨c, hc, htop⟩ := hp.exists_topLevelClass hn
    exact List.mem_flatMap.2 ⟨c, hc, ((hp.mem_classes_and_mem_descendants_iff htop).2 rfl).2⟩

/-- Whatever edits built a program, as long as handles have not run out: the loop upwards ends at
the outermost class, and the loop downwards, from any handle, with the descendants put out. The
descendants of a class are the class and, one member after the other, the descendants of its
members; none stands twice, and they are what leads up to the class. The outermost class of a
declaration is the one top-level class among whose descendants it is, and the descendants of all
top-level classes are all declarations, each once. -/
theorem Reachable.walks_agree (hp : p.Reachable) (hsize : p.size ≤ UInt32.size) :
    (∀ h, p.Issued h → ∃ c, p.topLevelClass h = .ok c ∧ c ∈ eval p.owner? h) ∧
    (∀ h, ⟨[], p.descendants h⟩ ∈ eval p.descend ⟨[h], []⟩) ∧
    (∀ c, p.descendants c = c :: (p.members c).flatMap p.descendants ∧ (p.descendants c).Nodup ∧
      ∀ n, n ∈ p.descendants c ↔ Reaches p.owner? n c) ∧
    (∀ n, p.Issued n → ∃ c, p.topLevelClass n = .ok c ∧
      ∀ c', c' ∈ p.classes ∧ n ∈ p.descendants c' ↔ c' = c) ∧
    (p.classes.flatMap p.descendants).Nodup ∧
      ∀ n, n ∈ p.classes.flatMap p.descendants ↔ p.Issued n := by
  have hagreeing : p.Agreeing := hp.agreeing hsize
  refine ⟨fun h hissued => ?_, fun h => ?_, fun c => ?_, fun n hissued => ?_,
    hagreeing.nodup_flatMap_descendants⟩
  · obtain ⟨c, -, hc⟩ := hagreeing.exists_topLevelClass hissued
    exact ⟨c, hc, (hagreeing.mem_eval_of_topLevelClass hc).2⟩
  · have hreaches := hagreeing.reaches_descend [h] []
    rw [List.nil_append, List.flatMap_singleton] at hreaches
    exact mem_eval.2 ⟨hreaches, rfl⟩
  · exact ⟨hagreeing.descendants_eq_cons c, hagreeing.nodup_descendants c,
      fun n => hagreeing.mem_descendants_iff⟩
  · obtain ⟨c, -, hc⟩ := hagreeing.exists_topLevelClass hissued
    exact ⟨c, hc, fun c' => hagreeing.mem_classes_and_mem_descendants_iff hc⟩

open Sample in
/-- The method of a nested class: upwards the loop ends at the class around that one, downwards it
meets the method behind the nested class and behind the constructor. -/
theorem walks_agree_nest :
    let p := Nest.program
    p.Reachable ∧ p.size ≤ UInt32.size ∧ p.topLevelClass Nest.itemCopy = .ok Nest.shop ∧
      p.descendants Nest.shop = [Nest.shop, Nest.item, Nest.itemConstructor, Nest.itemCopy] ∧
      Nest.shop ∈ eval p.owner? Nest.itemCopy ∧
      ⟨[], p.descendants Nest.shop⟩ ∈ eval p.descend ⟨[Nest.shop], []⟩ ∧
      Reaches p.owner? Nest.itemCopy Nest.shop ∧
      (∀ c, c ∈ p.classes ∧ Nest.itemCopy ∈ p.descendants c ↔ c = Nest.shop) ∧
      (p.classes.flatMap p.descendants).Nodup := by
  intro p
  have hp : p.Reachable := ⟨_, rfl⟩
  have hsize : p.size ≤ UInt32.size := by decide +kernel
  have hissued : p.Issued Nest.itemCopy := by decide +kernel
  have htop : p.topLevelClass Nest.itemCopy = .ok Nest.shop :=
    topLevelClass_eq_ok.2 ⟨issued_iff.1 hissued, by decide +kernel⟩
  have hdescendants : p.descendants Nest.shop =
      [Nest.shop, Nest.item, Nest.itemConstructor, Nest.itemCopy] := by decide +kernel
  obtain ⟨hup, hdown, hinside, honly, hnodup, -⟩ := hp.walks_agree hsize
  obtain ⟨c, hc, heval⟩ := hup _ hissued
  obtain rfl : Nest.shop = c := Except.ok.inj (htop.symm.trans hc)
  obtain ⟨c, hc, hclasses⟩ := honly _ hissued
  obtain rfl : Nest.shop = c := Except.ok.inj (htop.symm.trans hc)
  have hreaches := ((hinside _).2.2 Nest.itemCopy).1 (by rw [hdescendants]; decide)
  exact ⟨hp, hsize, htop, hdescendants, heval, hdown _, hreaches, hclasses, hnodup⟩

end CrossReference.Program
