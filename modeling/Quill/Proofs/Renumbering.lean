import Mathlib.Data.List.Basic
import Mathlib.Tactic.Choose
import Quill.Proofs.Permanence

/-!
# Numbering scopes

Scopes are what they bind and where they are linked to; their numbers are only names for them. A
heap numbers parents before their children, so that a search that follows the links goes down the
numbers and ends. Nothing is lost by that: if the links of some scopes end at all, whatever the
scopes are numbered, then they can be numbered parents first, and a search under the new numbers
takes exactly the chain of links that it takes under the old ones.

* `Heap.Renumbers`: a heap holds the scopes of another under other numbers.
* `Heap.Forest.exists_renumbers`: linked scopes can be numbered parents first.
* `Heap.Renumbers.path_eq`: the path of a scope is the chain of its links.
* `Heap.Renumbers.lookup_eq`, `Heap.Renumbers.assign_eq`, `Heap.Renumbers.declare_eq`: what becomes
  of a name under the new numbers, in terms of the old ones.
* `Heap.Renumbers.rebind`, `Heap.Renumbers.bind`: changes keep the numbering.
-/

namespace Quill

/-! ## Other numbers -/

/-- The scope, with the number of its parent changed. -/
def Scope.renumbered (number : Nat → Nat) (s : Scope) : Scope :=
  { s with parent := s.parent.map number }

namespace Heap

/-- The links from every scope end. -/
def Forest (h : Heap) : Prop := ∀ c < h.scopes.length, ∃ chain, h.Chain c chain

/-- A heap holds the scopes of another under other numbers. -/
structure Renumbers (number : Nat → Nat) (h h' : Heap) : Prop where
  length_eq : h'.scopes.length = h.scopes.length
  injective : ∀ c < h.scopes.length, ∀ d < h.scopes.length, number c = number d → c = d
  scope : ∀ (c : Nat) (s : Scope), h.scopes[c]? = some s →
    h'.scopes[number c]? = some (s.renumbered number)

/-! ## Chains of links -/

section Chain

variable {h : Heap} {c : Nat} {s : Scope} {chain : List Nat}

theorem Chain.lt_length (hchain : h.Chain c chain) : c < h.scopes.length := by
  cases hchain with
  | outermost hscope => exact (List.getElem?_eq_some_iff.mp hscope).1
  | within hscope => exact (List.getElem?_eq_some_iff.mp hscope).1

/-- The chain from a scope without a parent is the scope itself. -/
theorem Chain.eq_singleton (hchain : h.Chain c chain) (hscope : h.scopes[c]? = some s)
    (hparent : s.parent = none) : chain = [c] := by
  cases hchain with
  | outermost => rfl
  | within hscope' hparent' =>
    obtain rfl := Option.some.inj (hscope.symm.trans hscope')
    rw [hparent] at hparent'
    cases hparent'

/-- The chain from a scope with a parent goes on with that from the parent. -/
theorem Chain.exists_eq_cons (hchain : h.Chain c chain) (hscope : h.scopes[c]? = some s) {p : Nat}
    (hparent : s.parent = some p) : ∃ outer, chain = c :: outer ∧ h.Chain p outer := by
  cases hchain with
  | outermost hscope' hparent' =>
    obtain rfl := Option.some.inj (hscope.symm.trans hscope')
    rw [hparent] at hparent'
    cases hparent'
  | within hscope' hparent' houter =>
    obtain rfl := Option.some.inj (hscope.symm.trans hscope')
    obtain rfl := Option.some.inj (hparent.symm.trans hparent')
    exact ⟨_, rfl, houter⟩

/-- There is one chain of links from a scope. -/
theorem Chain.unique {other : List Nat} (hchain : h.Chain c chain) (hother : h.Chain c other) :
    other = chain := by
  induction hchain generalizing other with
  | outermost hscope hparent => exact hother.eq_singleton hscope hparent
  | within hscope hparent hchain ih =>
    obtain ⟨outer, rfl, houter⟩ := hother.exists_eq_cons hscope hparent
    rw [ih houter]

theorem Chain.lt_length_of_mem (hchain : h.Chain c chain) : ∀ o ∈ chain, o < h.scopes.length := by
  induction hchain with
  | outermost hscope =>
    intro o ho
    rw [List.mem_singleton.mp ho]
    exact (List.getElem?_eq_some_iff.mp hscope).1
  | within hscope hparent hchain ih =>
    intro o ho
    rcases List.mem_cons.mp ho with rfl | ho
    · exact (List.getElem?_eq_some_iff.mp hscope).1
    · exact ih o ho

/-- Where all links end, there is a rank that every link lowers: the length of the chain. -/
theorem Forest.exists_rank (hforest : h.Forest) :
    ∃ rank : Nat → Nat, ∀ (c p : Nat) (s : Scope), h.scopes[c]? = some s → s.parent = some p →
      p < h.scopes.length ∧ rank p < rank c := by
  choose! chain hchain using hforest
  refine ⟨fun c => (chain c).length, ?_⟩
  intro c p s hscope hparent
  have hc := hchain c (List.getElem?_eq_some_iff.mp hscope).1
  obtain ⟨outer, heq, houter⟩ := hc.exists_eq_cons hscope hparent
  have hp := houter.lt_length
  refine ⟨hp, ?_⟩
  show (chain p).length < (chain c).length
  rw [heq, houter.unique (hchain p hp)]
  exact Nat.lt_succ_self _

end Chain

/-! ## Numbering parents first -/

/-- The first numbers in an order in which their ranks do not fall. -/
theorem exists_order (rank : Nat → Nat) (n : Nat) :
    ∃ order : List Nat, order.Perm (List.range n) ∧ order.Pairwise (rank · ≤ rank ·) := by
  refine ⟨(List.range n).mergeSort (rank · ≤ rank ·), List.mergeSort_perm _ _, ?_⟩
  have hsorted := @List.pairwise_mergeSort _ (rank · ≤ rank ·) ?_ ?_ (List.range n)
  · simpa only [decide_eq_true_eq] using hsorted
  · intro a b c hab hbc
    simp only [decide_eq_true_eq] at hab hbc ⊢
    omega
  · intro a b
    simp only [Bool.or_eq_true, decide_eq_true_eq]
    omega

/-- In such an order a number of less rank has an earlier place. -/
theorem idxOf_lt_of_rank_lt {rank : Nat → Nat} {order : List Nat}
    (hsorted : order.Pairwise (rank · ≤ rank ·)) {p c : Nat} (hp : p ∈ order) (hc : c ∈ order)
    (hrank : rank p < rank c) : order.idxOf p < order.idxOf c := by
  have hplace := List.idxOf_lt_length_of_mem hp
  have hplace' := List.idxOf_lt_length_of_mem hc
  rcases Nat.lt_trichotomy (order.idxOf p) (order.idxOf c) with hlt | heq | hgt
  · exact hlt
  · rw [(List.idxOf_inj hp).mp heq] at hrank
    omega
  · have hle := List.pairwise_iff_getElem.mp hsorted _ _ hplace' hplace hgt
    rw [List.getElem_idxOf, List.getElem_idxOf] at hle
    omega

/-- The heap that holds the scopes in some order, each under its place in the order. -/
def inOrder (h : Heap) (order : List Nat) : Heap :=
  ⟨order.map fun c => (h.scopes.getD c default).renumbered order.idxOf⟩

section Order

variable {h : Heap} {order : List Nat} (hperm : order.Perm (List.range h.scopes.length))
include hperm

theorem mem_order_iff (c : Nat) : c ∈ order ↔ c < h.scopes.length := by
  rw [hperm.mem_iff, List.mem_range]

theorem scopes_inOrder {c : Nat} {s : Scope} (hscope : h.scopes[c]? = some s) :
    (h.inOrder order).scopes[order.idxOf c]? = some (s.renumbered order.idxOf) := by
  have hc := (mem_order_iff hperm c).mpr (List.getElem?_eq_some_iff.mp hscope).1
  rw [inOrder, List.getElem?_map, List.getElem?_idxOf hc, Option.map_some,
    List.getD_eq_getElem?_getD, hscope, Option.getD_some]

theorem renumbers_inOrder : Renumbers order.idxOf h (h.inOrder order) := by
  refine ⟨?_, ?_, fun c s => scopes_inOrder hperm⟩
  · rw [inOrder, List.length_map, hperm.length_eq, List.length_range]
  · intro c hc d _ heq
    exact (List.idxOf_inj ((mem_order_iff hperm c).mpr hc)).mp heq

/-- If links lower the rank, then in an order by rank parents come before their children. -/
theorem grounded_inOrder {rank : Nat → Nat}
    (hrank : ∀ (c p : Nat) (s : Scope), h.scopes[c]? = some s → s.parent = some p →
      p < h.scopes.length ∧ rank p < rank c)
    (hsorted : order.Pairwise (rank · ≤ rank ·)) : (h.inOrder order).Grounded := by
  intro place p' s' hscope' hparent'
  -- The place is that of some scope, and the parent there is the place of its parent.
  rw [inOrder, List.getElem?_map, Option.map_eq_some_iff] at hscope'
  obtain ⟨c, hplace, rfl⟩ := hscope'
  obtain ⟨hlt, rfl⟩ := List.getElem?_eq_some_iff.mp hplace
  obtain ⟨p, hparent, rfl⟩ := Option.map_eq_some_iff.mp hparent'
  have hmem := List.getElem_mem hlt
  have hscope := List.getElem?_eq_getElem ((mem_order_iff hperm _).mp hmem)
  rw [List.getD_eq_getElem?_getD, hscope, Option.getD_some] at hparent
  obtain ⟨hp, hless⟩ := hrank _ p _ hscope hparent
  have hnodup : order.Nodup := hperm.nodup_iff.mpr List.nodup_range
  calc order.idxOf p < order.idxOf order[place] :=
        idxOf_lt_of_rank_lt hsorted ((mem_order_iff hperm p).mpr hp) hmem hless
    _ = place := hnodup.idxOf_getElem place hlt

end Order

/-- Scopes whose links end can be numbered with every parent before its children: in the order of
    the lengths of their chains. -/
theorem Forest.exists_renumbers {h : Heap} (hforest : h.Forest) :
    ∃ (number : Nat → Nat) (h' : Heap), Renumbers number h h' ∧ h'.Grounded := by
  obtain ⟨rank, hrank⟩ := hforest.exists_rank
  obtain ⟨order, hperm, hsorted⟩ := exists_order rank h.scopes.length
  exact ⟨order.idxOf, h.inOrder order, renumbers_inOrder hperm,
    grounded_inOrder hperm hrank hsorted⟩

/-! ## Names under other numbers -/

namespace Renumbers

variable {number : Nat → Nat} {h h' : Heap} {c : Nat} {chain : List Nat}

theorem binding?_eq (hnumber : Renumbers number h h') (hc : c < h.scopes.length) (name : String) :
    h'.binding? (number c) name = h.binding? c name := by
  have hscope := List.getElem?_eq_getElem hc
  rw [binding?, binding?, hnumber.scope c _ hscope, hscope]
  rfl

/-- Links lead to the same scopes. -/
theorem chain_map (hnumber : Renumbers number h h') (hchain : h.Chain c chain) :
    h'.Chain (number c) (chain.map number) := by
  induction hchain with
  | outermost hscope hparent =>
    exact .outermost (hnumber.scope _ _ hscope) (congrArg (Option.map number) hparent)
  | within hscope hparent hchain ih =>
    exact .within (hnumber.scope _ _ hscope) (congrArg (Option.map number) hparent) ih

/-- If parents come first, the path of a scope is the chain of its links. -/
theorem path_eq (hnumber : Renumbers number h h') (hground : h'.Grounded)
    (hchain : h.Chain c chain) : h'.path (number c) = chain.map number := by
  have hmap := hnumber.chain_map hchain
  exact hmap.unique (hground.chain_path hmap.lt_length)

/-- The owner of a name is the first scope on the chain of links that binds it. -/
theorem owner?_eq (hnumber : Renumbers number h h') (hground : h'.Grounded)
    (hchain : h.Chain c chain) (name : String) :
    h'.owner? (number c) name = (h.search chain name).map fun (o, b) => (number o, b) := by
  rw [owner?, hnumber.path_eq hground hchain, search, search, List.findSome?_map]
  have hlt := hchain.lt_length_of_mem
  clear hchain
  induction chain with
  | nil => rfl
  | cons o outer ih =>
    have hbinding := hnumber.binding?_eq (hlt o List.mem_cons_self) name
    have houter := ih fun p hp => hlt p (List.mem_cons_of_mem o hp)
    rw [List.findSome?_cons, List.findSome?_cons, Function.comp_apply, hbinding, houter]
    cases h.binding? o name <;> rfl

theorem lookup_eq (hnumber : Renumbers number h h') (hground : h'.Grounded)
    (hchain : h.Chain c chain) (name : String) :
    h'.lookup (number c) name =
      match h.search chain name with
      | some (_, b) => .ok b.value
      | none => .error (.undefined name) := by
  rw [Heap.lookup_eq, hnumber.owner?_eq hground hchain]
  cases h.search chain name <;> rfl

theorem assign_eq (hnumber : Renumbers number h h') (hground : h'.Grounded)
    (hchain : h.Chain c chain) (name : String) (value : Value) :
    h'.assign (number c) name value =
      match h.search chain name with
      | some (o, b) =>
        if b.constant then .fail (.constant name) h'
        else ⟨.ok value, h'.modify (number o) (·.rebind name value), [.assigned name value]⟩
      | none => .fail (.undefined name) h' := by
  rw [Heap.assign_eq, hnumber.owner?_eq hground hchain]
  cases h.search chain name <;> rfl

theorem declare_eq (hnumber : Renumbers number h h') (hc : c < h.scopes.length) (name : String)
    (value : Value) (constant : Bool) :
    h'.declare (number c) name value constant =
      match h.binding? c name with
      | some _ => .fail (.alreadyDeclared name) h'
      | none =>
        ⟨.ok value, h'.modify (number c) (·.bind name ⟨value, constant⟩),
          [.declared name value constant]⟩ := by
  have hscope := List.getElem?_eq_getElem hc
  rw [declare, binding?, hnumber.scope c _ hscope, hscope]
  rfl

/-- A change of one scope that does not look at its links keeps the numbering. -/
theorem modify (hnumber : Renumbers number h h') (hc : c < h.scopes.length) {f : Scope → Scope}
    (hf : ∀ s : Scope, f (s.renumbered number) = (f s).renumbered number) :
    Renumbers number (h.modify c f) (h'.modify (number c) f) := by
  have hlength (g : Heap) (i : Nat) : (g.modify i f).scopes.length = g.scopes.length :=
    List.length_modify _ _ _
  refine ⟨by rw [hlength, hlength, hnumber.length_eq], ?_, ?_⟩
  · rw [hlength]
    exact hnumber.injective
  · intro d s hscope
    rw [scopes_modify] at hscope ⊢
    by_cases hd : d = c
    · rw [if_pos hd, Option.map_eq_some_iff] at hscope
      obtain ⟨before, hbefore, rfl⟩ := hscope
      rw [if_pos (congrArg number hd), hnumber.scope d before hbefore, Option.map_some, hf]
    · rw [if_neg hd] at hscope
      have hlt := (List.getElem?_eq_some_iff.mp hscope).1
      rw [if_neg (mt (hnumber.injective d hlt c hc) hd), hnumber.scope d s hscope]

/-- What an assignment leaves is numbered like what was there. -/
theorem rebind (hnumber : Renumbers number h h') (hc : c < h.scopes.length) (name : String)
    (value : Value) :
    Renumbers number (h.modify c (·.rebind name value))
      (h'.modify (number c) (·.rebind name value)) :=
  hnumber.modify hc fun _ => rfl

/-- What a declaration leaves is numbered like what was there. -/
theorem bind (hnumber : Renumbers number h h') (hc : c < h.scopes.length) (name : String)
    (b : Binding) :
    Renumbers number (h.modify c (·.bind name b)) (h'.modify (number c) (·.bind name b)) :=
  hnumber.modify hc fun _ => rfl

end Renumbers

end Heap

end Quill
