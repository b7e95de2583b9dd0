import Quill.Proofs.Permanence

/-!
# Isolation

What runs in a scope reads and changes that scope and its ancestors, and no others. So steps in two
scopes without a common ancestor do not notice each other, however they are interleaved.

* `Heap.scopes_eq_of_changes`: a run leaves all scopes alone that are no ancestors of its own.
* `Program.sameFrom_evalFrom`: a program runs alike in heaps that agree on the ancestors.
* `Session.interleaved_run`: steps in two scopes, compared with each sequence by itself.
* `Session.disjoint_scopes_isolated`: the statement about all interleavings.
-/

namespace Quill

open Relation (ReflTransGen)

namespace Heap

/-! ## Ancestors -/

section Ancestors

variable (h : Heap)

/-- Scope `p` is the parent of scope `c`. -/
def Linked (c p : Nat) : Prop := ∃ s : Scope, h.scopes[c]? = some s ∧ s.parent = some p

/-- The links lead from scope `c` to scope `o`. Every scope is an ancestor of its own. -/
def Ancestor (c o : Nat) : Prop := ReflTransGen h.Linked c o

theorem linked_iff (c p : Nat) : h.Linked c p ↔ h.scopes[c]?.map Scope.parent = some (some p) := by
  unfold Linked
  rw [Option.map_eq_some_iff]

variable {h}

/-- A name is sought in ancestors only. -/
theorem ancestor_of_mem_path {c o : Nat} (ho : o ∈ h.path c) : h.Ancestor c o := by
  fun_induction path h c with
  | case1 => cases ho
  | case2 c s hc hparent =>
    rw [List.mem_singleton.mp ho]
    exact .refl
  | case3 c s hc p hparent hp ih =>
    rcases List.mem_cons.mp ho with rfl | ho
    · exact .refl
    · exact .head ⟨s, hc, hparent⟩ (ih ho)
  | case4 c s hc p hparent hp =>
    rw [List.mem_singleton.mp ho]
    exact .refl

/-- The ancestors depend on the links alone. -/
theorem ancestor_congr {h' : Heap}
    (hparent : ∀ i : Nat, h'.scopes[i]?.map Scope.parent = h.scopes[i]?.map Scope.parent)
    (c o : Nat) : h'.Ancestor c o ↔ h.Ancestor c o := by
  have hlinked : h'.Linked = h.Linked := by
    funext c p
    rw [linked_iff, linked_iff, hparent]
  unfold Ancestor
  rw [hlinked]

end Ancestors

/-! ## What a run leaves alone -/

section Frame

variable {h h' : Heap} {c : Nat}

theorem Change.ancestor_iff (hchange : h.Change c h') (s o : Nat) :
    h'.Ancestor s o ↔ h.Ancestor s o := by
  cases hchange with
  | assigned value => exact ancestor_congr (h.parent_modify _ fun s => s.parent_rebind _ value) s o
  | declared b => exact ancestor_congr (h.parent_modify c fun s => s.parent_bind _ b) s o

theorem Change.scopes_eq (hchange : h.Change c h') {i : Nat} (hi : ¬h.Ancestor c i) :
    h'.scopes[i]? = h.scopes[i]? := by
  cases hchange with
  | @assigned name o b value hown hvariable =>
    have ho : h.Ancestor c o := ancestor_of_mem_path (h.owner?_eq_some hown).1
    have hne : i ≠ o := by
      rintro rfl
      exact hi ho
    rw [scopes_modify, if_neg hne]
  | declared b =>
    have hne : i ≠ c := by
      rintro rfl
      exact hi .refl
    rw [scopes_modify, if_neg hne]

theorem ancestor_iff_of_changes (hchanges : ReflTransGen (Heap.Change · c) h h') (s o : Nat) :
    h'.Ancestor s o ↔ h.Ancestor s o := by
  induction hchanges with
  | refl => exact Iff.rfl
  | tail _ hchange ih => exact (hchange.ancestor_iff s o).trans ih

/-- A run in a scope leaves all scopes alone that are no ancestors of it. -/
theorem scopes_eq_of_changes (hchanges : ReflTransGen (Heap.Change · c) h h') {i : Nat}
    (hi : ¬h.Ancestor c i) : h'.scopes[i]? = h.scopes[i]? := by
  induction hchanges with
  | refl => rfl
  | tail hbefore hchange ih =>
    have hi' := mt (ancestor_iff_of_changes hbefore c i).mp hi
    exact (hchange.scopes_eq hi').trans ih

end Frame

/-! ## Heaps that agree on the ancestors of a scope -/

/-- The ancestors of scope `c` in the first heap are the same in the second. -/
def SameFrom (c : Nat) (h₁ h₂ : Heap) : Prop :=
  ∀ i, h₁.Ancestor c i → h₂.scopes[i]? = h₁.scopes[i]?

section SameFrom

variable {c : Nat} {h₁ h₂ : Heap} (hsame : h₁.SameFrom c h₂)
include hsame

theorem SameFrom.parent {p : Nat} (hlinked : h₁.Linked c p) : h₁.SameFrom p h₂ :=
  fun i hi => hsame i (.head hlinked hi)

theorem SameFrom.ancestor {i : Nat} (hi : h₂.Ancestor c i) : h₁.Ancestor c i := by
  induction hi with
  | refl => exact .refl
  | tail _ hlinked ih =>
    obtain ⟨s, hs, hparent⟩ := hlinked
    rw [hsame _ ih] at hs
    exact .tail ih ⟨s, hs, hparent⟩

theorem SameFrom.path_eq : h₂.path c = h₁.path c := by
  induction c using Nat.strongRecOn with
  | _ c ih =>
    rw [path, path, hsame c .refl]
    cases hs : h₁.scopes[c]? with
    | none => rfl
    | some s =>
      dsimp only
      cases hparent : s.parent with
      | none => rfl
      | some p =>
        dsimp only
        by_cases hp : p < c
        · rw [if_pos hp, if_pos hp, ih p hp (hsame.parent ⟨s, hs, hparent⟩)]
        · rw [if_neg hp, if_neg hp]

theorem SameFrom.owner?_eq (name : String) : h₂.owner? c name = h₁.owner? c name := by
  unfold owner?
  rw [hsame.path_eq]
  refine search_congr fun o ho => ?_
  unfold binding?
  rw [hsame o (ancestor_of_mem_path ho)]

theorem SameFrom.lookup_eq (name : String) : h₂.lookup c name = h₁.lookup c name := by
  rw [Heap.lookup_eq, Heap.lookup_eq, hsame.owner?_eq]

theorem SameFrom.modify (o : Nat) {f : Scope → Scope} (hf : ∀ s, (f s).parent = s.parent) :
    (h₁.modify o f).SameFrom c (h₂.modify o f) := by
  intro i hi
  have hi₁ := (ancestor_congr (h₁.parent_modify o hf) c i).mp hi
  rw [scopes_modify, scopes_modify, hsame i hi₁]

end SameFrom

end Heap

/-! ## Runs in heaps that agree -/

namespace Outcome

variable {ε ε' α β : Type} {c : Nat}

/-- Two outcomes with one result, and with heaps that agree on the ancestors of scope `c`. -/
structure SameFrom (c : Nat) (o₁ o₂ : Outcome ε α) : Prop where
  result : o₂.result = o₁.result
  heap : o₁.heap.SameFrom c o₂.heap

theorem SameFrom.andThen {o₁ o₂ : Outcome ε α} {f : α → Heap → Outcome ε β}
    (ho : o₁.SameFrom c o₂)
    (hf : ∀ a h₁ h₂, h₁.SameFrom c h₂ → (f a h₁).SameFrom c (f a h₂)) :
    (o₁.andThen f).SameFrom c (o₂.andThen f) := by
  cases hresult : o₁.result with
  | error e =>
    rw [andThen_of_error _ _ hresult, andThen_of_error _ _ (ho.result.trans hresult)]
    exact ⟨rfl, ho.heap⟩
  | ok a =>
    rw [andThen_of_ok _ _ hresult, andThen_of_ok _ _ (ho.result.trans hresult)]
    have hnext := hf a _ _ ho.heap
    exact ⟨hnext.result, hnext.heap⟩

theorem SameFrom.mapError {o₁ o₂ : Outcome ε α} (ho : o₁.SameFrom c o₂) (m : ε → ε') :
    (o₁.mapError m).SameFrom c (o₂.mapError m) :=
  ⟨congrArg (Except.mapError m) ho.result, ho.heap⟩

theorem SameFrom.of_verdict_eq {o₁ o₂ p₁ p₂ : Outcome ε α} (h₁ : o₁.verdict = p₁.verdict)
    (h₂ : o₂.verdict = p₂.verdict) (h : p₁.SameFrom c p₂) : o₁.SameFrom c o₂ := by
  obtain ⟨hresult₁, hheap₁⟩ := Prod.mk.inj h₁
  obtain ⟨hresult₂, hheap₂⟩ := Prod.mk.inj h₂
  refine ⟨?_, ?_⟩
  · rw [hresult₁, hresult₂, h.result]
  · rw [hheap₁, hheap₂]
    exact h.heap

end Outcome

section Runs

variable {c : Nat} {h₁ h₂ : Heap} (hsame : h₁.SameFrom c h₂)
include hsame

theorem Heap.sameFrom_assign (name : String) (value : Value) :
    (h₁.assign c name value).SameFrom c (h₂.assign c name value) := by
  rw [assign_eq, assign_eq, hsame.owner?_eq]
  match h₁.owner? c name with
  | none => exact ⟨rfl, hsame⟩
  | some (o, b) =>
    dsimp only
    by_cases hk : b.constant = true
    · rw [if_pos hk, if_pos hk]
      exact ⟨rfl, hsame⟩
    · rw [if_neg hk, if_neg hk]
      exact ⟨rfl, hsame.modify o fun s => s.parent_rebind name value⟩

theorem Heap.sameFrom_declare (name : String) (value : Value) (constant : Bool) :
    (h₁.declare c name value constant).SameFrom c (h₂.declare c name value constant) := by
  unfold declare
  rw [hsame c .refl]
  cases h₁.scopes[c]? with
  | none => exact ⟨rfl, hsame⟩
  | some s =>
    dsimp only
    cases s.find? name with
    | some b => exact ⟨rfl, hsame⟩
    | none => exact ⟨rfl, hsame.modify c fun s => s.parent_bind name ⟨value, constant⟩⟩

theorem Operator.sameFrom_combine (op : Operator) (left right : Value) :
    (op.combine left right h₁).SameFrom c (op.combine left right h₂) := by
  unfold combine
  split <;> exact ⟨rfl, hsame⟩

theorem Expr.sameFrom_eval (e : Expr) : (e.eval c h₁).SameFrom c (e.eval c h₂) := by
  fun_induction Expr.eval c e h₁ generalizing h₂ with
  | case1 => exact ⟨rfl, hsame⟩
  | case2 symbol span h₁ =>
    refine ⟨?_, hsame⟩
    show (h₂.lookup c symbol).mapError _ = (h₁.lookup c symbol).mapError _
    rw [hsame.lookup_eq]
  | case3 left op right span h₁ ihleft ihright =>
    rw [Expr.eval]
    refine (ihleft hsame).andThen fun a h₁ h₂ hsame => ?_
    refine (ihright h₁ hsame).andThen fun b h₁ h₂ hsame => ?_
    exact op.sameFrom_combine hsame a b
  | case4 symbol _ value span h₁ ih =>
    rw [Expr.eval]
    refine (ih hsame).andThen fun v h₁ h₂ hsame => ?_
    exact (Heap.sameFrom_assign hsame symbol v).mapError _
  | case5 target value span h₁ hname =>
    rw [Expr.eval]
    · exact ⟨rfl, hsame⟩
    · exact hname

theorem Statement.sameFrom_eval (st : Statement) : (st.eval c h₁).SameFrom c (st.eval c h₂) := by
  match st with
  | .expression e _ => exact e.sameFrom_eval hsame
  | .declare name constant (some e) span =>
    rw [Statement.eval, Statement.eval]
    refine (e.sameFrom_eval hsame).andThen fun v h₁ h₂ hsame => ?_
    exact (Heap.sameFrom_declare hsame name v constant).mapError _
  | .declare name constant none span =>
    exact (Heap.sameFrom_declare hsame name .null constant).mapError _

theorem Program.sameFrom_evalFrom (p : Program) (last : Value) :
    (p.evalFrom c last h₁).SameFrom c (p.evalFrom c last h₂) := by
  induction p generalizing last h₁ h₂ with
  | nil => exact ⟨rfl, hsame⟩
  | cons st p ih => exact (st.sameFrom_eval hsame).andThen fun v h₁ h₂ hsame => ih hsame v

theorem Script.sameFrom_execute (listing : Listing) (source : String) :
    (execute listing source c h₁).SameFrom c (execute listing source c h₂).toOutcome := by
  refine .of_verdict_eq (verdict_execute listing source c h₁)
    (verdict_execute listing source c h₂) ?_
  cases Program.ofSource source with
  | error fault => exact ⟨rfl, hsame⟩
  | ok p => exact p.sameFrom_evalFrom hsame .null

end Runs

/-! ## Steps in one scope -/

namespace Session

/-- The scope in which a step works, if it works in one that is there. -/
def Step.scope? : Step → Option Nat
  | .execute _ c => some c
  | .program _ c => some c
  | .statement _ (.scope c) => some c
  | .expr _ (.scope c) => some c
  | .declare _ _ _ c => some c
  | .assign _ _ c => some c
  | .lookup _ c => some c
  | _ => none

variable {s : Step} {c : Nat}

theorem changes_step (hs : s.scope? = some c) (h : Heap) :
    ReflTransGen (Heap.Change · c) h (step h s).2 := by
  match s, hs with
  | .execute source c, rfl => exact Script.changes_execute _ source c h
  | .program p c, rfl => exact p.changes .null h
  | .statement st (.scope c), rfl => exact st.changes h
  | .expr e (.scope c), rfl => exact e.changes h
  | .declare name value constant c, rfl => exact h.changes_declare c name value constant
  | .assign name value c, rfl => exact h.changes_assign c name value
  | .lookup name c, rfl => exact .refl

theorem sameFrom_ofOutcome {o₁ o₂ : Outcome Fault Value} (ho : o₁.SameFrom c o₂) :
    (ofOutcome o₂).1 = (ofOutcome o₁).1 ∧ (ofOutcome o₁).2.SameFrom c (ofOutcome o₂).2 :=
  ⟨congrArg Answer.ofResult ho.result, ho.heap⟩

theorem sameFrom_ofNameOutcome {o₁ o₂ : Outcome NameFault Value} (ho : o₁.SameFrom c o₂) :
    (ofNameOutcome o₂).1 = (ofNameOutcome o₁).1 ∧
      (ofNameOutcome o₁).2.SameFrom c (ofNameOutcome o₂).2 :=
  ⟨congrArg Answer.ofNameResult ho.result, ho.heap⟩

/-- A step has one answer in heaps that agree, and leaves heaps that agree. -/
theorem sameFrom_step (hs : s.scope? = some c) {h₁ h₂ : Heap} (hsame : h₁.SameFrom c h₂) :
    (step h₂ s).1 = (step h₁ s).1 ∧ (step h₁ s).2.SameFrom c (step h₂ s).2 := by
  match s, hs with
  | .execute source c, rfl => exact sameFrom_ofOutcome (Script.sameFrom_execute hsame _ source)
  | .program p c, rfl =>
    have hrun := p.sameFrom_evalFrom hsame .null
    exact ⟨congrArg Answer.ofResult hrun.result, hrun.heap⟩
  | .statement st (.scope c), rfl => exact sameFrom_ofOutcome (st.sameFrom_eval hsame)
  | .expr e (.scope c), rfl => exact sameFrom_ofOutcome (e.sameFrom_eval hsame)
  | .declare name value constant c, rfl =>
    exact sameFrom_ofNameOutcome (Heap.sameFrom_declare hsame name value constant)
  | .assign name value c, rfl =>
    exact sameFrom_ofNameOutcome (Heap.sameFrom_assign hsame name value)
  | .lookup name c, rfl => exact ⟨congrArg Answer.ofNameResult (hsame.lookup_eq name), hsame⟩

/-! ## Interleavings -/

/-- Which of two sequences something comes from. -/
inductive Side where
  | first
  | second

/-- `Interleaved sides xs ys zs`: the elements of `zs` are those of `xs` and those of `ys`, each in
    their order, and `sides` says of each of them which of the two it comes from. -/
inductive Interleaved {α : Type} : List Side → List α → List α → List α → Prop
  | nil : Interleaved [] [] [] []
  | first {sides : List Side} {xs ys zs : List α} (x : α) (hrest : Interleaved sides xs ys zs) :
      Interleaved (.first :: sides) (x :: xs) ys (x :: zs)
  | second {sides : List Side} {xs ys zs : List α} (y : α) (hrest : Interleaved sides xs ys zs) :
      Interleaved (.second :: sides) xs (y :: ys) (y :: zs)

/-- What some steps answer. -/
def answers (h : Heap) (steps : List Step) : List Answer := (run h steps).map Prod.fst

/-- The heap after some steps. -/
def finalHeap (h : Heap) (steps : List Step) : Heap := ((run h steps).map Prod.snd).getLastD h

theorem answers_cons (h : Heap) (s : Step) (rest : List Step) :
    answers h (s :: rest) = (step h s).1 :: answers (step h s).2 rest := rfl

theorem finalHeap_cons (h : Heap) (s : Step) (rest : List Step) :
    finalHeap h (s :: rest) = finalHeap (step h s).2 rest := by
  unfold finalHeap
  rw [run, List.map_cons, List.getLastD_cons]

theorem interleaved_append {α : Type} (xs ys : List α) :
    ∃ sides, Interleaved sides xs ys (xs ++ ys) := by
  induction xs with
  | nil =>
    induction ys with
    | nil => exact ⟨[], .nil⟩
    | cons y ys ih =>
      obtain ⟨sides, hsides⟩ := ih
      exact ⟨_, .second y hsides⟩
  | cons x xs ih =>
    obtain ⟨sides, hsides⟩ := ih
    exact ⟨_, .first x hsides⟩

/-- The heap `h` agrees with `h₁` on the ancestors of scope `a`, with `h₂` on those of scope `b`,
    and with `start` on all other scopes; and the two scopes have no ancestor in common. -/
structure Beside (start : Heap) (a b : Nat) (h h₁ h₂ : Heap) : Prop where
  first : h₁.SameFrom a h
  second : h₂.SameFrom b h
  disjoint : ∀ i, h₁.Ancestor a i → ¬h₂.Ancestor b i
  others : ∀ i, ¬h₁.Ancestor a i → ¬h₂.Ancestor b i → h.scopes[i]? = start.scopes[i]?

section Beside

variable {start : Heap} {a b : Nat} {h h' h₁ h₂ : Heap}

theorem Beside.symm (hbeside : Beside start a b h h₁ h₂) : Beside start b a h h₂ h₁ :=
  ⟨hbeside.second, hbeside.first, fun i hb ha => hbeside.disjoint i ha hb,
    fun i hb ha => hbeside.others i ha hb⟩

/-- Two heaps and the start determine the heap beside them. -/
theorem Beside.heap_eq (hbeside : Beside start a b h h₁ h₂)
    (hbeside' : Beside start a b h' h₁ h₂) : h = h' := by
  have hscopes : h.scopes = h'.scopes := by
    apply List.ext_getElem?
    intro i
    by_cases ha : h₁.Ancestor a i
    · rw [hbeside.first i ha, hbeside'.first i ha]
    · by_cases hb : h₂.Ancestor b i
      · rw [hbeside.second i hb, hbeside'.second i hb]
      · rw [hbeside.others i ha hb, hbeside'.others i ha hb]
  show (⟨h.scopes⟩ : Heap) = ⟨h'.scopes⟩
  rw [hscopes]

/-- A step in the first scope is taken in the first heap as well, and need not be taken in the
    second. -/
theorem Beside.step (hbeside : Beside start a b h h₁ h₂) (hs : s.scope? = some a) :
    Beside start a b (step h s).2 (step h₁ s).2 h₂ := by
  have hancestor := Heap.ancestor_iff_of_changes (changes_step hs h₁) a
  have hfar : ∀ i, ¬h₁.Ancestor a i → (Session.step h s).2.scopes[i]? = h.scopes[i]? := by
    intro i hi
    exact Heap.scopes_eq_of_changes (changes_step hs h) (mt hbeside.first.ancestor hi)
  refine ⟨(sameFrom_step hs hbeside.first).2, fun i hi => ?_, fun i hi => ?_, fun i hi hi' => ?_⟩
  · rw [hfar i fun ha => hbeside.disjoint i ha hi, hbeside.second i hi]
  · exact hbeside.disjoint i ((hancestor i).mp hi)
  · have hi₁ := mt (hancestor i).mpr hi
    rw [hfar i hi₁, hbeside.others i hi₁ hi']

/-- The steps of an interleaving answer as each sequence does by itself, and their heap is beside
    the heaps of the two sequences throughout. -/
theorem interleaved_run {sides : List Side} {steps₁ steps₂ steps : List Step}
    (hsteps : Interleaved sides steps₁ steps₂ steps) (hbeside : Beside start a b h h₁ h₂)
    (hfirst : ∀ s ∈ steps₁, s.scope? = some a) (hsecond : ∀ s ∈ steps₂, s.scope? = some b) :
    Interleaved sides (answers h₁ steps₁) (answers h₂ steps₂) (answers h steps) ∧
      Beside start a b (finalHeap h steps) (finalHeap h₁ steps₁) (finalHeap h₂ steps₂) := by
  induction hsteps generalizing h h₁ h₂ with
  | nil => exact ⟨.nil, hbeside⟩
  | first s _ ih =>
    obtain ⟨hs, hfirst⟩ := List.forall_mem_cons.mp hfirst
    obtain ⟨hanswers, hfinal⟩ := ih (hbeside.step hs) hfirst hsecond
    rw [answers_cons, answers_cons, finalHeap_cons, finalHeap_cons,
      (sameFrom_step hs hbeside.first).1]
    exact ⟨.first _ hanswers, hfinal⟩
  | second s _ ih =>
    obtain ⟨hs, hsecond⟩ := List.forall_mem_cons.mp hsecond
    obtain ⟨hanswers, hfinal⟩ := ih (hbeside.symm.step hs).symm hfirst hsecond
    rw [answers_cons, answers_cons, finalHeap_cons, finalHeap_cons,
      (sameFrom_step hs hbeside.second).1]
    exact ⟨.second _ hanswers, hfinal⟩

end Beside

/-- Steps in scope `a` and steps in scope `b`, which has no ancestor in common with it, answer in
    every interleaving as each sequence does by itself, and the heap in the end is always the
    same. -/
theorem disjoint_scopes_isolated (h : Heap) (a b : Nat)
    (hdisjoint : ∀ o, h.Ancestor a o → ¬h.Ancestor b o) (steps₁ steps₂ : List Step)
    (hfirst : ∀ s ∈ steps₁, s.scope? = some a) (hsecond : ∀ s ∈ steps₂, s.scope? = some b)
    (sides : List Side) (steps : List Step) (hsteps : Interleaved sides steps₁ steps₂ steps) :
    Interleaved sides (answers h steps₁) (answers h steps₂) (answers h steps) ∧
      finalHeap h steps = finalHeap h (steps₁ ++ steps₂) := by
  have hbeside : Beside h a b h h h :=
    ⟨fun _ _ => rfl, fun _ _ => rfl, hdisjoint, fun _ _ _ => rfl⟩
  obtain ⟨hanswers, hfinal⟩ := interleaved_run hsteps hbeside hfirst hsecond
  obtain ⟨sides', hinorder⟩ := interleaved_append steps₁ steps₂
  obtain ⟨-, hfinal'⟩ := interleaved_run hinorder hbeside hfirst hsecond
  exact ⟨hanswers, hfinal.heap_eq hfinal'⟩

/-- Two scopes of globals, in which a text and single uses of the same name take turns. -/
theorem globals_isolated :
    (∀ o, (⟨[.globals, .globals]⟩ : Heap).Ancestor 0 o →
        ¬(⟨[.globals, .globals]⟩ : Heap).Ancestor 1 o) ∧
      Interleaved [.second, .first, .second]
        (answers ⟨[.globals, .globals]⟩ [.execute "let x = (null = 1);" 0])
        (answers ⟨[.globals, .globals]⟩ [.declare "x" .null true 1, .assign "x" .null 1])
        (answers ⟨[.globals, .globals]⟩
          [.declare "x" .null true 1, .execute "let x = (null = 1);" 0, .assign "x" .null 1]) ∧
      finalHeap ⟨[.globals, .globals]⟩
          [.declare "x" .null true 1, .execute "let x = (null = 1);" 0, .assign "x" .null 1] =
        finalHeap ⟨[.globals, .globals]⟩
          [.execute "let x = (null = 1);" 0, .declare "x" .null true 1, .assign "x" .null 1] := by
  have hself : ∀ c < 2, ∀ o, (⟨[.globals, .globals]⟩ : Heap).Ancestor c o → c = o := by
    intro c hc o ho
    rcases ho.cases_head with rfl | ⟨p, ⟨s, hs, hparent⟩, -⟩
    · rfl
    · have hglobals : s = .globals := by
        obtain rfl | rfl : c = 0 ∨ c = 1 := by omega
        · exact (Option.some.inj hs).symm
        · exact (Option.some.inj hs).symm
      rw [hglobals] at hparent
      cases hparent
  have hdisjoint : ∀ o, (⟨[.globals, .globals]⟩ : Heap).Ancestor 0 o →
      ¬(⟨[.globals, .globals]⟩ : Heap).Ancestor 1 o := by
    intro o h₀ h₁
    have hzero := hself 0 (by omega) o h₀
    have hone := hself 1 (by omega) o h₁
    omega
  have hisolated := disjoint_scopes_isolated ⟨[.globals, .globals]⟩ 0 1 hdisjoint
    [.execute "let x = (null = 1);" 0] [.declare "x" .null true 1, .assign "x" .null 1]
    (by simp [Step.scope?]) (by simp [Step.scope?]) [.second, .first, .second] _
    (.second _ (.first _ (.second _ .nil)))
  exact ⟨hdisjoint, hisolated⟩

end Session

end Quill
