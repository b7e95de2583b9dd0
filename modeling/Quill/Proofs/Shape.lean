import Mathlib.Data.List.Forall2
import Quill.Proofs.Effects

/-!
# Shapes

The shape of a heap is what is left of it without the values: the scopes with their parents, the
names they bind and which of those are constant. Runs that start in heaps of one shape fail alike,
whatever the values are, and leave heaps of one shape.

* `Heap.shape_assign`: an assignment keeps the shape.
* `Expr.alike_eval`, `Program.alike_evalFrom`: programs run alike in heaps of one shape.
* `Script.faults_independent_of_values`: so do texts, one after the other.
-/

namespace Quill

/-! ## Shapes -/

/-- A scope without values: its parent, and for each name that it binds whether that is for
    good. -/
structure Scope.Shape where
  parent : Option Nat
  constant? : String → Option Bool

/-- The shape of a scope in which one more name is bound. -/
def Scope.Shape.bind (name : String) (constant : Bool) (shape : Scope.Shape) : Scope.Shape :=
  ⟨shape.parent, fun other => if other = name then some constant else shape.constant? other⟩

/-- The shape of a scope. -/
def Scope.shape (s : Scope) : Scope.Shape :=
  ⟨s.parent, fun name => (s.find? name).map Binding.constant⟩

/-- The shape of a heap. -/
def Heap.shape (h : Heap) : List Scope.Shape := h.scopes.map Scope.shape

namespace Scope

theorem shape_rebind (s : Scope) (name : String) (value : Value) :
    (s.rebind name value).shape = s.shape := by
  unfold shape
  rw [parent_rebind]
  congr 1
  funext other
  rw [find?_rebind]
  by_cases h : other = name
  · rw [if_pos h, h]
    cases s.find? name <;> rfl
  · rw [if_neg h]

theorem shape_bind (s : Scope) (name : String) (b : Binding) :
    (s.bind name b).shape = s.shape.bind name b.constant := by
  unfold shape Shape.bind
  rw [parent_bind]
  congr 1
  funext other
  rw [find?_bind]
  split <;> rfl

end Scope

namespace Heap

theorem shape_modify (h : Heap) (c : Nat) {f : Scope → Scope} (g : Scope.Shape → Scope.Shape)
    (hfg : ∀ s, (f s).shape = g s.shape) : (h.modify c f).shape = h.shape.modify c g := by
  apply List.ext_getElem?
  intro i
  unfold modify shape
  rw [List.getElem?_map, List.getElem?_modify, List.getElem?_modify, List.getElem?_map]
  by_cases hc : c = i
  · subst hc
    cases h.scopes[c]? <;> simp [hfg]
  · simp [hc]

theorem shape_assign (h : Heap) (c : Nat) (name : String) (value : Value) :
    (h.assign c name value).heap.shape = h.shape := by
  rw [assign_eq]
  split
  · split
    · rfl
    · rw [h.shape_modify _ id fun s => s.shape_rebind name value]
      exact List.modify_id _ _
  · rfl

end Heap

/-! ## One shape -/

/-- Two options that a function does not tell apart are both empty, or both hold something. -/
theorem none_or_some_of_map_eq {α β : Type} {f : α → β} {a b : Option α}
    (h : a.map f = b.map f) :
    (a = none ∧ b = none) ∨ ∃ x y, a = some x ∧ b = some y ∧ f x = f y := by
  cases a with
  | none => exact .inl ⟨rfl, Option.map_eq_none_iff.mp h.symm⟩
  | some x =>
    obtain ⟨y, hy, hxy⟩ := Option.map_eq_some_iff.mp h.symm
    exact .inr ⟨x, y, rfl, hy, hxy.symm⟩

theorem Scope.find?_of_shape_eq {s₁ s₂ : Scope} (h : s₁.shape = s₂.shape) (name : String) :
    (s₁.find? name = none ∧ s₂.find? name = none) ∨
      ∃ b₁ b₂, s₁.find? name = some b₁ ∧ s₂.find? name = some b₂ ∧ b₁.constant = b₂.constant :=
  none_or_some_of_map_eq (congrFun (congrArg Shape.constant? h) name)

namespace Heap

variable {h₁ h₂ : Heap} (hshape : h₁.shape = h₂.shape) (c : Nat) (name : String)
include hshape

theorem scope_of_shape_eq :
    (h₁.scopes[c]? = none ∧ h₂.scopes[c]? = none) ∨
      ∃ s₁ s₂, h₁.scopes[c]? = some s₁ ∧ h₂.scopes[c]? = some s₂ ∧ s₁.shape = s₂.shape := by
  apply none_or_some_of_map_eq
  rw [← List.getElem?_map, ← List.getElem?_map]
  exact congrArg (·[c]?) hshape

/-- In heaps of one shape a name has the same owner, and is constant there in both or in neither. -/
theorem owner?_map_eq :
    (h₁.owner? c name).map (fun own => (own.1, own.2.constant)) =
      (h₂.owner? c name).map (fun own => (own.1, own.2.constant)) := by
  induction c using Nat.strongRecOn with
  | _ c ih =>
    rw [owner?_eq, owner?_eq]
    obtain ⟨hc₁, hc₂⟩ | ⟨s₁, s₂, hc₁, hc₂, hs⟩ := scope_of_shape_eq hshape c
    · rw [hc₁, hc₂]
    · rw [hc₁, hc₂]
      dsimp only
      obtain ⟨hb₁, hb₂⟩ | ⟨b₁, b₂, hb₁, hb₂, hb⟩ := Scope.find?_of_shape_eq hs name
      · have hparent : s₁.parent = s₂.parent := congrArg Scope.Shape.parent hs
        rw [hb₁, hb₂, hparent]
        dsimp only
        cases s₂.parent with
        | none => rfl
        | some p =>
          dsimp only
          by_cases hp : p < c
          · rw [if_pos hp, if_pos hp, ih p hp]
          · rw [if_neg hp, if_neg hp]
      · rw [hb₁, hb₂]
        dsimp only
        rw [Option.map_some, Option.map_some, hb]

theorem owner?_of_shape_eq :
    (h₁.owner? c name = none ∧ h₂.owner? c name = none) ∨
      ∃ o b₁ b₂, h₁.owner? c name = some (o, b₁) ∧ h₂.owner? c name = some (o, b₂) ∧
        b₁.constant = b₂.constant := by
  obtain hnone | ⟨⟨o₁, b₁⟩, ⟨o₂, b₂⟩, hown₁, hown₂, heq⟩ :=
    none_or_some_of_map_eq (owner?_map_eq hshape c name)
  · exact .inl hnone
  · obtain ⟨rfl, hb⟩ := Prod.mk.inj heq
    exact .inr ⟨_, b₁, b₂, hown₁, hown₂, hb⟩

end Heap

/-! ## Outcomes that differ in values only -/

namespace Outcome

variable {ε ε' α β : Type}

/-- The cause of a failure, if there was one. -/
def fault? (o : Outcome ε α) : Option ε :=
  match o.result with
  | .ok _ => none
  | .error e => some e

/-- Two outcomes that differ in values and records only. -/
structure Alike (o₁ o₂ : Outcome ε α) : Prop where
  fault : o₁.fault? = o₂.fault?
  shape : o₁.heap.shape = o₂.heap.shape

theorem Alike.of_verdict_eq {o₁ o₂ p₁ p₂ : Outcome ε α} (h₁ : o₁.verdict = p₁.verdict)
    (h₂ : o₂.verdict = p₂.verdict) (h : p₁.Alike p₂) : o₁.Alike o₂ := by
  obtain ⟨hresult₁, hheap₁⟩ := Prod.mk.inj h₁
  obtain ⟨hresult₂, hheap₂⟩ := Prod.mk.inj h₂
  refine ⟨?_, ?_⟩
  · rw [fault?, fault?, hresult₁, hresult₂]
    exact h.fault
  · rw [hheap₁, hheap₂]
    exact h.shape

theorem Alike.cases {o₁ o₂ : Outcome ε α} (h : o₁.Alike o₂) :
    (∃ e, o₁.result = .error e ∧ o₂.result = .error e) ∨
      ∃ a₁ a₂, o₁.result = .ok a₁ ∧ o₂.result = .ok a₂ := by
  have hfault := h.fault
  unfold fault? at hfault
  cases h₁ : o₁.result <;> cases h₂ : o₂.result <;> simp_all

theorem Alike.andThen {o₁ o₂ : Outcome ε α} {f₁ f₂ : α → Heap → Outcome ε β} (ho : o₁.Alike o₂)
    (hf : ∀ a₁ a₂ h₁ h₂, h₁.shape = h₂.shape → (f₁ a₁ h₁).Alike (f₂ a₂ h₂)) :
    (o₁.andThen f₁).Alike (o₂.andThen f₂) := by
  obtain ⟨e, h₁, h₂⟩ | ⟨a₁, a₂, h₁, h₂⟩ := ho.cases
  · rw [andThen_of_error _ _ h₁, andThen_of_error _ _ h₂]
    exact ⟨rfl, ho.shape⟩
  · rw [andThen_of_ok _ _ h₁, andThen_of_ok _ _ h₂]
    have hnext := hf a₁ a₂ _ _ ho.shape
    exact ⟨hnext.fault, hnext.shape⟩

theorem Alike.mapError {o₁ o₂ : Outcome ε α} (ho : o₁.Alike o₂) (m : ε → ε') :
    (o₁.mapError m).Alike (o₂.mapError m) := by
  refine ⟨?_, ho.shape⟩
  unfold Outcome.mapError fault?
  obtain ⟨e, h₁, h₂⟩ | ⟨a₁, a₂, h₁, h₂⟩ := ho.cases
  · rw [h₁, h₂]
  · rw [h₁, h₂]
    rfl

end Outcome

/-! ## Runs in heaps of one shape -/

section Runs

variable {h₁ h₂ : Heap} (hshape : h₁.shape = h₂.shape) (c : Nat)
include hshape

theorem Heap.alike_lookup (name : String) (span : Span) :
    Outcome.Alike ⟨(h₁.lookup c name).mapError (Fault.binding · span), h₁, []⟩
      ⟨(h₂.lookup c name).mapError (Fault.binding · span), h₂, []⟩ := by
  refine ⟨?_, hshape⟩
  rw [lookup_eq, lookup_eq]
  obtain ⟨hown₁, hown₂⟩ | ⟨o, b₁, b₂, hown₁, hown₂, -⟩ := owner?_of_shape_eq hshape c name
  · rw [hown₁, hown₂]
    rfl
  · rw [hown₁, hown₂]
    rfl

theorem Heap.alike_assign (name : String) (v₁ v₂ : Value) :
    (h₁.assign c name v₁).Alike (h₂.assign c name v₂) := by
  refine ⟨?_, ?_⟩
  · rw [assign_eq, assign_eq]
    obtain ⟨hown₁, hown₂⟩ | ⟨o, b₁, b₂, hown₁, hown₂, hb⟩ := owner?_of_shape_eq hshape c name
    · rw [hown₁, hown₂]
      rfl
    · rw [hown₁, hown₂]
      dsimp only
      rw [hb]
      split <;> rfl
  · rw [shape_assign, shape_assign, hshape]

theorem Heap.alike_declare (name : String) (v₁ v₂ : Value) (constant : Bool) :
    (h₁.declare c name v₁ constant).Alike (h₂.declare c name v₂ constant) := by
  unfold declare
  obtain ⟨hc₁, hc₂⟩ | ⟨s₁, s₂, hc₁, hc₂, hs⟩ := scope_of_shape_eq hshape c
  · rw [hc₁, hc₂]
    exact ⟨rfl, hshape⟩
  · rw [hc₁, hc₂]
    dsimp only
    obtain ⟨hb₁, hb₂⟩ | ⟨b₁, b₂, hb₁, hb₂, -⟩ := Scope.find?_of_shape_eq hs name
    · rw [hb₁, hb₂]
      refine ⟨rfl, ?_⟩
      rw [h₁.shape_modify c (.bind name constant) fun s => s.shape_bind name ⟨v₁, constant⟩,
        h₂.shape_modify c (.bind name constant) fun s => s.shape_bind name ⟨v₂, constant⟩, hshape]
    · rw [hb₁, hb₂]
      exact ⟨rfl, hshape⟩

theorem Operator.alike_combine (op : Operator) (l₁ r₁ l₂ r₂ : Value) :
    (op.combine l₁ r₁ h₁).Alike (op.combine l₂ r₂ h₂) := by
  have hok : ∀ l r h, (op.combine l r h).fault? = none := by
    intro l r h
    unfold combine
    split <;> rfl
  refine ⟨?_, ?_⟩
  · rw [hok, hok]
  · rw [op.heap_combine, op.heap_combine, hshape]

theorem Expr.alike_eval (e : Expr) : (e.eval c h₁).Alike (e.eval c h₂) := by
  fun_induction Expr.eval c e h₁ generalizing h₂ with
  | case1 => exact ⟨rfl, hshape⟩
  | case2 symbol span h₁ => exact Heap.alike_lookup hshape c symbol span
  | case3 left op right span h₁ ihleft ihright =>
    rw [Expr.eval]
    refine (ihleft hshape).andThen fun a₁ a₂ h₁ h₂ hshape => ?_
    refine (ihright h₁ hshape).andThen fun b₁ b₂ h₁ h₂ hshape => ?_
    exact op.alike_combine hshape a₁ b₁ a₂ b₂
  | case4 symbol _ value span h₁ ih =>
    rw [Expr.eval]
    refine (ih hshape).andThen fun v₁ v₂ h₁ h₂ hshape => ?_
    exact (Heap.alike_assign hshape c symbol v₁ v₂).mapError _
  | case5 target value span h₁ hname =>
    rw [Expr.eval]
    · exact ⟨rfl, hshape⟩
    · exact hname

theorem Statement.alike_eval (st : Statement) : (st.eval c h₁).Alike (st.eval c h₂) := by
  match st with
  | .expression e _ => exact e.alike_eval hshape c
  | .declare name constant (some e) span =>
    rw [Statement.eval, Statement.eval]
    refine (e.alike_eval hshape c).andThen fun v₁ v₂ h₁ h₂ hshape => ?_
    exact (Heap.alike_declare hshape c name v₁ v₂ constant).mapError _
  | .declare name constant none span =>
    exact (Heap.alike_declare hshape c name .null .null constant).mapError _

theorem Program.alike_evalFrom (p : Program) (last₁ last₂ : Value) :
    (p.evalFrom c last₁ h₁).Alike (p.evalFrom c last₂ h₂) := by
  induction p generalizing last₁ last₂ h₁ h₂ with
  | nil => exact ⟨rfl, hshape⟩
  | cons st p ih => exact (st.alike_eval hshape c).andThen fun v₁ v₂ h₁ h₂ hshape => ih hshape v₁ v₂

theorem Script.alike_execute (listing : Listing) (source : String) :
    (execute listing source c h₁).Alike (execute listing source c h₂).toOutcome := by
  refine .of_verdict_eq (verdict_execute listing source c h₁)
    (verdict_execute listing source c h₂) ?_
  cases Program.ofSource source with
  | error fault => exact ⟨rfl, hshape⟩
  | ok p => exact p.alike_evalFrom hshape c .null .null

end Runs

namespace Script

/-- A text to execute: what to print, and in which scope. -/
structure Task where
  listing : Listing
  source : String
  scope : Nat

/-- Executes texts one after the other, each in the heap that the one before left. -/
def executeAll (h : Heap) : List Task → List Execution
  | [] => []
  | task :: rest =>
    let execution := execute task.listing task.source task.scope h
    execution :: executeAll execution.heap rest

/-- Texts that are executed one after the other in two heaps of one shape succeed in both or fail
    in both with the same fault, and leave heaps of one shape each time. -/
theorem faults_independent_of_values {h₁ h₂ : Heap} (hshape : h₁.shape = h₂.shape)
    (tasks : List Task) :
    List.Forall₂ (fun x₁ x₂ => x₁.fault? = x₂.fault? ∧ x₁.heap.shape = x₂.heap.shape)
      (executeAll h₁ tasks) (executeAll h₂ tasks) := by
  induction tasks generalizing h₁ h₂ with
  | nil => exact .nil
  | cons task rest ih =>
    have halike := alike_execute hshape task.scope task.listing task.source
    exact .cons ⟨halike.fault, halike.shape⟩ (ih halike.shape)

/-- The text changes a variable and then fails, for the same cause whether the variable was null or
    true before. -/
theorem faults_of_null_and_true :
    (⟨[Scope.globals.bind "x" ⟨.null, false⟩]⟩ : Heap).shape =
        (⟨[Scope.globals.bind "x" ⟨.boolean true, false⟩]⟩ : Heap).shape ∧
      List.Forall₂ (fun x₁ x₂ => x₁.fault? = x₂.fault? ∧ x₁.heap.shape = x₂.heap.shape)
        (executeAll ⟨[Scope.globals.bind "x" ⟨.null, false⟩]⟩
          [⟨⟨false, false⟩, "(x = x + 1) * y", 0⟩])
        (executeAll ⟨[Scope.globals.bind "x" ⟨.boolean true, false⟩]⟩
          [⟨⟨false, false⟩, "(x = x + 1) * y", 0⟩]) := by
  have hshape : (⟨[Scope.globals.bind "x" ⟨.null, false⟩]⟩ : Heap).shape =
      (⟨[Scope.globals.bind "x" ⟨.boolean true, false⟩]⟩ : Heap).shape := by
    simp only [Heap.shape, List.map_cons, Scope.shape_bind]
  exact ⟨hshape, faults_independent_of_values hshape _⟩

end Script

end Quill
