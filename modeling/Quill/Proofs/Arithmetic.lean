import Quill.Proofs.Effects
import Quill.Proofs.Order

/-!
# Arithmetic

An expression without assignments whose names are all bound cannot fail and changes nothing. Its
value depends on the values of its names alone. An operator makes a number of two numbers and null
of anything else, so a single leaf that is no number makes the whole null, however deep it is and
whatever the operators are.

* `Expr.verdict_eval`: evaluation gives the value and keeps the heap.
* `Expr.value_eq_number_iff`: which values are numbers.
* `Expr.value_eq_compute`: the number, from those of the leaves upwards.
* `Expr.null_spreads_through_arithmetic`: all of it.
-/

namespace Quill

/-! ## Operators on values -/

namespace Operator

/-- What an operator makes of two values. -/
def on (op : Operator) (left right : Value) : Value :=
  match left, right with
  | .number x, .number y => .number (op.apply x y)
  | _, _ => .null

variable (op : Operator) (left right : Value)

theorem verdict_combine (h : Heap) :
    (op.combine left right h).verdict = (.ok (op.on left right), h) := by
  unfold combine on
  cases left <;> cases right <;> rfl

theorem on_eq_number_iff :
    (∃ x, op.on left right = .number x) ↔ (∃ x, left = .number x) ∧ ∃ y, right = .number y := by
  unfold on
  cases left <;> cases right <;> simp

/-- What is no number is null. -/
theorem on_eq_null (h : ¬∃ x, op.on left right = .number x) : op.on left right = .null := by
  unfold on at h ⊢
  split
  · exact absurd ⟨_, rfl⟩ h
  · rfl

end Operator

/-! ## Expressions without assignments -/

namespace Expr

/-- There is no assignment in an expression, at any depth. -/
def AssignmentFree (e : Expr) : Prop := ∀ target value span, .assign target value span ∉ e.nodes

/-- The names of an expression have certain values in scope `c`. -/
def Resolves (e : Expr) (h : Heap) (c : Nat) (values : String → Value) : Prop :=
  ∀ symbol span, .name symbol span ∈ e.leaves → h.lookup c symbol = .ok (values symbol)

/-- The value of an expression without assignments, where the names have certain values. -/
def value (values : String → Value) : Expr → Value
  | .number x _ => .number x
  | .name symbol _ => values symbol
  | .binary left op right _ => op.on (left.value values) (right.value values)
  | .assign _ _ _ => .null

/-- The number that the operators of an expression make, from the leaves upwards, of a number for
    each leaf. -/
def compute (number : Expr → Float) : Expr → Float
  | .binary left op right _ => op.apply (left.compute number) (right.compute number)
  | leaf => number leaf

section Parts

variable {left right target v : Expr} {op : Operator} {span : Span} {h : Heap} {c : Nat}
  {values : String → Value}

theorem assignmentFree_binary_iff :
    (Expr.binary left op right span).AssignmentFree ↔
      left.AssignmentFree ∧ right.AssignmentFree := by
  unfold AssignmentFree
  simp only [nodes, List.mem_cons, List.mem_append, reduceCtorEq, false_or, not_or, forall_and]

theorem not_assignmentFree_assign : ¬(Expr.assign target v span).AssignmentFree :=
  fun hfree => hfree target v span List.mem_cons_self

theorem resolves_binary_iff :
    (Expr.binary left op right span).Resolves h c values ↔
      left.Resolves h c values ∧ right.Resolves h c values := by
  unfold Resolves
  simp only [leaves, List.mem_append, or_imp, forall_and]

end Parts

variable {e : Expr} {h : Heap} {c : Nat} {values : String → Value}

theorem verdict_eval (hfree : e.AssignmentFree) (hvalues : e.Resolves h c values) :
    (e.eval c h).verdict = (.ok (e.value values), h) := by
  induction e with
  | number x span => rfl
  | name symbol span =>
    unfold eval Outcome.verdict
    rw [hvalues symbol span List.mem_cons_self]
    rfl
  | binary left op right span ihleft ihright =>
    obtain ⟨hleft, hright⟩ := assignmentFree_binary_iff.mp hfree
    obtain ⟨hvleft, hvright⟩ := resolves_binary_iff.mp hvalues
    obtain ⟨hresult, hheap⟩ := Prod.mk.inj (ihleft hleft hvleft)
    obtain ⟨hresult', hheap'⟩ := Prod.mk.inj (ihright hright hvright)
    rw [eval, Outcome.verdict_andThen, hresult, hheap]
    dsimp only
    rw [Outcome.verdict_andThen, hresult', hheap']
    exact op.verdict_combine _ _ h
  | assign => exact absurd hfree not_assignmentFree_assign

theorem value_eq_number_iff (hfree : e.AssignmentFree) :
    (∃ x, e.value values = .number x) ↔ ∀ leaf ∈ e.leaves, ∃ x, leaf.value values = .number x := by
  induction e with
  | number x span => simp only [leaves, List.forall_mem_singleton]
  | name symbol span => simp only [leaves, List.forall_mem_singleton]
  | binary left op right span ihleft ihright =>
    obtain ⟨hleft, hright⟩ := assignmentFree_binary_iff.mp hfree
    rw [leaves, List.forall_mem_append, ← ihleft hleft, ← ihright hright, value,
      Operator.on_eq_number_iff]
  | assign => exact absurd hfree not_assignmentFree_assign

theorem value_eq_compute (hfree : e.AssignmentFree) {number : Expr → Float}
    (hnumber : ∀ leaf ∈ e.leaves, leaf.value values = .number (number leaf)) :
    e.value values = .number (e.compute number) := by
  induction e with
  | number x span => exact hnumber _ List.mem_cons_self
  | name symbol span => exact hnumber _ List.mem_cons_self
  | binary left op right span ihleft ihright =>
    obtain ⟨hleft, hright⟩ := assignmentFree_binary_iff.mp hfree
    rw [leaves, List.forall_mem_append] at hnumber
    rw [value, ihleft hleft hnumber.1, ihright hright hnumber.2]
    rfl
  | assign => exact absurd hfree not_assignmentFree_assign

/-- An expression that has an operator anywhere, and no assignments, is null if it is no number. -/
theorem value_eq_null (hfree : e.AssignmentFree)
    (hbinary : ∃ left op right span, .binary left op right span ∈ e.nodes)
    (hno : ¬∃ x, e.value values = .number x) : e.value values = .null := by
  -- where there are no assignments, what has an operator inside is one itself
  cases e with
  | number x span => simp [nodes] at hbinary
  | name symbol span => simp [nodes] at hbinary
  | binary left op right span => exact op.on_eq_null _ _ hno
  | assign => exact absurd hfree not_assignmentFree_assign

/-- An expression with an operator and without assignments whose names are all bound never fails and
    leaves the heap as it was. It is a number exactly if all its leaves are, and then it is the one
    that the operators make of theirs from the leaves upwards. Otherwise it is null. -/
theorem null_spreads_through_arithmetic (hfree : e.AssignmentFree)
    (hbinary : ∃ left op right span, .binary left op right span ∈ e.nodes)
    (hvalues : e.Resolves h c values) :
    (e.eval c h).heap = h ∧
      ((∃ x, (e.eval c h).result = .ok (.number x)) ↔
        ∀ leaf ∈ e.leaves, ∃ x, leaf.value values = .number x) ∧
      (∀ number : Expr → Float,
        (∀ leaf ∈ e.leaves, leaf.value values = .number (number leaf)) →
          (e.eval c h).result = .ok (.number (e.compute number))) ∧
      ((¬∀ leaf ∈ e.leaves, ∃ x, leaf.value values = .number x) →
        (e.eval c h).result = .ok .null) := by
  obtain ⟨hresult, hheap⟩ := Prod.mk.inj (verdict_eval hfree hvalues)
  rw [hresult]
  refine ⟨hheap, ?_, ?_, ?_⟩
  · simp only [Except.ok.injEq]
    exact value_eq_number_iff hfree
  · intro number hnumber
    rw [value_eq_compute hfree hnumber]
  · intro hno
    rw [value_eq_null hfree hbinary (mt (value_eq_number_iff hfree).mp hno)]

/-- A product, below which there is a sum with a word for a truth value. -/
def productWithTruth : Expr :=
  .binary (.number 2 ⟨0, 1⟩) .multiply
    (.binary (.name "true" ⟨5, 9⟩) .add (.number 1 ⟨12, 13⟩) ⟨5, 13⟩) ⟨0, 13⟩

/-- In the globals the word makes the sum null, and this the product. -/
theorem product_with_truth_is_null :
    productWithTruth.AssignmentFree ∧
      (∃ left op right span, .binary left op right span ∈ productWithTruth.nodes) ∧
      productWithTruth.Resolves .initial 0 (fun _ => .boolean true) ∧
      (productWithTruth.eval 0 .initial).heap = .initial ∧
      (productWithTruth.eval 0 .initial).result = .ok .null := by
  have hfree : productWithTruth.AssignmentFree := by
    simp [AssignmentFree, productWithTruth, nodes]
  have hbinary : ∃ left op right span, .binary left op right span ∈ productWithTruth.nodes :=
    ⟨_, _, _, _, List.mem_cons_self⟩
  have hvalues : productWithTruth.Resolves .initial 0 (fun _ => .boolean true) := by
    intro symbol span hmem
    obtain ⟨rfl, -⟩ : symbol = "true" ∧ span = ⟨5, 9⟩ := by
      simpa [productWithTruth, leaves] using hmem
    rw [Heap.lookup]
    rfl
  obtain ⟨hheap, -, -, hnull⟩ := null_spreads_through_arithmetic hfree hbinary hvalues
  refine ⟨hfree, hbinary, hvalues, hheap, hnull ?_⟩
  intro hall
  obtain ⟨x, hx⟩ := hall (.name "true" ⟨5, 9⟩) (by simp [productWithTruth, leaves])
  cases hx

end Expr

end Quill
