import Mathlib.Order.Bounds.Basic
import Mathlib.Tactic.Ring
import Quill.Proofs.Writing

/-!
# How high trees get

The limit on nesting is not a limit on the height of trees. An item of a chain costs one level for
every operator before it, but its tree stands below its own operator and those after it; and the
levels of a chain are free again for the chain around it. So each pair of parentheses can hold a
product as long as the limit, within a sum as long as the limit, within an assignment.

* `Derivation.height_tree`: the height of a tree, in terms of its derivation.
* `Derivation.chain_rise_le_iff`: the height of a chain, in terms of its items.
* `Derivation.rise_le`: how high the trees of a phrase get at a cost.
* `Derivation.exists_rise_eq`: every lower height is reached at this cost.
* `exists_height_iff`: the heights of the trees of source texts.
* `heights_le_iff_rises_le`: the source texts whose trees stay within the limit, and how high chains
  rise.
* `greatest_heights`: the greatest height at each depth, and of source texts.
-/

namespace Quill

/-- The number of operators and assignments on the longest way down a tree. -/
def Expr.height : Expr → Nat
  | .assign target value _ => 1 + max target.height value.height
  | .binary left _ right _ => 1 + max left.height right.height
  | .name _ _ => 0
  | .number _ _ => 0

@[simp] theorem Expr.height_join (left : Expr) (op : Operator) (right : Expr) :
    (left.join op right).height = 1 + max left.height right.height := rfl

@[simp] theorem Expr.height_assigned (target value : Expr) :
    (target.assigned value).height = 1 + max target.height value.height := rfl

theorem Expr.height_bare (e : Expr) : e.bare.height = e.height := by
  induction e with
  | assign target value span iht ihv => simp only [Expr.bare, Expr.height, iht, ihv]
  | binary left op right span ihl ihr => simp only [Expr.bare, Expr.height, ihl, ihr]
  | name => rfl
  | number => rfl

/-! ## Heights of derivations -/

/-- The number of links. -/
def Links.count {level : Operator.Level} (links : Links level) : Nat := links.items.length

section Count

variable {level : Operator.Level}

@[simp] theorem Links.count_nil : (Links.nil : Links level).count = 0 := rfl

@[simp] theorem Links.count_cons (joint : Joint level) (item : Derivation level.item)
    (rest : Links level) : (Links.cons joint item rest).count = rest.count + 1 := rfl

/-- Every link costs a level. -/
theorem Links.count_le_cost : ∀ links : Links level, links.count ≤ links.cost
  | .nil => Nat.le_refl 0
  | .cons joint item rest => by
    have ih := rest.count_le_cost
    simp only [Links.count_cons, Links.cost]
    omega

end Count

mutual

/-- The height of the tree of a phrase: an item of a chain stands below its own operator, if it is
    not the first, and below all operators after it. -/
def Derivation.rise : {rank : Rank} → Derivation rank → Nat
  | _, .name _ => 0
  | _, .number _ => 0
  | _, .group _ inner _ => inner.rise
  | _, .chain first rest => max (rest.count + first.rise) rest.rise
  | _, .sum s => s.rise
  | _, .assign target _ value => 1 + max target.rise value.rise

/-- The height that links give a tree, what stands on their left aside. -/
def Links.rise : {level : Operator.Level} → Links level → Nat
  | _, .nil => 0
  | _, .cons _ item rest => max (1 + rest.count + item.rise) rest.rise

end

mutual

theorem Derivation.height_tree :
    ∀ {rank : Rank} (D : Derivation rank), D.tree.height = D.rise
  | _, .name _ => rfl
  | _, .number _ => rfl
  | _, .group _ inner _ => inner.height_tree
  | _, .chain first rest => by
    rw [Derivation.tree, rest.height_fold, first.height_tree, Derivation.rise]
  | _, .sum s => s.height_tree
  | _, .assign target _ value => by
    rw [Derivation.tree, Expr.height_assigned, target.height_tree, value.height_tree,
      Derivation.rise]

theorem Links.height_fold :
    ∀ {level : Operator.Level} (links : Links level) (left : Expr),
      (links.fold left).height = max (links.count + left.height) links.rise
  | _, .nil, left => by simp [Links.fold, Links.rise]
  | _, .cons joint item rest, left => by
    rw [Links.fold, rest.height_fold, Expr.height_join, item.height_tree, Links.count_cons,
      Links.rise]
    omega

end

section Items

variable {level : Operator.Level}

theorem Links.rise_le_iff :
    ∀ (links : Links level) (n : Nat),
      links.rise ≤ n ↔ ∀ (i : Nat) (x : Derivation level.item),
        links.items[i]? = some x → links.count - i + x.rise ≤ n
  | .nil, n => by simp [Links.rise, Links.items]
  | .cons joint item rest, n => by
    have ih := rest.rise_le_iff n
    rw [Links.rise, Links.items, forall_getElem?_cons_iff, Links.count_cons]
    simp only [Nat.add_sub_add_right]
    rw [← ih]
    omega

/-- The height of a chain `x₀ op x₁ … op xₖ` is the greatest of the numbers `k + rise x₀` and
    `k + 1 - i + rise xᵢ`, while its cost is the greatest of the numbers `i + cost xᵢ`. -/
theorem Derivation.chain_rise_le_iff (first : Derivation level.item) (rest : Links level)
    (n : Nat) :
    (Derivation.chain first rest).rise ≤ n ↔ ∀ (i : Nat) (x : Derivation level.item),
      (first :: rest.items)[i]? = some x → rest.count + 1 - max i 1 + x.rise ≤ n := by
  have hindex : ∀ i, rest.count + 1 - max (i + 1) 1 = rest.count - i := by omega
  rw [Derivation.rise, forall_getElem?_cons_iff]
  simp only [hindex]
  rw [← rest.rise_le_iff]
  omega

end Items

/-! ## The highest trees at a cost -/

/-- The greatest height of a phrase of some rank at a cost. -/
def Rank.bound : Rank → Nat → Nat
  | .operand, c => (c - 1) * (c + 1)
  | .chain .multiplicative, c => (c - 1) * (c + 1) + c
  | .chain .additive, c => (c - 1) * (c + 1) + c + c
  | .expression, c => c * (c + 2)

/-- The bound on expressions, as a square. -/
theorem Rank.bound_expression (c : Nat) : Rank.expression.bound c = (c + 1) ^ 2 - 1 := by
  have hsquare : (c + 1) ^ 2 = c * (c + 2) + 1 := by ring
  rw [hsquare]
  rfl

theorem Rank.bound_mono (rank : Rank) {c d : Nat} (h : c ≤ d) : rank.bound c ≤ rank.bound d := by
  have hoperand : (c - 1) * (c + 1) ≤ (d - 1) * (d + 1) := Nat.mul_le_mul (by omega) (by omega)
  match rank with
  | .operand => exact hoperand
  | .chain .multiplicative => exact Nat.add_le_add hoperand h
  | .chain .additive => exact Nat.add_le_add (Nat.add_le_add hoperand h) h
  | .expression => exact Nat.mul_le_mul h (by omega)

/-- A chain can be higher than its items by one link for each level. -/
theorem Rank.bound_chain (level : Operator.Level) (c : Nat) :
    (Rank.chain level).bound c = level.item.bound c + c := by
  cases level <;> rfl

/-- Parentheses take one level and add no height. -/
theorem Rank.bound_operand_succ (c : Nat) :
    Rank.operand.bound (1 + c) = Rank.expression.bound c := by
  unfold Rank.bound
  rw [Nat.add_comm 1 c]
  rfl

theorem Rank.bound_sum (c : Nat) :
    (Rank.chain .additive).bound c = Rank.operand.bound c + c + c := rfl

/-- An assignment adds one to the highest sum. -/
theorem Rank.bound_expression_succ (c : Nat) :
    Rank.expression.bound (1 + c) = 1 + (Rank.chain .additive).bound (1 + c) := by
  rw [Rank.bound_sum, Rank.bound_operand_succ]
  unfold Rank.bound
  ring

theorem Rank.bound_sum_le (c : Nat) : (Rank.chain .additive).bound c ≤ Rank.expression.bound c := by
  cases c with
  | zero => exact Nat.le_refl 0
  | succ c =>
    rw [Nat.add_comm c 1, Rank.bound_expression_succ]
    omega

mutual

/-- How high the trees of a phrase get at a cost. Each case spends the levels that its rule costs;
    the items of a chain may all be as high as the cost of the chain allows. -/
theorem Derivation.rise_le :
    ∀ {rank : Rank} (D : Derivation rank), D.rise ≤ rank.bound D.cost
  | _, .name _ => Nat.zero_le _
  | _, .number _ => Nat.zero_le _
  | _, .group _ inner _ => by
    rw [Derivation.rise, Derivation.cost, Rank.bound_operand_succ]
    exact inner.rise_le
  | _, @Derivation.chain level first rest => by
    have hfirst : first.rise ≤ level.item.bound (max first.cost rest.cost) :=
      Nat.le_trans first.rise_le (level.item.bound_mono (Nat.le_max_left _ _))
    have hrest : rest.rise ≤ level.item.bound (max first.cost rest.cost) + rest.count :=
      Nat.le_trans rest.rise_le
        (Nat.add_le_add_right (level.item.bound_mono (Nat.le_max_right _ _)) _)
    have hcount := rest.count_le_cost
    rw [Derivation.rise, Derivation.cost, Rank.bound_chain]
    omega
  | _, .sum s => Nat.le_trans s.rise_le (Rank.bound_sum_le s.cost)
  | _, .assign target _ value => by
    obtain ⟨d, hd⟩ : ∃ d, max target.cost (1 + value.cost) = 1 + d :=
      ⟨max target.cost (1 + value.cost) - 1, by omega⟩
    have htarget : target.rise ≤ (Rank.chain .additive).bound (1 + d) :=
      Nat.le_trans target.rise_le (Rank.bound_mono _ (by omega))
    have hvalue : value.rise ≤ Rank.operand.bound (1 + d) := by
      rw [Rank.bound_operand_succ]
      exact Nat.le_trans value.rise_le (Rank.bound_mono _ (by omega))
    have hsum := Rank.bound_sum (1 + d)
    rw [Derivation.rise, Derivation.cost, hd, Rank.bound_expression_succ]
    omega

theorem Links.rise_le :
    ∀ {level : Operator.Level} (links : Links level),
      links.rise ≤ level.item.bound links.cost + links.count
  | _, .nil => Nat.zero_le _
  | level, .cons joint item rest => by
    have hitem : item.rise ≤ level.item.bound (1 + max item.cost rest.cost) :=
      Nat.le_trans item.rise_le (level.item.bound_mono (by omega))
    have hrest : rest.rise ≤ level.item.bound (1 + max item.cost rest.cost) + rest.count :=
      Nat.le_trans rest.rise_le (Nat.add_le_add_right (level.item.bound_mono (by omega)) _)
    rw [Links.rise, Links.cost, Links.count_cons]
    omega

end

/-! ## Reaching every height -/

/-- An operator made up for a level. -/
def Joint.made : (level : Operator.Level) → Joint level
  | .additive => ⟨⟨.operator, "+", .point 0⟩, .add, rfl, rfl, rfl⟩
  | .multiplicative => ⟨⟨.operator, "*", .point 0⟩, .multiply, rfl, rfl, rfl⟩

/-- A name as an item of a level. -/
def Derivation.madeItem : (level : Operator.Level) → Derivation level.item
  | .additive => .chain (.name (.made .identifier)) .nil
  | .multiplicative => .name (.made .identifier)

/-- Links that each join one more name. -/
def Links.made (level : Operator.Level) : Nat → Links level
  | 0 => .nil
  | n + 1 => .cons (.made level) (.madeItem level) (Links.made level n)

section Made

variable (level : Operator.Level)

theorem Joint.spelled_made : (Joint.made level).token.Spelled := by
  cases level with
  | additive => exact ⟨'+', by decide, rfl⟩
  | multiplicative => exact ⟨'*', by decide, rfl⟩

theorem Derivation.spelled_madeItem : ∀ t ∈ (Derivation.madeItem level).tokens, t.Spelled := by
  have hname : (Terminal.made .identifier).token.Spelled := Terminal.spelled_made (by decide)
  cases level <;> simpa [Derivation.madeItem, Derivation.tokens, Links.tokens] using hname

@[simp] theorem Derivation.cost_madeItem : (Derivation.madeItem level).cost = 0 := by
  cases level <;> rfl

@[simp] theorem Derivation.rise_madeItem : (Derivation.madeItem level).rise = 0 := by
  cases level <;> rfl

@[simp] theorem Links.count_made (n : Nat) : (Links.made level n).count = n := by
  induction n with
  | zero => rfl
  | succ n ih => rw [Links.made, Links.count_cons, ih]

@[simp] theorem Links.cost_made (n : Nat) : (Links.made level n).cost = n := by
  induction n with
  | zero => rfl
  | succ n ih =>
    rw [Links.made, Links.cost, ih, Derivation.cost_madeItem]
    omega

@[simp] theorem Links.rise_made (n : Nat) : (Links.made level n).rise = n := by
  induction n with
  | zero => rfl
  | succ n ih =>
    rw [Links.made, Links.rise, ih, Links.count_made, Derivation.rise_madeItem]
    omega

theorem Links.spelled_made (n : Nat) : ∀ t ∈ (Links.made level n).tokens, t.Spelled := by
  induction n with
  | zero => simp [Links.made, Links.tokens]
  | succ n ih =>
    intro t ht
    simp only [Links.made, Links.tokens, List.mem_cons, List.mem_append] at ht
    rcases ht with rfl | ht | ht
    · exact Joint.spelled_made level
    · exact Derivation.spelled_madeItem level t ht
    · exact ih t ht

end Made

/-- An expression in parentheses, with `a` names multiplied and then `b` names added to it. -/
def Derivation.raised (D : Derivation .expression) (a b : Nat) : Derivation (.chain .additive) :=
  .chain (.chain (.group (.made .openParen) D (.made .closeParen)) (.made .multiplicative a))
    (.made .additive b)

section Raised

variable (D : Derivation .expression) (a b : Nat)

theorem Derivation.cost_raised : (D.raised a b).cost = max (max (1 + D.cost) a) b := by
  simp [Derivation.raised, Derivation.cost]

theorem Derivation.rise_raised : (D.raised a b).rise = D.rise + a + b := by
  simp only [Derivation.raised, Derivation.rise, Links.count_made, Links.rise_made]
  omega

theorem Derivation.spelled_raised (h : ∀ t ∈ D.tokens, t.Spelled) :
    ∀ t ∈ (D.raised a b).tokens, t.Spelled := by
  intro t ht
  simp only [Derivation.raised, Derivation.tokens, List.mem_cons, List.mem_append,
    List.not_mem_nil, or_false] at ht
  rcases ht with ((rfl | ht | rfl) | ht) | ht
  · exact Terminal.spelled_made (by decide)
  · exact h t ht
  · exact Terminal.spelled_made (by decide)
  · exact Links.spelled_made _ a t ht
  · exact Links.spelled_made _ b t ht

end Raised

theorem Derivation.spelled_made : ∀ t ∈ Derivation.made.tokens, t.Spelled := by
  have hname : (Terminal.made .identifier).token.Spelled := Terminal.spelled_made (by decide)
  simpa [Derivation.made, Derivation.tokens, Links.tokens] using hname

/-- Every height up to the greatest is reached by an expression at a cost. The induction is on the
    cost: one more level is spent on parentheses around the highest expression so far, after which
    all levels are there again for a product, for a sum and for an assignment. -/
theorem Derivation.exists_rise_eq (c : Nat) :
    ∀ n ≤ Rank.expression.bound c, ∃ D : Derivation .expression,
      D.cost ≤ c ∧ D.rise = n ∧ ∀ t ∈ D.tokens, t.Spelled := by
  induction c with
  | zero =>
    intro n hn
    have hzero : n = 0 := Nat.le_zero.mp hn
    exact ⟨.made, Nat.le_refl 0, hzero.symm, Derivation.spelled_made⟩
  | succ c ih =>
    intro n hn
    have hbound : Rank.expression.bound (c + 1) =
        Rank.expression.bound c + (c + 1) + (c + 1) + 1 := by
      have h := Rank.bound_expression_succ c
      rw [Rank.bound_sum, Rank.bound_operand_succ, Nat.add_comm 1 c] at h
      omega
    by_cases hlow : n ≤ Rank.expression.bound c
    · obtain ⟨D, hcost, hrise, hspelled⟩ := ih n hlow
      exact ⟨D, by omega, hrise, hspelled⟩
    obtain ⟨D, hcost, hrise, hspelled⟩ := ih (Rank.expression.bound c) (Nat.le_refl _)
    by_cases hassign : n ≤ Rank.expression.bound c + (c + 1) + (c + 1)
    · let a := min (n - Rank.expression.bound c) (c + 1)
      let b := n - Rank.expression.bound c - (c + 1)
      refine ⟨.sum (D.raised a b), ?_, ?_, D.spelled_raised a b hspelled⟩
      · rw [Derivation.cost, Derivation.cost_raised]
        omega
      · rw [Derivation.rise, Derivation.rise_raised]
        omega
    · refine ⟨.assign (D.raised (c + 1) (c + 1)) (.made .equals) .made, ?_, ?_, ?_⟩
      · have hmade : Derivation.made.cost = 0 := rfl
        rw [Derivation.cost, Derivation.cost_raised, hmade]
        omega
      · have hmade : Derivation.made.rise = 0 := rfl
        rw [Derivation.rise, Derivation.rise_raised, hmade]
        omega
      · intro t ht
        rw [Derivation.tokens, List.mem_append, List.mem_cons] at ht
        rcases ht with ht | rfl | ht
        · exact D.spelled_raised _ _ hspelled t ht
        · exact Terminal.spelled_made (by decide)
        · exact Derivation.spelled_made t ht

/-! ## Trees of source texts -/

/-- The expression in a statement, if there is one. -/
def Statement.expression? : Statement → Option Expr
  | .declare _ _ value _ => value
  | .expression expr _ => some expr

theorem Sentence.expression?_tree (s : Sentence) :
    s.tree.expression? = s.expression?.map Derivation.tree := by
  match s with
  | .declare _ _ _ => rfl
  | .define _ _ _ _ _ => rfl
  | .express _ none => rfl
  | .express _ (some _) => rfl

/-- The expressions of a program are the trees of those of its statements. -/
theorem Sentence.forall_height_le_iff (sentences : List Sentence) (n : Nat) :
    (∀ s ∈ sentences.map Sentence.tree, ∀ e ∈ s.expression?, e.height ≤ n) ↔
      ∀ s ∈ sentences, ∀ D ∈ s.expression?, D.rise ≤ n := by
  simp only [List.forall_mem_map, Sentence.expression?_tree, Option.mem_def, Option.map_eq_some_iff,
    forall_exists_index, and_imp, forall_apply_eq_imp_iff₂, Derivation.height_tree]

/-- An expression that fits is read back from its text, at its height. -/
theorem Derivation.exists_ofSource_written (D : Derivation .expression) (hcost : D.cost ≤ maxDepth)
    (hspelled : ∀ t ∈ D.tokens, t.Spelled) :
    ∃ p, Program.ofSource (Token.written D.tokens) = .ok p ∧
      ∃ s ∈ p, ∃ e ∈ s.expression?, e.height = D.rise := by
  obtain ⟨e, span, hread, hbare⟩ := (D.ofSource_written_iff hspelled).mpr hcost
  refine ⟨_, hread, _, List.mem_singleton_self _, e, rfl, ?_⟩
  rw [← e.height_bare, hbare, Expr.height_bare, D.height_tree]

/-- How high the trees of a source text get. -/
theorem Program.height_le {source : String} {p : Program} (h : Program.ofSource source = .ok p) :
    ∀ s ∈ p, ∀ e ∈ s.expression?, e.height ≤ maxDepth * (maxDepth + 2) := by
  obtain ⟨tokens, sentences, -, -, hfits, rfl⟩ := (Program.ofSource_eq_ok_iff _ _).mp h
  rw [Sentence.forall_height_le_iff]
  intro s hs D hD
  have hcost : D.cost ≤ maxDepth := by
    rcases hfits s hs D hD with h | h <;> omega
  exact Nat.le_trans D.rise_le (Rank.expression.bound_mono hcost)

/-- Exactly the heights up to the product of the limit and the limit plus two are those of the trees
    of source texts. -/
theorem exists_height_iff (n : Nat) :
    (∃ source p, Program.ofSource source = .ok p ∧ ∃ s ∈ p, ∃ e ∈ s.expression?, e.height = n) ↔
      n ≤ maxDepth * (maxDepth + 2) := by
  constructor
  · rintro ⟨source, p, h, s, hs, e, he, rfl⟩
    exact Program.height_le h s hs e he
  · intro hn
    obtain ⟨D, hcost, rfl, hspelled⟩ := Derivation.exists_rise_eq maxDepth n hn
    exact ⟨_, D.exists_ofSource_written hcost hspelled⟩

/-- The trees of a source text stay within the limit just if the derivations of its tokens that fit
    rise no higher than the limit. They always stay within its product with the limit plus two. A
    chain rises to the greatest of the heights of its items, each with its own operator and those
    after it on top, the first item with all operators. -/
theorem heights_le_iff_rises_le (source : String) :
    ((∀ p, Program.ofSource source = .ok p →
      ∀ s ∈ p, ∀ e ∈ s.expression?, e.height ≤ maxDepth) ↔
    ∀ (tokens : List Token) (sentences : List Sentence), Token.ofSource source = .ok tokens →
      Sentence.yield sentences = Token.beforeEnd tokens → (∀ s ∈ sentences, s.Fits 0) →
      ∀ s ∈ sentences, ∀ D ∈ s.expression?, D.rise ≤ maxDepth) ∧
    (∀ p, Program.ofSource source = .ok p →
      ∀ s ∈ p, ∀ e ∈ s.expression?, e.height ≤ maxDepth * (maxDepth + 2)) ∧
    ∀ (level : Operator.Level) (first : Derivation level.item) (rest : Links level) (n : Nat),
      (Derivation.chain first rest).rise ≤ n ↔ ∀ (i : Nat) (x : Derivation level.item),
        (first :: rest.items)[i]? = some x → rest.count + 1 - max i 1 + x.rise ≤ n := by
  refine ⟨⟨?_, ?_⟩, fun p => Program.height_le, fun _ => Derivation.chain_rise_le_iff⟩
  · intro h tokens sentences hscan hyield hfits
    rw [← Sentence.forall_height_le_iff]
    exact h _ ((Program.ofSource_eq_ok_iff _ _).mpr ⟨tokens, sentences, hscan, hyield, hfits, rfl⟩)
  · intro h p hread
    obtain ⟨tokens, sentences, hscan, hyield, hfits, rfl⟩ :=
      (Program.ofSource_eq_ok_iff _ _).mp hread
    rw [Sentence.forall_height_le_iff]
    exact h tokens sentences hscan hyield hfits

/-- A product as long as the limit, with one more name added to it. -/
def Derivation.tall : Derivation .expression :=
  .sum (.chain (.chain (.name (.made .identifier)) (.made .multiplicative maxDepth))
    (.made .additive 1))

theorem Derivation.spelled_tall : ∀ t ∈ Derivation.tall.tokens, t.Spelled := by
  intro t ht
  simp only [Derivation.tall, Derivation.tokens, List.mem_append, List.mem_singleton] at ht
  rcases ht with (rfl | ht) | ht
  · exact Terminal.spelled_made (by decide)
  · exact Links.spelled_made _ _ t ht
  · exact Links.spelled_made _ _ t ht

theorem tall_higher_than_limit :
    ∃ p, Program.ofSource (Token.written Derivation.tall.tokens) = .ok p ∧
      ∃ s ∈ p, ∃ e ∈ s.expression?, e.height = maxDepth + 1 := by
  have hcost : Derivation.tall.cost ≤ maxDepth := by
    simp only [Derivation.tall, Derivation.cost, Links.cost_made]
    decide
  have hrise : Derivation.tall.rise = maxDepth + 1 := by
    simp only [Derivation.tall, Derivation.rise, Links.count_made, Links.rise_made]
    decide
  rw [← hrise]
  exact Derivation.tall.exists_ofSource_written hcost Derivation.spelled_tall

/-! ## The greatest height at a depth -/

/-- An expression that fits at a depth costs no more than the levels that are left. -/
theorem Derivation.Fits.cost_le {rank : Rank} {D : Derivation rank} {depth : Nat}
    (h : D.Fits depth) : D.cost ≤ maxDepth - depth := by
  rcases h with h | h <;> omega

theorem Derivation.fits_of_cost_le {rank : Rank} {D : Derivation rank} {depth : Nat}
    (h : D.cost ≤ maxDepth - depth) : D.Fits depth := by
  unfold Derivation.Fits
  omega

/-- The tokens of an expression that fits are read at a depth, since an end token is put after
    them. -/
theorem Derivation.exists_run_ofTokens (D : Derivation .expression) {depth : Nat}
    (hfits : D.Fits depth) :
    ∃ rest, Phrase.expression.run ((Cursor.ofTokens D.tokens).atDepth depth) = .ok D.tree rest := by
  have hqueue : ∃ t, t.kind = .endOfFile ∧ (Cursor.ofTokens D.tokens).queue = D.tokens ++ [t] := by
    rcases Cursor.ofTokens_queue D.tokens with ⟨-, t, ht, hk⟩ | h
    · exact absurd hk (D.kind_ne_of_mem t ht)
    · exact h
  obtain ⟨t, ht, hqueue⟩ := hqueue
  refine (Cursor.run_expression_eq_ok_iff (Cursor.closed_atDepth D.tokens depth) _).mpr ?_
  exact ⟨D, [t], hqueue, halts_cons.mpr (Token.stops_of_endOfFile ht _), hfits, rfl⟩

/-- Exactly the heights up to the bound for the levels that are left are those of the expressions
    that can be read at a depth. -/
theorem exists_height_at_depth_iff (depth n : Nat) :
    (∃ tokens e rest, Phrase.expression.run ((Cursor.ofTokens tokens).atDepth depth) = .ok e rest ∧
        e.height = n) ↔ n ≤ Rank.expression.bound (maxDepth - depth) := by
  constructor
  · rintro ⟨tokens, e, rest, hread, rfl⟩
    obtain ⟨D, -, -, -, hfits, rfl⟩ :=
      (Cursor.run_expression_eq_ok_iff (Cursor.closed_atDepth tokens depth) e).mp ⟨rest, hread⟩
    rw [D.height_tree]
    exact Nat.le_trans D.rise_le (Rank.expression.bound_mono hfits.cost_le)
  · intro hn
    obtain ⟨D, hcost, rfl, -⟩ := Derivation.exists_rise_eq (maxDepth - depth) n hn
    obtain ⟨rest, hread⟩ := D.exists_run_ofTokens (Derivation.fits_of_cost_le hcost)
    exact ⟨D.tokens, D.tree, rest, hread, D.height_tree⟩

/-- The greatest height of an expression that can be read at a depth is one less than the square of
    one more than the levels that are left, of which there are none beyond the limit. Among all
    source texts it is 66048. -/
theorem greatest_heights :
    (∀ depth, IsGreatest
      {n | ∃ tokens e rest,
        Phrase.expression.run ((Cursor.ofTokens tokens).atDepth depth) = .ok e rest ∧ e.height = n}
      ((maxDepth - depth + 1) ^ 2 - 1)) ∧
    IsGreatest
      {n | ∃ source p, Program.ofSource source = .ok p ∧ ∃ s ∈ p, ∃ e ∈ s.expression?, e.height = n}
      66048 := by
  refine ⟨fun depth => ?_, ?_⟩
  · have hiff := exists_height_at_depth_iff depth
    rw [← Rank.bound_expression]
    exact ⟨(hiff _).mpr (Nat.le_refl _), fun n hn => (hiff n).mp hn⟩
  · have hlimit : maxDepth * (maxDepth + 2) = 66048 := by decide
    rw [← hlimit]
    exact ⟨(exists_height_iff _).mpr (Nat.le_refl _), fun n hn => (exists_height_iff n).mp hn⟩

end Quill
