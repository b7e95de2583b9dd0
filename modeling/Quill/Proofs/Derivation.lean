import Quill.Grammar.Phrase

/-!
# Derivations

The grammar of the language over tokens, as a type of derivation trees:

    program     ::= statement*
    statement   ::= "let" name ";"
                  | ("let" | "const") name "=" expression ";"
                  | expression ";"?
    expression  ::= sum ("=" expression)?
    sum         ::= product (("+" | "-") product)*
    product     ::= operand (("*" | "/" | "%") operand)*
    operand     ::= name | number | "(" expression ")"

Sums and products are both chains of items with operators of one level between them. Every
derivation has the tokens it derives, the nesting it costs and the tree it stands for.

* `Derivation.chain_cost_le_iff`: the cost of a chain is the greatest `i + cost xᵢ`.
* `Derivation.eq_of_tokens`: an expression has one derivation at most, whatever follows it.
* `Sentence.eq_of_tokens`: statements in a row have one derivation at most.
-/

namespace Quill

/-! ## Terminals -/

/-- A token of a kind. -/
structure Terminal (kind : Token.Kind) where
  token : Token
  kind_eq : token.kind = kind

/-- A number whose text can be read. -/
structure Numeral where
  token : Token
  value : Float
  kind_eq : token.kind = .number
  read_eq : Number.read? token.text = some value

/-- An operator of a level, which joins two items of a chain. -/
structure Joint (level : Operator.Level) where
  token : Token
  operator : Operator
  kind_eq : token.kind = .operator
  symbol_eq : Operator.ofSymbol? token.text = some operator
  level_eq : operator.level = level

/-- A word that opens a declaration. -/
structure Declarer where
  token : Token
  kind_eq : token.kind = .letWord ∨ token.kind = .constWord

theorem Terminal.ext_token {kind : Token.Kind} {a b : Terminal kind} (h : a.token = b.token) :
    a = b := by
  cases a; cases b; cases h; rfl

theorem Numeral.ext_token {a b : Numeral} (h : a.token = b.token) : a = b := by
  obtain ⟨t, x, _, hx⟩ := a
  obtain ⟨t', y, _, hy⟩ := b
  obtain rfl : t = t' := h
  obtain rfl : x = y := Option.some.inj (hx.symm.trans hy)
  rfl

theorem Joint.ext_token {level : Operator.Level} {a b : Joint level} (h : a.token = b.token) :
    a = b := by
  obtain ⟨t, x, _, hx, _⟩ := a
  obtain ⟨t', y, _, hy, _⟩ := b
  obtain rfl : t = t' := h
  obtain rfl : x = y := Option.some.inj (hx.symm.trans hy)
  rfl

theorem Declarer.ext_token {a b : Declarer} (h : a.token = b.token) : a = b := by
  cases a; cases b; cases h; rfl

/-! ## Expressions -/

/-- The phrases that expressions are made of. -/
inductive Rank where
  | operand
  | chain (level : Operator.Level)
  | expression

/-- What the operators of a level stand between. -/
def Operator.Level.item : Operator.Level → Rank
  | .additive => .chain .multiplicative
  | .multiplicative => .operand

mutual

/-- The derivations of a phrase. -/
inductive Derivation : Rank → Type
  | name (word : Terminal .identifier) : Derivation .operand
  | number (digits : Numeral) : Derivation .operand
  | group (opening : Terminal .openParen) (inner : Derivation .expression)
      (closing : Terminal .closeParen) : Derivation .operand
  | chain {level : Operator.Level} (first : Derivation level.item) (rest : Links level) :
      Derivation (.chain level)
  | sum (s : Derivation (.chain .additive)) : Derivation .expression
  | assign (target : Derivation (.chain .additive)) (sign : Terminal .equals)
      (value : Derivation .expression) : Derivation .expression

/-- What follows the first item of a chain: operators, each with the item on its right. -/
inductive Links : Operator.Level → Type
  | nil {level : Operator.Level} : Links level
  | cons {level : Operator.Level} (joint : Joint level) (item : Derivation level.item)
      (rest : Links level) : Links level

end

mutual

/-- The tokens that are derived. -/
def Derivation.tokens : {rank : Rank} → Derivation rank → List Token
  | _, .name word => [word.token]
  | _, .number digits => [digits.token]
  | _, .group opening inner closing => opening.token :: (inner.tokens ++ [closing.token])
  | _, .chain first rest => first.tokens ++ rest.tokens
  | _, .sum s => s.tokens
  | _, .assign target sign value => target.tokens ++ sign.token :: value.tokens

/-- The tokens of the links. -/
def Links.tokens : {level : Operator.Level} → Links level → List Token
  | _, .nil => []
  | _, .cons joint item rest => joint.token :: (item.tokens ++ rest.tokens)

end

mutual

/-- The nesting that a phrase costs: a parenthesis and the right side of an assignment are one
    level further in, and the `i`-th item of a chain, counting from zero, is `i` levels further
    in. -/
def Derivation.cost : {rank : Rank} → Derivation rank → Nat
  | _, .name _ => 0
  | _, .number _ => 0
  | _, .group _ inner _ => 1 + inner.cost
  | _, .chain first rest => max first.cost rest.cost
  | _, .sum s => s.cost
  | _, .assign target _ value => max target.cost (1 + value.cost)

/-- The nesting that links cost, every one of them being a level further in than the one
    before. -/
def Links.cost : {level : Operator.Level} → Links level → Nat
  | _, .nil => 0
  | _, .cons _ item rest => 1 + max item.cost rest.cost

end

mutual

/-- The tree of a phrase: chains nest to the left, assignments to the right, and parentheses leave
    no trace. -/
def Derivation.tree : {rank : Rank} → Derivation rank → Expr
  | _, .name word => .name word.token.text word.token.span
  | _, .number digits => .number digits.value digits.token.span
  | _, .group _ inner _ => inner.tree
  | _, .chain first rest => rest.fold first.tree
  | _, .sum s => s.tree
  | _, .assign target _ value => target.tree.assigned value.tree

/-- Joins the items of the links to what stands on their left. -/
def Links.fold : {level : Operator.Level} → Links level → Expr → Expr
  | _, .nil, left => left
  | _, .cons joint item rest, left => rest.fold (left.join joint.operator item.tree)

end

/-- The items of the links. -/
def Links.items {level : Operator.Level} : Links level → List (Derivation level.item)
  | .nil => []
  | .cons _ item rest => item :: rest.items

/-- What holds of the items of a chain holds of the first and of those after it. -/
theorem forall_getElem?_cons_iff {α : Type} {a : α} {l : List α} {p : Nat → α → Prop} :
    (∀ i x, (a :: l)[i]? = some x → p i x) ↔ p 0 a ∧ ∀ i x, l[i]? = some x → p (i + 1) x := by
  constructor
  · intro h
    exact ⟨h 0 a rfl, fun i x hx => h (i + 1) x (by simpa using hx)⟩
  · rintro ⟨ha, hl⟩ i x hx
    cases i with
    | zero =>
      obtain rfl : a = x := by simpa using hx
      exact ha
    | succ i => exact hl i x (by simpa using hx)

theorem Links.cost_le_iff {level : Operator.Level} :
    ∀ (links : Links level) (n : Nat),
      links.cost ≤ n ↔ ∀ (i : Nat) (x : Derivation level.item),
        links.items[i]? = some x → i + 1 + x.cost ≤ n
  | .nil, n => by simp [Links.cost, Links.items]
  | .cons joint item rest, n => by
    -- the links after the first stand one level further in, so they may cost one less
    have ih := rest.cost_le_iff (n - 1)
    rw [Links.cost, Links.items, forall_getElem?_cons_iff]
    constructor
    · intro h
      refine ⟨by omega, fun i x hx => ?_⟩
      have hx := ih.mp (by omega) i x hx
      omega
    · rintro ⟨hitem, hitems⟩
      have hrest : rest.cost ≤ n - 1 := by
        refine ih.mpr fun i x hx => ?_
        have hx := hitems i x hx
        omega
      omega

/-- The cost of a chain `x₀ op x₁ … op xₖ` is the greatest of the numbers `i + cost xᵢ`. -/
theorem Derivation.chain_cost_le_iff {level : Operator.Level} (first : Derivation level.item)
    (rest : Links level) (n : Nat) :
    (Derivation.chain first rest).cost ≤ n ↔ ∀ (i : Nat) (x : Derivation level.item),
      (first :: rest.items)[i]? = some x → i + x.cost ≤ n := by
  rw [Derivation.cost, forall_getElem?_cons_iff, ← rest.cost_le_iff]
  omega

/-! ## Nesting within the limit -/

/-- Reading at a depth, a phrase stays within the deepest level. One that does not nest may stand
    at any depth. -/
def Derivation.Fits {rank : Rank} (D : Derivation rank) (depth : Nat) : Prop :=
  D.cost = 0 ∨ depth + D.cost ≤ maxDepth

/-- Reading at a depth, links stay within the deepest level. -/
def Links.Fits {level : Operator.Level} (links : Links level) (depth : Nat) : Prop :=
  links.cost = 0 ∨ depth + links.cost ≤ maxDepth

section Fits

variable {depth : Nat} {level : Operator.Level}

theorem Derivation.fits_name (word : Terminal .identifier) : (Derivation.name word).Fits depth :=
  .inl rfl

theorem Derivation.fits_number (digits : Numeral) : (Derivation.number digits).Fits depth :=
  .inl rfl

theorem Derivation.fits_group {opening : Terminal .openParen} {inner : Derivation .expression}
    {closing : Terminal .closeParen} :
    (Derivation.group opening inner closing).Fits depth ↔
      depth + 1 ≤ maxDepth ∧ inner.Fits (depth + 1) := by
  simp only [Derivation.Fits, Derivation.cost]
  omega

theorem Derivation.fits_chain {first : Derivation level.item} {rest : Links level} :
    (Derivation.chain first rest).Fits depth ↔ first.Fits depth ∧ rest.Fits depth := by
  simp only [Derivation.Fits, Links.Fits, Derivation.cost]
  omega

theorem Derivation.fits_sum {s : Derivation (.chain .additive)} :
    (Derivation.sum s).Fits depth ↔ s.Fits depth := by
  simp only [Derivation.Fits, Derivation.cost]

theorem Derivation.fits_assign {target : Derivation (.chain .additive)} {sign : Terminal .equals}
    {value : Derivation .expression} :
    (Derivation.assign target sign value).Fits depth ↔
      target.Fits depth ∧ depth + 1 ≤ maxDepth ∧ value.Fits (depth + 1) := by
  simp only [Derivation.Fits, Derivation.cost]
  omega

theorem Links.fits_nil : (Links.nil : Links level).Fits depth := .inl rfl

theorem Links.fits_cons {joint : Joint level} {item : Derivation level.item}
    {rest : Links level} :
    (Links.cons joint item rest).Fits depth ↔
      depth + 1 ≤ maxDepth ∧ item.Fits (depth + 1) ∧ rest.Fits (depth + 1) := by
  simp only [Derivation.Fits, Links.Fits, Links.cost]
  omega

end Fits

/-! ## What may follow a phrase -/

/-- A token that an operand begins with. -/
def Token.Opens (t : Token) : Prop :=
  t.kind = .identifier ∨ t.kind = .number ∨ t.kind = .openParen

/-- A token is an operator of a level. -/
def Token.Joins (t : Token) (level : Operator.Level) : Prop :=
  ∃ joint : Joint level, joint.token = t

/-- A token that does not go on with a phrase of some rank, so that the phrase ends before it. -/
def Token.Stops (t : Token) : Rank → Prop
  | .operand => True
  | .chain .multiplicative => ¬ t.Joins .multiplicative
  | .chain .additive => ¬ t.Joins .multiplicative ∧ ¬ t.Joins .additive
  | .expression => ¬ t.Joins .multiplicative ∧ ¬ t.Joins .additive ∧ t.kind ≠ .equals

theorem Token.stops_chain {t : Token} {level : Operator.Level} :
    t.Stops (.chain level) ↔ t.Stops level.item ∧ ¬ t.Joins level := by
  cases level with
  | additive => exact Iff.rfl
  | multiplicative => exact ⟨fun h => ⟨trivial, h⟩, fun h => h.2⟩

theorem Token.stops_expression {t : Token} :
    t.Stops .expression ↔ t.Stops (.chain .additive) ∧ t.kind ≠ .equals := by
  simp only [Token.Stops, and_assoc]

/-- What is no operator at all goes on with no chain. -/
theorem Token.stops_of_kind_ne {t : Token} (level : Operator.Level) (h : t.kind ≠ .operator) :
    t.Stops (.chain level) := by
  have hno : ∀ l, ¬ t.Joins l := by
    rintro l ⟨joint, rfl⟩
    exact h joint.kind_eq
  cases level with
  | additive => exact ⟨hno _, hno _⟩
  | multiplicative => exact hno _

/-- An operator ends the items of its own level. -/
theorem Joint.stops_item {level : Operator.Level} (joint : Joint level) :
    joint.token.Stops level.item := by
  cases level with
  | multiplicative => trivial
  | additive =>
    rintro ⟨other, hother⟩
    have hsame : other.operator = joint.operator := by
      have h := other.symbol_eq
      rw [hother, joint.symbol_eq] at h
      exact (Option.some.inj h).symm
    have h₁ := joint.level_eq
    rw [← hsame, other.level_eq] at h₁
    cases h₁

/-- What is neither an operator nor an equals sign goes on with no expression. -/
theorem Token.stops_expression_of_kind_ne {t : Token} (h₁ : t.kind ≠ .operator)
    (h₂ : t.kind ≠ .equals) : t.Stops .expression :=
  Token.stops_expression.mpr ⟨t.stops_of_kind_ne _ h₁, h₂⟩

/-- Some tokens, if there are any, do not go on with a phrase of some rank. -/
def Halts (rank : Rank) (queue : List Token) : Prop := ∀ t ∈ queue.head?, t.Stops rank

theorem halts_cons {rank : Rank} {t : Token} {queue : List Token} :
    Halts rank (t :: queue) ↔ t.Stops rank := by
  simp [Halts]

theorem halts_chain {level : Operator.Level} {queue : List Token} :
    Halts (.chain level) queue → Halts level.item queue :=
  fun h t ht => (Token.stops_chain.mp (h t ht)).1

theorem halts_expression {queue : List Token} :
    Halts .expression queue → Halts (.chain .additive) queue :=
  fun h t ht => (Token.stops_expression.mp (h t ht)).1

theorem Terminal.halts_expression (closing : Terminal .closeParen) {queue : List Token} :
    Halts .expression (closing.token :: queue) :=
  halts_cons.mpr (Token.stops_expression_of_kind_ne (by simp [closing.kind_eq])
    (by simp [closing.kind_eq]))

theorem Terminal.halts_chain (sign : Terminal .equals) {queue : List Token} :
    Halts (.chain .additive) (sign.token :: queue) :=
  halts_cons.mpr (Token.stops_of_kind_ne _ (by simp [sign.kind_eq]))

/-- The items of a chain end where its links begin. -/
theorem Links.halts_item {level : Operator.Level} (links : Links level) {queue : List Token}
    (h : Halts (.chain level) queue) : Halts level.item (links.tokens ++ queue) := by
  cases links with
  | nil => exact halts_chain h
  | cons joint item rest => exact halts_cons.mpr joint.stops_item

/-! ## The tokens of a phrase -/

/-- A phrase begins with a token that opens an operand. -/
theorem Derivation.exists_tokens_eq_cons :
    ∀ {rank : Rank} (D : Derivation rank), ∃ t rest, D.tokens = t :: rest ∧ t.Opens
  | _, .name word => ⟨_, _, rfl, .inl word.kind_eq⟩
  | _, .number digits => ⟨_, _, rfl, .inr (.inl digits.kind_eq)⟩
  | _, .group opening _ _ => ⟨_, _, rfl, .inr (.inr opening.kind_eq)⟩
  | _, .chain first rest => by
    obtain ⟨t, more, h, ht⟩ := first.exists_tokens_eq_cons
    exact ⟨t, more ++ rest.tokens, by simp [Derivation.tokens, h], ht⟩
  | _, .sum s => s.exists_tokens_eq_cons
  | _, .assign target sign value => by
    obtain ⟨t, more, h, ht⟩ := target.exists_tokens_eq_cons
    exact ⟨t, more ++ sign.token :: value.tokens, by simp [Derivation.tokens, h], ht⟩

mutual

/-- No phrase goes beyond an end token. -/
theorem Derivation.kind_ne_of_mem :
    ∀ {rank : Rank} (D : Derivation rank), ∀ t ∈ D.tokens, t.kind ≠ .endOfFile
  | _, .name word => by simp [Derivation.tokens, word.kind_eq]
  | _, .number digits => by simp [Derivation.tokens, digits.kind_eq]
  | _, .group opening inner closing => by
    have ih := inner.kind_ne_of_mem
    simp only [Derivation.tokens, List.mem_cons, List.mem_append, List.not_mem_nil, or_false]
    rintro t (rfl | ht | rfl)
    · simp [opening.kind_eq]
    · exact ih t ht
    · simp [closing.kind_eq]
  | _, .chain first rest => by
    simp only [Derivation.tokens, List.mem_append]
    rintro t (ht | ht)
    · exact first.kind_ne_of_mem t ht
    · exact rest.kind_ne_of_mem t ht
  | _, .sum s => s.kind_ne_of_mem
  | _, .assign target sign value => by
    simp only [Derivation.tokens, List.mem_append, List.mem_cons]
    rintro t (ht | rfl | ht)
    · exact target.kind_ne_of_mem t ht
    · simp [sign.kind_eq]
    · exact value.kind_ne_of_mem t ht

/-- No links go beyond an end token. -/
theorem Links.kind_ne_of_mem :
    ∀ {level : Operator.Level} (links : Links level), ∀ t ∈ links.tokens, t.kind ≠ .endOfFile
  | _, .nil => by simp [Links.tokens]
  | _, .cons joint item rest => by
    simp only [Links.tokens, List.mem_cons, List.mem_append]
    rintro t (rfl | ht | ht)
    · simp [joint.kind_eq]
    · exact item.kind_ne_of_mem t ht
    · exact rest.kind_ne_of_mem t ht

end

/-! ## The grammar is unambiguous -/

theorem Token.kind_unique {t u : Token} {k l : Token.Kind} (h : t = u) (ht : t.kind = k)
    (hu : u.kind = l) : k = l := by
  rw [← ht, h, hu]

mutual

/-- A phrase has one derivation at most, and ends at one place, when what follows it does not go
    on with it. -/
theorem Derivation.eq_of_tokens :
    ∀ {rank : Rank} (D E : Derivation rank) {q r : List Token}, Halts rank q → Halts rank r →
      D.tokens ++ q = E.tokens ++ r → D = E ∧ q = r
  | _, .name word, E, q, r, hq, hr, h => by
    cases E with
    | name word' =>
      obtain ⟨hw, rfl⟩ := List.cons.inj h
      exact ⟨congrArg _ (Terminal.ext_token hw), rfl⟩
    | number digits' => cases Token.kind_unique (List.cons.inj h).1 word.kind_eq digits'.kind_eq
    | group opening' inner' closing' =>
      cases Token.kind_unique (List.cons.inj h).1 word.kind_eq opening'.kind_eq
  | _, .number digits, E, q, r, hq, hr, h => by
    cases E with
    | name word' => cases Token.kind_unique (List.cons.inj h).1 digits.kind_eq word'.kind_eq
    | number digits' =>
      obtain ⟨hd, rfl⟩ := List.cons.inj h
      exact ⟨congrArg _ (Numeral.ext_token hd), rfl⟩
    | group opening' inner' closing' =>
      cases Token.kind_unique (List.cons.inj h).1 digits.kind_eq opening'.kind_eq
  | _, .group opening inner closing, E, q, r, hq, hr, h => by
    cases E with
    | name word' => cases Token.kind_unique (List.cons.inj h).1 opening.kind_eq word'.kind_eq
    | number digits' => cases Token.kind_unique (List.cons.inj h).1 opening.kind_eq digits'.kind_eq
    | group opening' inner' closing' =>
      simp only [Derivation.tokens, List.cons_append, List.append_assoc, List.nil_append,
        List.cons.injEq] at h
      obtain ⟨ho, hinner⟩ := h
      obtain ⟨rfl, hrest⟩ := inner.eq_of_tokens inner' closing.halts_expression
        closing'.halts_expression hinner
      obtain ⟨hc, rfl⟩ := List.cons.inj hrest
      rw [Terminal.ext_token ho, Terminal.ext_token hc]
      exact ⟨rfl, rfl⟩
  | _, .chain first rest, .chain first' rest', q, r, hq, hr, h => by
    simp only [Derivation.tokens, List.append_assoc] at h
    obtain ⟨rfl, hrest⟩ := first.eq_of_tokens first' (rest.halts_item hq) (rest'.halts_item hr) h
    obtain ⟨rfl, rfl⟩ := rest.eq_of_tokens rest' hq hr hrest
    exact ⟨rfl, rfl⟩
  | _, .sum s, .sum s', q, r, hq, hr, h => by
    obtain ⟨rfl, rfl⟩ := s.eq_of_tokens s' (halts_expression hq) (halts_expression hr) h
    exact ⟨rfl, rfl⟩
  | _, .sum s, .assign target' sign' value', q, r, hq, hr, h => by
    simp only [Derivation.tokens, List.append_assoc, List.cons_append] at h
    obtain ⟨-, rfl⟩ := s.eq_of_tokens target' (halts_expression hq) sign'.halts_chain h
    exact absurd sign'.kind_eq (Token.stops_expression.mp (halts_cons.mp hq)).2
  | _, .assign target sign value, .sum s', q, r, hq, hr, h => by
    simp only [Derivation.tokens, List.append_assoc, List.cons_append] at h
    obtain ⟨-, rfl⟩ := target.eq_of_tokens s' sign.halts_chain (halts_expression hr) h
    exact absurd sign.kind_eq (Token.stops_expression.mp (halts_cons.mp hr)).2
  | _, .assign target sign value, .assign target' sign' value', q, r, hq, hr, h => by
    simp only [Derivation.tokens, List.append_assoc, List.cons_append] at h
    obtain ⟨rfl, hrest⟩ := target.eq_of_tokens target' sign.halts_chain sign'.halts_chain h
    obtain ⟨hs, hvalue⟩ := List.cons.inj hrest
    obtain ⟨rfl, rfl⟩ := value.eq_of_tokens value' hq hr hvalue
    rw [Terminal.ext_token hs]
    exact ⟨rfl, rfl⟩

/-- Links have one derivation at most, and end at one place, when what follows them does not go on
    with their chain. -/
theorem Links.eq_of_tokens :
    ∀ {level : Operator.Level} (L M : Links level) {q r : List Token}, Halts (.chain level) q →
      Halts (.chain level) r → L.tokens ++ q = M.tokens ++ r → L = M ∧ q = r
  | _, .nil, .nil, q, r, hq, hr, h => ⟨rfl, h⟩
  | _, .nil, .cons joint' item' rest', q, r, hq, hr, h => by
    obtain rfl : q = _ := h
    exact absurd ⟨joint', rfl⟩ (Token.stops_chain.mp (halts_cons.mp hq)).2
  | _, .cons joint item rest, .nil, q, r, hq, hr, h => by
    obtain rfl : _ = r := h
    exact absurd ⟨joint, rfl⟩ (Token.stops_chain.mp (halts_cons.mp hr)).2
  | _, .cons joint item rest, .cons joint' item' rest', q, r, hq, hr, h => by
    simp only [Links.tokens, List.cons_append, List.append_assoc, List.cons.injEq] at h
    obtain ⟨hj, hitem⟩ := h
    obtain ⟨rfl, hrest⟩ :=
      item.eq_of_tokens item' (rest.halts_item hq) (rest'.halts_item hr) hitem
    obtain ⟨rfl, rfl⟩ := rest.eq_of_tokens rest' hq hr hrest
    rw [Joint.ext_token hj]
    exact ⟨rfl, rfl⟩

end

/-! ## Statements -/

/-- The derivations of a statement. A constant has a value. -/
inductive Sentence where
  | declare (word : Terminal .letWord) (name : Terminal .identifier)
      (semicolon : Terminal .semicolon)
  | define (word : Declarer) (name : Terminal .identifier) (sign : Terminal .equals)
      (value : Derivation .expression) (semicolon : Terminal .semicolon)
  | express (e : Derivation .expression) (semicolon : Option (Terminal .semicolon))

namespace Sentence

/-- The tokens that are derived. -/
def tokens : Sentence → List Token
  | .declare word name semicolon => [word.token, name.token, semicolon.token]
  | .define word name sign value semicolon =>
    word.token :: name.token :: sign.token :: (value.tokens ++ [semicolon.token])
  | .express e none => e.tokens
  | .express e (some semicolon) => e.tokens ++ [semicolon.token]

/-- The expression in a statement, if there is one. -/
def expression? : Sentence → Option (Derivation .expression)
  | .declare _ _ _ => none
  | .define _ _ _ value _ => some value
  | .express e _ => some e

/-- The statement that a derivation stands for. -/
def tree : Sentence → Statement
  | .declare word name semicolon =>
    .declare name.token.text false none (word.token.span.hull semicolon.token.span)
  | .define word name _ value semicolon =>
    .declare name.token.text (word.token.kind = .constWord) (some value.tree)
      (word.token.span.hull semicolon.token.span)
  | .express e none => .expression e.tree e.tree.span
  | .express e (some semicolon) =>
    .expression e.tree (e.tree.span.hull semicolon.token.span)

/-- Reading at a depth, a statement stays within the deepest level. -/
def Fits (s : Sentence) (depth : Nat) : Prop := ∀ D ∈ s.expression?, D.Fits depth

theorem fits_declare {word : Terminal .letWord} {name : Terminal .identifier}
    {semicolon : Terminal .semicolon} {depth : Nat} :
    (Sentence.declare word name semicolon).Fits depth := by
  simp [Fits, expression?]

theorem fits_define {word : Declarer} {name : Terminal .identifier} {sign : Terminal .equals}
    {value : Derivation .expression} {semicolon : Terminal .semicolon} {depth : Nat} :
    (Sentence.define word name sign value semicolon).Fits depth ↔ value.Fits depth := by
  simp [Fits, expression?]

theorem fits_express {e : Derivation .expression} {semicolon : Option (Terminal .semicolon)}
    {depth : Nat} : (Sentence.express e semicolon).Fits depth ↔ e.Fits depth := by
  simp [Fits, expression?]

/-- The tokens of statements in a row. -/
def yield (sentences : List Sentence) : List Token := sentences.flatMap tokens

@[simp] theorem yield_nil : yield [] = [] := rfl

@[simp] theorem yield_cons (s : Sentence) (sentences : List Sentence) :
    yield (s :: sentences) = s.tokens ++ yield sentences := rfl

/-- A token that does not go on with a statement, so that the statement ends before it. -/
def Ends : Sentence → Token → Prop
  | .express _ none, t => t.Stops .expression ∧ t.kind ≠ .semicolon
  | _, _ => True

/-- Some tokens, if there are any, do not go on with a statement. -/
def EndsBefore (s : Sentence) (queue : List Token) : Prop := ∀ t ∈ queue.head?, s.Ends t

end Sentence

/-- A token that a statement begins with. -/
def Token.Begins (t : Token) : Prop := t.Opens ∨ t.kind = .letWord ∨ t.kind = .constWord

namespace Sentence

/-- A statement begins with a token of its own. -/
theorem exists_tokens_eq_cons (s : Sentence) : ∃ t rest, s.tokens = t :: rest ∧ t.Begins := by
  cases s with
  | declare word name semicolon => exact ⟨_, _, rfl, .inr (.inl word.kind_eq)⟩
  | define word name sign value semicolon => exact ⟨_, _, rfl, .inr word.kind_eq⟩
  | express e semicolon =>
    obtain ⟨t, rest, h, ht⟩ := e.exists_tokens_eq_cons
    cases semicolon with
    | none => exact ⟨t, rest, h, .inl ht⟩
    | some semicolon => exact ⟨t, rest ++ [semicolon.token], by simp [tokens, h], .inl ht⟩

theorem ends_of_kind_ne (s : Sentence) {t : Token} (h₁ : t.kind ≠ .operator)
    (h₂ : t.kind ≠ .equals) (h₃ : t.kind ≠ .semicolon) : s.Ends t := by
  match s with
  | .declare _ _ _ => trivial
  | .define _ _ _ _ _ => trivial
  | .express _ (some _) => trivial
  | .express _ none => exact ⟨Token.stops_expression_of_kind_ne h₁ h₂, h₃⟩

/-- No statement goes on with the beginning of another. -/
theorem ends_of_begins (s : Sentence) {t : Token} (ht : t.Begins) : s.Ends t := by
  have h : t.kind ≠ .operator ∧ t.kind ≠ .equals ∧ t.kind ≠ .semicolon := by
    rcases ht with (h | h | h) | h | h <;> simp [h]
  exact s.ends_of_kind_ne h.1 h.2.1 h.2.2

/-- No statement goes on with the statements after it. -/
theorem endsBefore_yield (s : Sentence) (sentences : List Sentence) {queue : List Token}
    (hqueue : s.EndsBefore queue) : s.EndsBefore (yield sentences ++ queue) := by
  cases sentences with
  | nil => exact hqueue
  | cons next others =>
    obtain ⟨t, rest, h, ht⟩ := next.exists_tokens_eq_cons
    simpa [EndsBefore, h] using s.ends_of_begins ht

theorem endsBefore_nil (s : Sentence) : s.EndsBefore [] := by simp [EndsBefore]

/-- No statement goes beyond an end token. -/
theorem kind_ne_of_mem (s : Sentence) : ∀ t ∈ s.tokens, t.kind ≠ .endOfFile := by
  intro t ht
  match s, ht with
  | .declare word name semicolon, ht =>
    simp only [tokens, List.mem_cons, List.not_mem_nil, or_false] at ht
    rcases ht with rfl | rfl | rfl
    · simp [word.kind_eq]
    · simp [name.kind_eq]
    · simp [semicolon.kind_eq]
  | .define word name sign value semicolon, ht =>
    simp only [tokens, List.mem_cons, List.mem_append, List.not_mem_nil, or_false] at ht
    rcases ht with rfl | rfl | rfl | ht | rfl
    · rcases word.kind_eq with h | h <;> simp [h]
    · simp [name.kind_eq]
    · simp [sign.kind_eq]
    · exact value.kind_ne_of_mem t ht
    · simp [semicolon.kind_eq]
  | .express e none, ht => exact e.kind_ne_of_mem t ht
  | .express e (some semicolon), ht =>
    simp only [tokens, List.mem_append, List.mem_singleton] at ht
    rcases ht with ht | rfl
    · exact e.kind_ne_of_mem t ht
    · simp [semicolon.kind_eq]

theorem yield_kind_ne_of_mem (sentences : List Sentence) :
    ∀ t ∈ yield sentences, t.kind ≠ .endOfFile := by
  intro t ht
  obtain ⟨s, -, hs⟩ := List.mem_flatMap.mp ht
  exact s.kind_ne_of_mem t hs

/-! ## Programs are unambiguous -/

/-- A declaration is no expression. -/
theorem tokens_ne_of_declares {e : Derivation .expression} {t : Token} {q r : List Token}
    (ht : t.kind = .letWord ∨ t.kind = .constWord) : e.tokens ++ q ≠ t :: r := by
  intro h
  obtain ⟨u, rest, hu, hopens⟩ := e.exists_tokens_eq_cons
  rw [hu] at h
  obtain rfl : u = t := (List.cons.inj h).1
  rcases ht with ht | ht <;> rcases hopens with h | h | h <;> rw [ht] at h <;> cases h

/-- An expression ends before the semicolon after it. -/
theorem halts_semicolon (semicolon : Terminal .semicolon) {queue : List Token} :
    Halts .expression (semicolon.token :: queue) :=
  halts_cons.mpr (Token.stops_expression_of_kind_ne (by simp [semicolon.kind_eq])
    (by simp [semicolon.kind_eq]))

/-- What does not go on with a statement does not go on with the expression it ends with. -/
theorem EndsBefore.halts {e : Derivation .expression} {queue : List Token}
    (h : (Sentence.express e none).EndsBefore queue) : Halts .expression queue :=
  fun t ht => (h t ht).1

theorem eq_of_tokens_express {e e' : Derivation .expression}
    {semicolon semicolon' : Option (Terminal .semicolon)} {q r : List Token}
    (hq : (Sentence.express e semicolon).EndsBefore q)
    (hr : (Sentence.express e' semicolon').EndsBefore r)
    (h : (Sentence.express e semicolon).tokens ++ q =
      (Sentence.express e' semicolon').tokens ++ r) :
    Sentence.express e semicolon = Sentence.express e' semicolon' ∧ q = r := by
  match semicolon, semicolon' with
  | none, none =>
    obtain ⟨rfl, rfl⟩ := e.eq_of_tokens e' hq.halts hr.halts h
    exact ⟨rfl, rfl⟩
  | none, some mark =>
    simp only [tokens, List.append_assoc, List.singleton_append] at h
    obtain ⟨-, rfl⟩ := e.eq_of_tokens e' hq.halts (halts_semicolon mark) h
    exact absurd mark.kind_eq (hq _ rfl).2
  | some mark, none =>
    simp only [tokens, List.append_assoc, List.singleton_append] at h
    obtain ⟨-, rfl⟩ := e.eq_of_tokens e' (halts_semicolon mark) hr.halts h
    exact absurd mark.kind_eq (hr _ rfl).2
  | some mark, some mark' =>
    simp only [tokens, List.append_assoc, List.singleton_append] at h
    obtain ⟨rfl, hrest⟩ := e.eq_of_tokens e' (halts_semicolon mark) (halts_semicolon mark') h
    obtain ⟨hmark, rfl⟩ := List.cons.inj hrest
    rw [Terminal.ext_token hmark]
    exact ⟨rfl, rfl⟩

/-- A statement has one derivation at most, and ends at one place, when what follows it does not
    go on with it. -/
theorem eq_of_tokens (s s' : Sentence) {q r : List Token} (hq : s.EndsBefore q)
    (hr : s'.EndsBefore r) (h : s.tokens ++ q = s'.tokens ++ r) : s = s' ∧ q = r := by
  match s, s' with
  | .declare word name semicolon, .declare word' name' semicolon' =>
    simp only [tokens, List.cons_append, List.nil_append, List.cons.injEq] at h
    obtain ⟨hw, hn, hs, rfl⟩ := h
    rw [Terminal.ext_token hw, Terminal.ext_token hn, Terminal.ext_token hs]
    exact ⟨rfl, rfl⟩
  | .declare word name semicolon, .define word' name' sign' value' semicolon' =>
    simp only [tokens, List.cons_append, List.cons.injEq] at h
    cases Token.kind_unique h.2.2.1 semicolon.kind_eq sign'.kind_eq
  | .define word name sign value semicolon, .declare word' name' semicolon' =>
    simp only [tokens, List.cons_append, List.cons.injEq] at h
    cases Token.kind_unique h.2.2.1 sign.kind_eq semicolon'.kind_eq
  | .define word name sign value semicolon, .define word' name' sign' value' semicolon' =>
    simp only [tokens, List.cons_append, List.append_assoc, List.nil_append,
      List.cons.injEq] at h
    obtain ⟨hw, hn, hs, hvalue⟩ := h
    obtain ⟨rfl, hrest⟩ :=
      value.eq_of_tokens value' (halts_semicolon semicolon) (halts_semicolon semicolon') hvalue
    obtain ⟨hm, rfl⟩ := List.cons.inj hrest
    rw [Declarer.ext_token hw, Terminal.ext_token hn, Terminal.ext_token hs,
      Terminal.ext_token hm]
    exact ⟨rfl, rfl⟩
  | .declare word name semicolon, .express e' semicolon' =>
    cases semicolon' <;> simp only [tokens, List.append_assoc] at h <;>
      exact absurd h.symm (tokens_ne_of_declares (.inl word.kind_eq))
  | .express e semicolon, .declare word' name' semicolon' =>
    cases semicolon <;> simp only [tokens, List.append_assoc] at h <;>
      exact absurd h (tokens_ne_of_declares (.inl word'.kind_eq))
  | .define word name sign value semicolon, .express e' semicolon' =>
    cases semicolon' <;> simp only [tokens, List.append_assoc] at h <;>
      exact absurd h.symm (tokens_ne_of_declares word.kind_eq)
  | .express e semicolon, .define word' name' sign' value' semicolon' =>
    cases semicolon <;> simp only [tokens, List.append_assoc] at h <;>
      exact absurd h (tokens_ne_of_declares word'.kind_eq)
  | .express e semicolon, .express e' semicolon' => exact eq_of_tokens_express hq hr h

/-- Statements in a row have one derivation at most. -/
theorem eq_of_yield : ∀ {sentences others : List Sentence}, yield sentences = yield others →
    sentences = others
  | [], [], _ => rfl
  | [], s :: others, h => by
    obtain ⟨t, rest, hs, -⟩ := s.exists_tokens_eq_cons
    simp [hs] at h
  | s :: sentences, [], h => by
    obtain ⟨t, rest, hs, -⟩ := s.exists_tokens_eq_cons
    simp [hs] at h
  | s :: sentences, s' :: others, h => by
    have hs := s.endsBefore_yield sentences s.endsBefore_nil
    have hs' := s'.endsBefore_yield others s'.endsBefore_nil
    rw [List.append_nil] at hs hs'
    obtain ⟨rfl, hrest⟩ := s.eq_of_tokens s' hs hs' h
    rw [eq_of_yield hrest]

end Sentence

end Quill
