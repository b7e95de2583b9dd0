import Quill.Grammar.Reader
import Quill.Number.Reading
import Quill.Program

/-!
# Phrases of the language

    program     ::= statement*
    statement   ::= "let" name ";"
                  | ("let" | "const") name "=" expression ";"
                  | expression ";"?
    expression  ::= sum ("=" expression)?
    sum         ::= product (("+" | "-") product)*
    product     ::= operand (("*" | "/" | "%") operand)*
    operand     ::= name | number | "(" expression ")"

This is the grammar of section 4.2 of the specification. Each phrase below is read the way a
function of `Parser` reads it, which its docstring names.

Chains of operators nest to the left, assignments to the right. The depth rises by one inside a
parenthesis, to the right of an assignment, and with every operator of a chain until the chain
ends; it may not exceed `maxDepth`. Faults leave the depth raised.
-/

namespace Quill

namespace Phrase

open Reader

/-- Takes a token of the kind wanted (`expect`, `expect_with_help`). -/
def require (wanted : Wanted) : Reader Token := do
  let t ← peek
  if t.kind = wanted.kind then next else fail (.unexpected wanted t)

/-! ## Expressions -/

/-- A name, a number, or what `inner` reads between parentheses (`parse_primary_expr`). -/
def operand (inner : Reader Expr) : Reader Expr := do
  let t ← peek
  match t.kind with
  | .identifier => do
    let word ← next
    pure (.name word.text word.span)
  | .number => do
    let digits ← next
    match Number.read? digits.text with
    | some value => pure (.number value digits.span)
    | none => fail (.badNumber digits.text digits.span)
  | .openParen => do
    let paren ← next
    enter paren.span
    let value ← inner
    let _ ← require .groupEnd
    leave 1
    pure value
  | _ => fail (.noOperand t)

/-- Takes an operator, which goes one level deeper, and then an operand. -/
def operatorThen (item : Reader Expr) : Reader Expr := do
  let t ← next
  enter t.span
  item

/-- An operator is a token that is taken. -/
theorem operatorThen_length_lt (item : Reader Expr) {c : Cursor} {level : Operator.Level}
    {op : Operator} (h : c.operator? level = some op) :
    ((operatorThen item).run c).rest.queue.length < c.queue.length :=
  Nat.lt_of_le_of_lt (Reader.length_le (do enter c.token.span; item) c.advance)
    (Cursor.advance_length_lt (Cursor.kind_ne_of_operator? h))

/-- Goes on with a chain that has read `left` and taken `folded` operators so far: the loop that
    `parse_additive_expr` and `parse_multiplicative_expr` share. While an operator of the level is
    at hand it and the next item are joined on the right; then the depth of all of them is given
    back. -/
def chainFrom (item : Reader Expr) (level : Operator.Level) (left : Expr) (folded : Nat)
    (c : Cursor) : Reading Expr :=
  match _hop : c.operator? level with
  | none => .ok left { c with depth := c.depth - folded }
  | some op =>
    match _hrun : (operatorThen item).run c with
    | .ok right rest => chainFrom item level (left.join op right) (folded + 1) rest
    | .error e rest => .error e rest
termination_by c.queue.length
decreasing_by
  have h := operatorThen_length_lt item _hop
  rw [_hrun] at h
  exact h

theorem chainFrom_length_le (item : Reader Expr) (level : Operator.Level) (left : Expr)
    (folded : Nat) (c : Cursor) :
    (chainFrom item level left folded c).rest.queue.length ≤ c.queue.length := by
  fun_induction chainFrom item level left folded c with
  | case1 => exact Nat.le_refl _
  | case2 left folded c op hop right rest hrun ih =>
    have h := operatorThen_length_lt item hop
    rw [hrun] at h
    exact Nat.le_trans ih (Nat.le_of_lt h)
  | case3 left folded c op hop e rest hrun =>
    have h := (operatorThen item).length_le c
    rw [hrun] at h
    exact h

/-- The rest of a chain. -/
def chainRest (item : Reader Expr) (level : Operator.Level) (left : Expr) (folded : Nat) :
    Reader Expr :=
  ⟨chainFrom item level left folded, chainFrom_length_le item level left folded⟩

/-- Items joined by operators of one level, nesting to the left. -/
def chain (item : Reader Expr) (level : Operator.Level) : Reader Expr := do
  let first ← item
  chainRest item level first 0

/-- Sums of products of operands (`parse_additive_expr` over `parse_multiplicative_expr`). -/
def sum (inner : Reader Expr) : Reader Expr :=
  chain (chain (operand inner) .multiplicative) .additive

/-- A sum, or an assignment to one of what `inner` reads (`parse_assignment_expr`). -/
def assignment (inner : Reader Expr) : Reader Expr := do
  let left ← sum inner
  let t ← peek
  if t.kind = .equals then do
    let sign ← next
    enter sign.span
    let value ← inner
    leave 1
    pure (left.assigned value)
  else pure left

/-- An expression in which expressions stand inside one another at most `n` times, where `beyond`
    takes over. -/
def nested (beyond : Reader Expr) : Nat → Reader Expr
  | 0 => beyond
  | n + 1 => delay fun _ => assignment (nested beyond n)

@[simp] theorem nested_succ (beyond : Reader Expr) (n : Nat) :
    nested beyond (n + 1) = assignment (nested beyond n) := rfl

/-- Refuses the token at hand as too deep. -/
def refuse : Reader Expr := do
  let t ← peek
  fail (.tooDeep t.span)

/-- An expression (`parse_expr`). An inner expression is read only after a token has been taken, so
    as many levels inside it as there are tokens are never used up. -/
def expression : Reader Expr where
  run c := (assignment (delay fun _ => nested refuse c.queue.length)).run c
  length_le c := (assignment (delay fun _ => nested refuse c.queue.length)).length_le c

theorem run_expression (c : Cursor) :
    expression.run c = (assignment (nested refuse c.queue.length)).run c := rfl

/-! ## Statements -/

/-- A declaration, at its first word (`parse_var_declaration`). -/
def declaration : Reader Statement := do
  let word ← next
  let constant : Bool := word.kind = .constWord
  let name ← require (.declaredName word.text)
  let t ← peek
  if t.kind = .semicolon then do
    let semicolon ← next
    let span := word.span.hull semicolon.span
    if constant then fail (.valueMissing name.text span)
    else pure (.declare name.text false none span)
  else do
    let _ ← require .declaredEquals
    let value ← expression
    let semicolon ← require .declaredEnd
    pure (.declare name.text constant (some value) (word.span.hull semicolon.span))

/-- An expression on its own, with or without a semicolon (`parse_expression_statement`). -/
def expressionStatement : Reader Statement := do
  let e ← expression
  let t ← peek
  if t.kind = .semicolon then do
    let semicolon ← next
    pure (.expression e (e.span.hull semicolon.span))
  else pure (.expression e e.span)

/-- A statement (`parse_stmt`). -/
def statement : Reader Statement := do
  let t ← peek
  match t.kind with
  | .letWord => declaration
  | .constWord => declaration
  | _ => expressionStatement

/-! ## Every statement takes a token -/

theorem consumes_require (wanted : Wanted) : Consumes (require wanted) := by
  intro c t rest h
  simp only [require, run_bind, run_peek] at h
  split at h
  next hk =>
    cases h
    refine Cursor.advance_length_lt ?_
    rw [hk]
    cases wanted <;> simp [Wanted.kind]
  next => cases h

/-- Taking a token that is not an end token, and then anything else. -/
theorem length_lt_of_next {α : Type} {f : Token → Reader α} {c rest : Cursor} {a : α}
    (hk : c.token.kind ≠ .endOfFile) (h : (next >>= f).run c = .ok a rest) :
    rest.queue.length < c.queue.length := by
  have hle := (f c.token).length_le c.advance
  rw [run_bind, run_next] at h
  dsimp only at h
  rw [h] at hle
  exact Nat.lt_of_le_of_lt hle (Cursor.advance_length_lt hk)

theorem consumes_operand (inner : Reader Expr) : Consumes (operand inner) := by
  intro c e rest h
  simp only [operand, run_bind (p := peek), run_peek] at h
  split at h
  next hk => exact length_lt_of_next (by simp [hk]) h
  next hk => exact length_lt_of_next (by simp [hk]) h
  next hk => exact length_lt_of_next (by simp [hk]) h
  next => cases h

theorem consumes_chain {item : Reader Expr} (h : Consumes item) (level : Operator.Level) :
    Consumes (chain item level) :=
  h.bind _

theorem consumes_assignment (inner : Reader Expr) : Consumes (assignment inner) :=
  (consumes_chain (consumes_chain (consumes_operand inner) _) _).bind _

theorem consumes_expression : Consumes expression := by
  intro c e rest h
  rw [run_expression] at h
  exact consumes_assignment _ c e rest h

theorem consumes_declaration : Consumes declaration :=
  consumes_bind fun _ => (consumes_require _).bind _

theorem consumes_statement : Consumes statement := by
  refine consumes_bind fun t => ?_
  split
  · exact consumes_declaration
  · exact consumes_declaration
  · exact consumes_expression.bind _

/-! ## Programs -/

/-- Statements up to the end token (the loop of `parse`). -/
def statementsFrom (c : Cursor) : Reading Program :=
  if c.atEnd then .ok [] c
  else
    match _hrun : statement.run c with
    | .error e rest => .error e rest
    | .ok first mid =>
      match statementsFrom mid with
      | .ok others rest => .ok (first :: others) rest
      | .error e rest => .error e rest
termination_by c.queue.length
decreasing_by exact consumes_statement c first mid _hrun

end Phrase

/-- Reads the statements from a cursor up to its end token (`parse`). -/
def Cursor.readProgram (c : Cursor) : Reading Program := Phrase.statementsFrom c

/-- Reads `n` times from one cursor, each time from where the last reading left it. -/
def Cursor.readRepeatedly : Nat → Cursor → List (Reading Program)
  | 0, _ => []
  | n + 1, c =>
    let reading := c.readProgram
    reading :: readRepeatedly n reading.rest

/-- The program that some tokens make. -/
def Program.ofTokens (tokens : List Token) : Except Fault Program :=
  match (Cursor.ofTokens tokens).readProgram with
  | .ok program _ => .ok program
  | .error fault _ => .error fault

end Quill
