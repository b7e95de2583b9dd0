import Quill.Proofs.Derivation

/-!
# Reading follows the grammar

What each reader does at each token, and from it what it does with the tokens of a whole
derivation: reading takes exactly these tokens, yields the tree and leaves the depth as it was.

* `Derivation.run_reader`: reading an expression whose nesting fits.
* `Sentence.run_statement`: reading a statement whose nesting fits.
-/

namespace Quill

/-! ## Operators at hand -/

namespace Cursor

theorem operator?_of_joint {c : Cursor} {level : Operator.Level} (joint : Joint level)
    (h : c.token = joint.token) : c.operator? level = some joint.operator := by
  simp [operator?, h, joint.kind_eq, joint.symbol_eq, joint.level_eq]

theorem exists_joint_of_operator? {c : Cursor} {level : Operator.Level} {op : Operator}
    (h : c.operator? level = some op) :
    ∃ joint : Joint level, joint.token = c.token ∧ joint.operator = op := by
  unfold operator? at h
  split at h
  next hk =>
    obtain ⟨hsymbol, hlevel⟩ := Option.filter_eq_some_iff.mp h
    exact ⟨⟨c.token, op, hk, hsymbol, by simpa using hlevel⟩, rfl, rfl⟩
  next => cases h

theorem operator?_eq_none_iff {c : Cursor} {level : Operator.Level} :
    c.operator? level = none ↔ ¬ c.token.Joins level := by
  constructor
  · rintro h ⟨joint, hjoint⟩
    rw [operator?_of_joint joint hjoint.symm] at h
    cases h
  · intro h
    cases hop : c.operator? level with
    | none => rfl
    | some op =>
      obtain ⟨joint, hjoint, -⟩ := exists_joint_of_operator? hop
      exact absurd ⟨joint, hjoint⟩ h

end Cursor

namespace Phrase

open Reader

section Steps

variable {last : Token} {hl : last.kind = .endOfFile} {depth : Nat} {t : Token}
  {queue : List Token} {inner item : Reader Expr} {level : Operator.Level}

theorem advance_cons (h : t.kind ≠ .endOfFile) :
    Cursor.advance ⟨t :: queue, last, depth, hl⟩ = ⟨queue, last, depth, hl⟩ := by
  simp [Cursor.advance, Cursor.atEnd, Cursor.token, h]

/-- Taking a token that is not an end token, and then anything else. -/
theorem run_next_bind {α : Type} (f : Token → Reader α) (h : t.kind ≠ .endOfFile) :
    (next >>= f).run ⟨t :: queue, last, depth, hl⟩ = (f t).run ⟨queue, last, depth, hl⟩ := by
  rw [run_bind, run_next, advance_cons h]
  rfl

theorem run_bind_of_ok {α β : Type} {p : Reader α} (f : α → Reader β) {c rest : Cursor} {a : α}
    (h : p.run c = .ok a rest) : (p >>= f).run c = (f a).run rest := by
  rw [run_bind, h]

theorem run_bind_of_error {α β : Type} {p : Reader α} (f : α → Reader β) {c rest : Cursor}
    {e : Fault} (h : p.run c = .error e rest) : (p >>= f).run c = .error e rest := by
  rw [run_bind, h]

theorem run_enter_of_le (span : Span) (h : depth + 1 ≤ maxDepth) :
    (enter span).run ⟨queue, last, depth, hl⟩ = .ok () ⟨queue, last, depth + 1, hl⟩ := by
  rw [run_enter, if_neg (by simpa using h)]

theorem run_enter_of_lt {c : Cursor} (span : Span) (h : maxDepth < c.depth + 1) :
    (enter span).run c = .error (.tooDeep span) { c with depth := c.depth + 1 } := by
  rw [run_enter, if_pos h]

theorem run_require_of_eq {wanted : Wanted} (h : t.kind = wanted.kind) :
    (require wanted).run ⟨t :: queue, last, depth, hl⟩ = .ok t ⟨queue, last, depth, hl⟩ := by
  have hne : t.kind ≠ .endOfFile := by rw [h]; cases wanted <;> simp [Wanted.kind]
  simp only [require, run_bind, run_peek, Cursor.token, List.headD_cons, if_pos h, run_next,
    advance_cons hne]

theorem run_require_of_ne {wanted : Wanted} {c : Cursor} (h : c.token.kind ≠ wanted.kind) :
    (require wanted).run c = .error (.unexpected wanted c.token) c := by
  simp only [require, run_bind, run_peek, if_neg h, run_fail]

/-! ### Operands -/

theorem run_operand_name (word : Terminal .identifier) :
    (operand inner).run ⟨word.token :: queue, last, depth, hl⟩ =
      .ok (.name word.token.text word.token.span) ⟨queue, last, depth, hl⟩ := by
  simp only [operand, run_bind, run_peek, Cursor.token, List.headD_cons, word.kind_eq, run_next,
    run_pure, advance_cons (show word.token.kind ≠ .endOfFile by simp [word.kind_eq])]

theorem run_operand_number (digits : Numeral) :
    (operand inner).run ⟨digits.token :: queue, last, depth, hl⟩ =
      .ok (.number digits.value digits.token.span) ⟨queue, last, depth, hl⟩ := by
  simp only [operand, run_bind, run_peek, Cursor.token, List.headD_cons, digits.kind_eq, run_next,
    run_pure, digits.read_eq,
    advance_cons (show digits.token.kind ≠ .endOfFile by simp [digits.kind_eq])]

theorem run_operand_badNumber (hk : t.kind = .number) (hread : Number.read? t.text = none) :
    (operand inner).run ⟨t :: queue, last, depth, hl⟩ =
      .error (.badNumber t.text t.span) ⟨queue, last, depth, hl⟩ := by
  simp only [operand, run_bind, run_peek, Cursor.token, List.headD_cons, hk, run_next, run_fail,
    hread, advance_cons (show t.kind ≠ .endOfFile by simp [hk])]

/-- What is left to do once a parenthesis has been opened. -/
def closeGroup (inner : Reader Expr) : Reader Expr := do
  let value ← inner
  let _ ← require .groupEnd
  leave 1
  pure value

theorem run_operand_group (opening : Terminal .openParen) (h : depth + 1 ≤ maxDepth) :
    (operand inner).run ⟨opening.token :: queue, last, depth, hl⟩ =
      (closeGroup inner).run ⟨queue, last, depth + 1, hl⟩ := by
  have hne : opening.token.kind ≠ .endOfFile := by simp [opening.kind_eq]
  simp only [operand, run_bind (p := peek), run_peek, Cursor.token, List.headD_cons,
    opening.kind_eq]
  rw [run_next_bind _ hne, run_bind, run_enter_of_le _ h]
  rfl

theorem run_operand_tooDeep (opening : Terminal .openParen) (h : maxDepth < depth + 1) :
    (operand inner).run ⟨opening.token :: queue, last, depth, hl⟩ =
      .error (.tooDeep opening.token.span) ⟨queue, last, depth + 1, hl⟩ := by
  have hne : opening.token.kind ≠ .endOfFile := by simp [opening.kind_eq]
  simp only [operand, run_bind (p := peek), run_peek, Cursor.token, List.headD_cons,
    opening.kind_eq]
  rw [run_next_bind _ hne, run_bind, run_enter_of_lt _ h]

theorem run_operand_noOperand {c : Cursor} (h : ¬ c.token.Opens) :
    (operand inner).run c = .error (.noOperand c.token) c := by
  simp only [operand, run_bind (p := peek), run_peek]
  split
  next hk => exact absurd (.inl hk) h
  next hk => exact absurd (.inr (.inl hk)) h
  next hk => exact absurd (.inr (.inr hk)) h
  next => rw [run_fail]

/-! ### Chains -/

theorem run_operatorThen (joint : Joint level) (h : depth + 1 ≤ maxDepth) :
    (operatorThen item).run ⟨joint.token :: queue, last, depth, hl⟩ =
      item.run ⟨queue, last, depth + 1, hl⟩ := by
  rw [operatorThen, run_next_bind _ (by simp [joint.kind_eq]), run_bind, run_enter_of_le _ h]

theorem run_operatorThen_tooDeep (joint : Joint level) (h : maxDepth < depth + 1) :
    (operatorThen item).run ⟨joint.token :: queue, last, depth, hl⟩ =
      .error (.tooDeep joint.token.span) ⟨queue, last, depth + 1, hl⟩ := by
  rw [operatorThen, run_next_bind _ (by simp [joint.kind_eq]), run_bind, run_enter_of_lt _ h]

/-- A chain ends where no operator of its level stands. -/
theorem chainFrom_of_not_joins (left : Expr) (folded : Nat) {c : Cursor}
    (h : ¬ c.token.Joins level) :
    chainFrom item level left folded c = .ok left { c with depth := c.depth - folded } := by
  rw [chainFrom]
  split
  next => rfl
  next op hop => rw [Cursor.operator?_eq_none_iff.mpr h] at hop; cases hop

/-- A chain goes on where an operator of its level and an item stand. -/
theorem chainFrom_of_ok {c rest : Cursor} {right : Expr} (left : Expr) (folded : Nat)
    (joint : Joint level) (hjoint : c.token = joint.token)
    (h : (operatorThen item).run c = .ok right rest) :
    chainFrom item level left folded c =
      chainFrom item level (left.join joint.operator right) (folded + 1) rest := by
  have hop := Cursor.operator?_of_joint joint hjoint
  rw [chainFrom]
  split
  next hnone => rw [hop] at hnone; cases hnone
  next op hsome =>
    obtain rfl : joint.operator = op := Option.some.inj (hop.symm.trans hsome)
    split
    next right' rest' hrun => rw [h] at hrun; cases hrun; rfl
    next e rest' hrun => rw [h] at hrun; cases hrun

/-- A chain fails where an operator of its level stands and no item after it. -/
theorem chainFrom_of_error {c rest : Cursor} {e : Fault} (left : Expr) (folded : Nat)
    (joint : Joint level) (hjoint : c.token = joint.token)
    (h : (operatorThen item).run c = .error e rest) :
    chainFrom item level left folded c = .error e rest := by
  have hop := Cursor.operator?_of_joint joint hjoint
  rw [chainFrom]
  split
  next hnone => rw [hop] at hnone; cases hnone
  next op hsome =>
    split
    next right' rest' hrun => rw [h] at hrun; cases hrun
    next e' rest' hrun => rw [h] at hrun; cases hrun; rfl

end Steps

/-! ## The readers of phrases -/

/-- The reader of the items of a level. -/
def itemReader (inner : Reader Expr) : Operator.Level → Reader Expr
  | .additive => chain (operand inner) .multiplicative
  | .multiplicative => operand inner

/-- The reader of the phrases of a rank, in which `inner` reads inner expressions. -/
def reader (inner : Reader Expr) : Rank → Reader Expr
  | .operand => operand inner
  | .chain level => chain (itemReader inner level) level
  | .expression => assignment inner

theorem reader_item (inner : Reader Expr) (level : Operator.Level) :
    reader inner level.item = itemReader inner level := by
  cases level <;> rfl

/-- Reads the rest of an expression, once its first sum has been read. -/
def assignmentRest (inner : Reader Expr) (left : Expr) : Reader Expr := do
  let t ← peek
  if t.kind = .equals then do
    let sign ← next
    enter sign.span
    let value ← inner
    leave 1
    pure (left.assigned value)
  else pure left

theorem assignment_eq (inner : Reader Expr) :
    assignment inner = reader inner (.chain .additive) >>= assignmentRest inner := rfl

section AssignmentRest

variable {last : Token} {hl : last.kind = .endOfFile} {depth : Nat} {queue : List Token}
  {inner : Reader Expr}

theorem run_assignmentRest_of_ne {c : Cursor} (left : Expr) (h : c.token.kind ≠ .equals) :
    (assignmentRest inner left).run c = .ok left c := by
  simp only [assignmentRest, run_bind, run_peek, if_neg h, run_pure]

theorem run_assignmentRest_sign (left : Expr) (sign : Terminal .equals)
    (h : depth + 1 ≤ maxDepth) :
    (assignmentRest inner left).run ⟨sign.token :: queue, last, depth, hl⟩ =
      (do let value ← inner; leave 1; pure (left.assigned value) : Reader Expr).run
        ⟨queue, last, depth + 1, hl⟩ := by
  simp only [assignmentRest, run_bind (p := peek), run_peek, Cursor.token, List.headD_cons,
    sign.kind_eq, if_true]
  rw [run_next_bind _ (by simp [sign.kind_eq]), run_bind, run_enter_of_le _ h]

theorem run_assignmentRest_tooDeep (left : Expr) (sign : Terminal .equals)
    (h : maxDepth < depth + 1) :
    (assignmentRest inner left).run ⟨sign.token :: queue, last, depth, hl⟩ =
      .error (.tooDeep sign.token.span) ⟨queue, last, depth + 1, hl⟩ := by
  simp only [assignmentRest, run_bind (p := peek), run_peek, Cursor.token, List.headD_cons,
    sign.kind_eq, if_true]
  rw [run_next_bind _ (by simp [sign.kind_eq]), run_bind, run_enter_of_lt _ h]

end AssignmentRest

end Phrase

/-! ## Reading a derivation -/

section Derivations

open Phrase Reader

variable {last : Token} {hl : last.kind = .endOfFile}

/-- An end token goes on with nothing. -/
theorem Token.stops_of_endOfFile {t : Token} (h : t.kind = .endOfFile) : ∀ rank, t.Stops rank
  | .operand => trivial
  | .chain level => t.stops_of_kind_ne level (by simp [h])
  | .expression => Token.stops_expression_of_kind_ne (by simp [h]) (by simp [h])

/-- What is at hand does not go on with a phrase, if the tokens to come do not. -/
theorem Halts.stops_token {rank : Rank} {c : Cursor} (h : Halts rank c.queue) :
    c.token.Stops rank := by
  obtain ⟨queue, last, depth, hl⟩ := c
  cases queue with
  | nil => exact Token.stops_of_endOfFile hl rank
  | cons t queue => exact halts_cons.mp h

theorem Halts.not_joins {level : Operator.Level} {c : Cursor} (h : Halts (.chain level) c.queue) :
    ¬ c.token.Joins level :=
  (Token.stops_chain.mp h.stops_token).2

theorem Halts.kind_ne_equals {c : Cursor} (h : Halts .expression c.queue) :
    c.token.kind ≠ .equals :=
  (Token.stops_expression.mp h.stops_token).2

section Run

variable (last : Token) (hl : last.kind = .endOfFile)

mutual

/-- Reading the tokens of a phrase takes them all and yields its tree, whatever follows that does
    not go on with the phrase. Inner expressions nest less deeply than there are tokens. -/
theorem Derivation.run_reader :
    ∀ {rank : Rank} (D : Derivation rank) {depth : Nat} (n : Nat) (queue : List Token),
      D.tokens.length ≤ n → D.Fits depth → Halts rank queue →
      (reader (nested refuse n) rank).run ⟨D.tokens ++ queue, last, depth, hl⟩ =
        .ok D.tree ⟨queue, last, depth, hl⟩
  | _, .name word, depth, n, queue, _, _, _ => run_operand_name word
  | _, .number digits, depth, n, queue, _, _, _ => run_operand_number digits
  | _, .group opening inner closing, depth, n, queue, hn, hfits, _ => by
    obtain ⟨hdepth, hinner⟩ := Derivation.fits_group.mp hfits
    simp only [Derivation.tokens, List.length_cons, List.length_append, List.length_nil] at hn
    obtain ⟨m, rfl⟩ : ∃ m, n = m + 1 := ⟨n - 1, by omega⟩
    have ih := inner.run_reader m (closing.token :: queue) (by omega) hinner
      closing.halts_expression
    simp only [Derivation.tokens, List.cons_append, List.append_assoc, List.nil_append]
    rw [reader, run_operand_group opening hdepth, closeGroup, nested_succ, run_bind,
      show assignment (nested refuse m) = reader (nested refuse m) .expression from rfl, ih]
    dsimp only
    have hclosing : closing.token.kind = Wanted.groupEnd.kind := closing.kind_eq
    rw [run_bind, run_require_of_eq hclosing]
    rfl
  | _, .chain first rest, depth, n, queue, hn, hfits, hqueue => by
    obtain ⟨hfirst, hrest⟩ := Derivation.fits_chain.mp hfits
    simp only [Derivation.tokens, List.length_append] at hn
    have ih := first.run_reader n (rest.tokens ++ queue) (by omega) hfirst (rest.halts_item hqueue)
    rw [reader_item] at ih
    simp only [Derivation.tokens, List.append_assoc]
    rw [reader, chain, run_bind, ih]
    exact rest.chainFrom_reads first.tree 0 n queue (by omega) hrest hqueue
  | _, .sum s, depth, n, queue, hn, hfits, hqueue => by
    have ih := s.run_reader n queue hn (Derivation.fits_sum.mp hfits) (halts_expression hqueue)
    rw [reader, assignment_eq, run_bind, Derivation.tokens, ih]
    exact run_assignmentRest_of_ne s.tree (Halts.kind_ne_equals hqueue)
  | _, .assign target sign value, depth, n, queue, hn, hfits, hqueue => by
    obtain ⟨htarget, hdepth, hvalue⟩ := Derivation.fits_assign.mp hfits
    simp only [Derivation.tokens, List.length_append, List.length_cons] at hn
    obtain ⟨m, rfl⟩ : ∃ m, n = m + 1 := ⟨n - 1, by omega⟩
    have iht := target.run_reader (m + 1) (sign.token :: (value.tokens ++ queue)) (by omega) htarget
      sign.halts_chain
    have ihv := value.run_reader m queue (by omega) hvalue hqueue
    simp only [Derivation.tokens, List.append_assoc, List.cons_append]
    rw [reader, assignment_eq, run_bind, iht]
    dsimp only
    rw [run_assignmentRest_sign target.tree sign hdepth, run_bind, nested_succ,
      show assignment (nested refuse m) = reader (nested refuse m) .expression from rfl, ihv]
    rfl

/-- Going on with a chain takes all its links, joins them on the right and gives their depth
    back. -/
theorem Links.chainFrom_reads :
    ∀ {level : Operator.Level} (links : Links level) (left : Expr) (folded : Nat)
      {depth : Nat} (n : Nat) (queue : List Token),
      links.tokens.length ≤ n → links.Fits depth → Halts (.chain level) queue →
      chainFrom (itemReader (nested refuse n) level) level left folded
          ⟨links.tokens ++ queue, last, depth, hl⟩ =
        .ok (links.fold left) ⟨queue, last, depth - folded, hl⟩
  | _, .nil, left, folded, depth, n, queue, _, _, hqueue =>
    chainFrom_of_not_joins left folded (Halts.not_joins hqueue)
  | _, .cons joint item rest, left, folded, depth, n, queue, hn, hfits, hqueue => by
    obtain ⟨hdepth, hitem, hrest⟩ := Links.fits_cons.mp hfits
    simp only [Links.tokens, List.length_cons, List.length_append] at hn
    have ihi := item.run_reader n (rest.tokens ++ queue) (by omega) hitem (rest.halts_item hqueue)
    have ihr := rest.chainFrom_reads (left.join joint.operator item.tree) (folded + 1) n queue
      (by omega) hrest hqueue
    rw [reader_item, ← run_operatorThen joint hdepth] at ihi
    simp only [Links.tokens, List.cons_append, List.append_assoc]
    rw [chainFrom_of_ok left folded joint rfl ihi, ihr, Nat.add_sub_add_right]
    rfl

end

end Run

/-- Reading an expression takes its tokens and yields its tree. -/
theorem Derivation.run_expression (D : Derivation .expression) {depth : Nat}
    {queue : List Token} (hfits : D.Fits depth) (hqueue : Halts .expression queue) :
    expression.run ⟨D.tokens ++ queue, last, depth, hl⟩ = .ok D.tree ⟨queue, last, depth, hl⟩ := by
  rw [Phrase.run_expression]
  exact D.run_reader last hl _ queue (by simp) hfits hqueue

/-! ## Reading statements -/

/-- What is left of a declaration once its name has been read. -/
def Phrase.declarationRest (word name : Token) : Reader Statement := do
  let t ← peek
  if t.kind = .semicolon then do
    let semicolon ← next
    let span := word.span.hull semicolon.span
    if word.kind = .constWord then fail (.valueMissing name.text span)
    else pure (.declare name.text false none span)
  else do
    let _ ← require .declaredEquals
    let value ← expression
    let semicolon ← require .declaredEnd
    pure (.declare name.text (word.kind = .constWord) (some value)
      (word.span.hull semicolon.span))

theorem Phrase.run_declaration (word : Declarer) {depth : Nat} {queue : List Token} :
    statement.run ⟨word.token :: queue, last, depth, hl⟩ =
      (require (.declaredName word.token.text) >>= declarationRest word.token).run
        ⟨queue, last, depth, hl⟩ := by
  have hne : word.token.kind ≠ .endOfFile := by rcases word.kind_eq with h | h <;> simp [h]
  have hstatement : statement.run ⟨word.token :: queue, last, depth, hl⟩ =
      declaration.run ⟨word.token :: queue, last, depth, hl⟩ := by
    rcases word.kind_eq with h | h <;>
      simp only [statement, run_bind, run_peek, Cursor.token, List.headD_cons, h]
  rw [hstatement, declaration, run_next_bind _ hne]
  simp only [decide_eq_true_eq]
  rfl

theorem Phrase.run_declarationRest_semicolon (word name : Token) (semicolon : Terminal .semicolon)
    {depth : Nat} {queue : List Token} :
    (declarationRest word name).run ⟨semicolon.token :: queue, last, depth, hl⟩ =
      if word.kind = .constWord then
        .error (.valueMissing name.text (word.span.hull semicolon.token.span))
          ⟨queue, last, depth, hl⟩
      else
        .ok (.declare name.text false none (word.span.hull semicolon.token.span))
          ⟨queue, last, depth, hl⟩ := by
  simp only [declarationRest, run_bind (p := peek), run_peek, Cursor.token, List.headD_cons,
    semicolon.kind_eq, if_true]
  rw [run_next_bind _ (by simp [semicolon.kind_eq])]
  split <;> rfl

/-- What is left of a declaration once its equals sign has been read. -/
def Phrase.valueRest (word name : Token) : Reader Statement := do
  let value ← expression
  let semicolon ← require .declaredEnd
  pure (.declare name.text (word.kind = .constWord) (some value) (word.span.hull semicolon.span))

theorem Phrase.run_declarationRest_sign (word name : Token) (sign : Terminal .equals)
    {depth : Nat} {queue : List Token} :
    (declarationRest word name).run ⟨sign.token :: queue, last, depth, hl⟩ =
      (valueRest word name).run ⟨queue, last, depth, hl⟩ := by
  simp only [declarationRest, run_bind (p := peek), run_peek, Cursor.token, List.headD_cons,
    sign.kind_eq]
  rw [if_neg (by decide), run_bind,
    run_require_of_eq (show sign.token.kind = Wanted.declaredEquals.kind from sign.kind_eq)]
  rfl

theorem Phrase.run_declarationRest_of_ne (word name : Token) {c : Cursor}
    (h₁ : c.token.kind ≠ .semicolon) (h₂ : c.token.kind ≠ .equals) :
    (declarationRest word name).run c = .error (.unexpected .declaredEquals c.token) c := by
  simp only [declarationRest, run_bind (p := peek), run_peek, if_neg h₁]
  rw [run_bind, run_require_of_ne (show c.token.kind ≠ Wanted.declaredEquals.kind from h₂)]

theorem Phrase.run_statement_express {c : Cursor} (h₁ : c.token.kind ≠ .letWord)
    (h₂ : c.token.kind ≠ .constWord) : statement.run c = expressionStatement.run c := by
  simp only [statement, run_bind, run_peek]

theorem Phrase.run_expressionStatement_of_ne {c rest : Cursor} {e : Expr}
    (h : expression.run c = .ok e rest) (hne : rest.token.kind ≠ .semicolon) :
    expressionStatement.run c = .ok (.expression e e.span) rest := by
  rw [expressionStatement, run_bind, h]
  simp only [run_bind, run_peek, if_neg hne, run_pure]

theorem Phrase.run_expressionStatement_semicolon {c : Cursor} {e : Expr} {depth : Nat}
    {queue : List Token} (semicolon : Terminal .semicolon)
    (h : expression.run c = .ok e ⟨semicolon.token :: queue, last, depth, hl⟩) :
    expressionStatement.run c =
      .ok (.expression e (e.span.hull semicolon.token.span)) ⟨queue, last, depth, hl⟩ := by
  rw [expressionStatement, run_bind, h]
  simp only [run_bind (p := peek), run_peek, Cursor.token, List.headD_cons, semicolon.kind_eq,
    if_true]
  rw [run_next_bind _ (by simp [semicolon.kind_eq])]
  rfl

theorem Sentence.EndsBefore.kind_ne_semicolon {e : Derivation .expression} {c : Cursor}
    (h : (Sentence.express e none).EndsBefore c.queue) : c.token.kind ≠ .semicolon := by
  obtain ⟨queue, last, depth, hl⟩ := c
  cases queue with
  | nil => simp [Cursor.token, hl]
  | cons t queue => exact (h t rfl).2

/-- Reading a statement takes its tokens and yields its tree, whatever follows that does not go on
    with the statement. -/
theorem Sentence.run_statement (s : Sentence) {depth : Nat} {queue : List Token}
    (hfits : s.Fits depth) (hqueue : s.EndsBefore queue) :
    statement.run ⟨s.tokens ++ queue, last, depth, hl⟩ =
      .ok s.tree ⟨queue, last, depth, hl⟩ := by
  match s, hfits, hqueue with
  | .declare word name semicolon, _, _ =>
    simp only [tokens, List.cons_append, List.nil_append]
    rw [Phrase.run_declaration ⟨word.token, .inl word.kind_eq⟩, run_bind,
      run_require_of_eq name.kind_eq]
    dsimp only
    rw [Phrase.run_declarationRest_semicolon, if_neg (by simp [word.kind_eq])]
    rfl
  | .define word name sign value semicolon, hfits, _ =>
    simp only [tokens, List.cons_append, List.append_assoc, List.nil_append]
    rw [Phrase.run_declaration word, run_bind, run_require_of_eq name.kind_eq]
    dsimp only
    rw [Phrase.run_declarationRest_sign, Phrase.valueRest, run_bind,
      value.run_expression (fits_define.mp hfits) (halts_semicolon semicolon)]
    dsimp only
    rw [run_bind, run_require_of_eq
      (show semicolon.token.kind = Wanted.declaredEnd.kind from semicolon.kind_eq)]
    rfl
  | .express e semicolon, hfits, hqueue =>
    obtain ⟨t, rest, he, hopens⟩ := e.exists_tokens_eq_cons
    have hdeclares : t.kind ≠ .letWord ∧ t.kind ≠ .constWord := by
      rcases hopens with h | h | h <;> simp [h]
    obtain ⟨hlet, hconst⟩ := hdeclares
    cases semicolon with
    | none =>
      simp only [tokens]
      rw [Phrase.run_statement_express (by simpa [he, Cursor.token] using hlet)
        (by simpa [he, Cursor.token] using hconst)]
      exact Phrase.run_expressionStatement_of_ne
        (e.run_expression (fits_express.mp hfits) hqueue.halts)
        (Sentence.EndsBefore.kind_ne_semicolon hqueue)
    | some semicolon =>
      simp only [tokens, List.append_assoc, List.singleton_append]
      rw [Phrase.run_statement_express (by simpa [he, Cursor.token] using hlet)
        (by simpa [he, Cursor.token] using hconst)]
      exact Phrase.run_expressionStatement_semicolon semicolon
        (e.run_expression (fits_express.mp hfits) (halts_semicolon semicolon))

/-! ## Reading programs -/

/-- After a statement, reading goes on with what follows it. -/
theorem Sentence.statementsFrom_cons (s : Sentence) {depth : Nat} {queue : List Token}
    (hfits : s.Fits depth) (hqueue : s.EndsBefore queue) :
    statementsFrom ⟨s.tokens ++ queue, last, depth, hl⟩ =
      match statementsFrom ⟨queue, last, depth, hl⟩ with
      | .ok others rest => .ok (s.tree :: others) rest
      | .error e rest => .error e rest := by
  obtain ⟨t, rest, hs, -⟩ := s.exists_tokens_eq_cons
  have hne : t.kind ≠ .endOfFile := s.kind_ne_of_mem t (by simp [hs])
  rw [statementsFrom, if_neg (by simpa [Cursor.atEnd, Cursor.token, hs] using hne)]
  split
  next e mid h => rw [s.run_statement hfits hqueue] at h; cases h
  next first mid h => rw [s.run_statement hfits hqueue] at h; cases h; rfl

/-- No statement goes on with an end token. -/
theorem Sentence.endsBefore_of_atEnd (s : Sentence) {c : Cursor} (h : c.atEnd) :
    s.EndsBefore c.queue := by
  obtain ⟨queue, last, depth, hl⟩ := c
  cases queue with
  | nil => simp [EndsBefore]
  | cons t queue =>
    have ht : t.kind = .endOfFile := by simpa [Cursor.atEnd, Cursor.token] using h
    simpa [EndsBefore] using s.ends_of_kind_ne (by simp [ht]) (by simp [ht]) (by simp [ht])

/-- Reading statements in a row takes them all, up to an end token. -/
theorem Sentence.statementsFrom_yield {depth : Nat} {queue : List Token}
    (hend : Cursor.atEnd ⟨queue, last, depth, hl⟩) :
    ∀ sentences : List Sentence, (∀ s ∈ sentences, s.Fits depth) →
      statementsFrom ⟨yield sentences ++ queue, last, depth, hl⟩ =
        .ok (sentences.map tree) ⟨queue, last, depth, hl⟩
  | [], _ => by rw [statementsFrom, yield_nil, List.nil_append, if_pos hend]; rfl
  | s :: sentences, hfits => by
    have ih := statementsFrom_yield hend sentences fun x hx => hfits x (by simp [hx])
    have hnext := s.endsBefore_yield sentences (s.endsBefore_of_atEnd hend)
    rw [yield_cons, List.append_assoc, s.statementsFrom_cons (hfits s (by simp)) hnext, ih]
    rfl

end Derivations

end Quill
