import Quill.Proofs.Rereading

/-!
# Guarded reading

Reading takes for granted that there is always a token at hand, that it never comes up by more
levels than it went down, that its loops end and that expressions do not stand inside one another
without bound. Guarded reading takes the same steps and stops where one of these fails. Strict
guards watch over all four, and loose ones leave tokens and levels alone.

Guarded reading does what reading does as long as there are as many expressions allowed inside one
another as there are levels left and, for strict guards, an end token is to come. Where the two
agree is followed from step to step: a cursor stays safe, and behind a token that goes one level
deeper there are fewer tokens and fewer levels left.

* `Guarded.agrees_phrase`: the phrases of each rank, if inner expressions agree one level further
  in.
* `Guarded.agrees_nested`: expressions inside one another, for any supply of them.
* `Guarded.agrees_statement`, `Guarded.program_eq`: statements and programs.
* `Phrase.expression_eq_assignment`: reading an expression reads expressions inside it.
-/

namespace Quill

/-! ## Loops, one round at a time -/

namespace Phrase

open Reader

theorem chainRest_eq (item : Reader Expr) (level : Operator.Level) (left : Expr) (folded : Nat) :
    chainRest item level left folded =
      (do
        match ← look (·.operator? level) with
        | none => do
          leave folded
          pure left
        | some op => do
          let right ← operatorThen item
          chainRest item level (left.join op right) (folded + 1)) := by
  refine Reader.ext (funext fun c => ?_)
  show chainFrom item level left folded c = _
  rw [chainFrom, run_bind, run_look]
  dsimp only
  split
  next hop => rw [hop]; rfl
  next op hop =>
    rw [hop]
    dsimp only
    rw [run_bind]
    split
    next hrun => rw [hrun]; rfl
    next hrun => rw [hrun]

theorem levels_reader {inner : Reader Expr} (hinner : ∀ n, Levels n n inner) (rank : Rank)
    (n : Nat) : Levels n n (reader inner rank) := by
  have hoperand (m : Nat) : Levels m m (operand inner) := levels_operand hinner
  cases rank with
  | operand => exact hoperand n
  | chain level =>
    cases level with
    | multiplicative => exact levels_chain hoperand _
    | additive => exact levels_chain (fun _ => levels_chain hoperand _) _
  | expression => exact levels_assignment hinner

/-- The reader of the statements up to the end token. -/
def statements : Reader Program :=
  ⟨statementsFrom, fun c => (lands_statementsFrom (.refl c)).onward.suffix.length_le⟩

theorem statements_eq :
    statements =
      (do
        if ← look (·.atEnd) then pure []
        else do
          let first ← statement
          let others ← statements
          pure (first :: others)) := by
  refine Reader.ext (funext fun c => ?_)
  show statementsFrom c = _
  rw [statementsFrom, run_bind, run_look]
  dsimp only
  split
  next => rfl
  next =>
    rw [run_bind]
    split
    next hrun => rw [hrun]
    next first mid hrun =>
      rw [hrun]
      dsimp only
      rw [run_bind, show statements.run mid = statementsFrom mid from rfl]
      cases statementsFrom mid with
      | ok others rest => rfl
      | error e rest => rfl

end Phrase

/-! ## Guards -/

/-- What guarded reading stops at. -/
inductive Breach where
  /-- The token at hand is asked for and there is none. -/
  | noToken
  /-- More levels are given back than have been entered. -/
  | noLevel
  /-- An expression begins inside as many others as are allowed. -/
  | tooNested
  /-- A loop has gone round more often than there were tokens. -/
  | endless
deriving DecidableEq, Repr

/-- A reader under guard: it does to a cursor what a reader does, or it stops at a breach. -/
def Guarded (α : Type) : Type := Cursor → Except Breach (Reading α)

namespace Guarded

variable {α β : Type}

/-- Takes a step that needs no guard. -/
def free (p : Reader α) : Guarded α := fun c => .ok (p.run c)

/-- Stops. -/
def stop (breach : Breach) : Guarded α := fun _ => .error breach

/-- Goes on where a reading has not failed. -/
protected def bind (w : Guarded α) (f : α → Guarded β) : Guarded β := fun c =>
  match w c with
  | .ok (.ok a rest) => f a rest
  | .ok (.error e rest) => .ok (.error e rest)
  | .error breach => .error breach

instance : Monad Guarded where
  pure a := free (pure a)
  bind := Guarded.bind

section Steps

variable (strict : Bool)

/-- Takes a step that needs a token at hand. -/
def atToken (p : Reader α) : Guarded α := fun c =>
  if strict && c.queue.isEmpty then .error .noToken else .ok (p.run c)

/-- Comes back up some levels, if so many have been entered. -/
def leave (levels : Nat) : Guarded Unit := fun c =>
  if strict && decide (c.depth < levels) then .error .noLevel else .ok ((Reader.leave levels).run c)

/-! ## Phrases under guard -/

/-- Takes a token of the kind wanted. -/
def require (wanted : Wanted) : Guarded Token := do
  let t ← atToken strict Reader.peek
  if t.kind = wanted.kind then atToken strict Reader.next
  else free (Reader.fail (.unexpected wanted t))

/-- Takes a token that goes one level deeper, and then what is there. -/
def operatorThen (item : Guarded Expr) : Guarded Expr := do
  let t ← atToken strict Reader.next
  free (Reader.enter t.span)
  item

/-- What is left to do once a parenthesis has been opened. -/
def closeGroup (inner : Guarded Expr) : Guarded Expr := do
  let value ← inner
  let _ ← require strict .groupEnd
  leave strict 1
  pure value

/-- A name, a number, or what `inner` reads between parentheses. -/
def operand (inner : Guarded Expr) : Guarded Expr := do
  let t ← atToken strict Reader.peek
  match t.kind with
  | .identifier => do
    let word ← atToken strict Reader.next
    pure (.name word.text word.span)
  | .number => do
    let digits ← atToken strict Reader.next
    match Number.read? digits.text with
    | some value => pure (.number value digits.span)
    | none => free (Reader.fail (.badNumber digits.text digits.span))
  | .openParen => operatorThen strict (closeGroup strict inner)
  | _ => free (Reader.fail (.noOperand t))

/-- Goes on with a chain, with at most so many tests for an operator. -/
def chainFrom (item : Guarded Expr) (level : Operator.Level) : Nat → Expr → Nat → Guarded Expr
  | 0, _, _ => stop .endless
  | tests + 1, left, folded => do
    match ← atToken strict (Reader.look (·.operator? level)) with
    | none => do
      leave strict folded
      pure left
    | some op => do
      let right ← operatorThen strict item
      chainFrom item level tests (left.join op right) (folded + 1)

/-- Items joined by operators of one level. There is one test more than there are tokens. -/
def chain (item : Guarded Expr) (level : Operator.Level) : Guarded Expr := do
  let first ← item
  let tokens ← free (Reader.look (·.queue.length))
  chainFrom strict item level (tokens + 1) first 0

/-- Reads the rest of an expression, once its first sum has been read. -/
def assignmentRest (inner : Guarded Expr) (left : Expr) : Guarded Expr := do
  let t ← atToken strict Reader.peek
  if t.kind = .equals then
    operatorThen strict do
      let value ← inner
      leave strict 1
      pure (left.assigned value)
  else pure left

/-- The phrases of a rank, in which `inner` reads inner expressions. -/
def phrase (inner : Guarded Expr) : Rank → Guarded Expr
  | .operand => operand strict inner
  | .chain .multiplicative => chain strict (operand strict inner) .multiplicative
  | .chain .additive =>
    chain strict (chain strict (operand strict inner) .multiplicative) .additive
  | .expression => do
    let left ← chain strict (chain strict (operand strict inner) .multiplicative) .additive
    assignmentRest strict inner left

/-- An expression, with at most so many expressions standing inside one another, itself
    included. -/
def expression : Nat → Guarded Expr
  | 0 => stop .tooNested
  | limit + 1 => phrase strict (expression limit) .expression

/-- A declaration, at its first word. -/
def declaration (limit : Nat) : Guarded Statement := do
  let word ← atToken strict Reader.next
  let constant : Bool := word.kind = .constWord
  let name ← require strict (.declaredName word.text)
  let t ← atToken strict Reader.peek
  if t.kind = .semicolon then do
    let semicolon ← atToken strict Reader.next
    let span := word.span.hull semicolon.span
    if constant then free (Reader.fail (.valueMissing name.text span))
    else pure (.declare name.text false none span)
  else do
    let _ ← require strict .declaredEquals
    let value ← expression strict limit
    let semicolon ← require strict .declaredEnd
    pure (.declare name.text constant (some value) (word.span.hull semicolon.span))

/-- An expression on its own, with or without a semicolon. -/
def expressionStatement (limit : Nat) : Guarded Statement := do
  let e ← expression strict limit
  let t ← atToken strict Reader.peek
  if t.kind = .semicolon then do
    let semicolon ← atToken strict Reader.next
    pure (.expression e (e.span.hull semicolon.span))
  else pure (.expression e e.span)

/-- A statement. -/
def statement (limit : Nat) : Guarded Statement := do
  let t ← atToken strict Reader.peek
  match t.kind with
  | .letWord => declaration strict limit
  | .constWord => declaration strict limit
  | _ => expressionStatement strict limit

/-- Statements up to the end token, with at most so many tests for it. -/
def statementsFrom (limit : Nat) : Nat → Guarded Program
  | 0 => stop .endless
  | tests + 1 => do
    if ← atToken strict (Reader.look (·.atEnd)) then pure []
    else do
      let first ← statement strict limit
      let others ← statementsFrom limit tests
      pure (first :: others)

/-- The statements from a cursor up to its end token. -/
def program (limit : Nat) : Guarded Program := fun c =>
  statementsFrom strict limit (c.queue.length + 1) c

end Steps

/-! ## Where guarded reading and reading agree -/

/-- Guarded reading does to a cursor what reading does. -/
def Follows (w : Guarded α) (p : Reader α) (c : Cursor) : Prop := w c = .ok (p.run c)

/-- A cursor that reading is safe at: not above some level, with no more than so many tokens to come
    and, if guards are strict, with an end token among them. -/
structure Safe (strict : Bool) (floor size : Nat) (c : Cursor) : Prop where
  closed : strict = true → Closed c.queue
  floor_le : floor ≤ c.depth
  length_le : c.queue.length ≤ size

/-- Guarded reading does what reading does from every safe cursor. -/
def Agrees (strict : Bool) (floor size : Nat) (w : Guarded α) (p : Reader α) : Prop :=
  ∀ c, Safe strict floor size c → Follows w p c

/-- Guarded reading does what reading does from every cursor that is safe one level further in,
    behind a token and within the deepest level. -/
def AgreesInside (strict : Bool) (floor size : Nat) (w : Guarded α) (p : Reader α) : Prop :=
  ∀ c, Safe strict (floor + 1) size c → c.queue.length < size → c.depth ≤ maxDepth → Follows w p c

section Agreement

open Reader (Levels levels_peek levels_next levels_pure levels_fail)

variable {strict : Bool} {floor size : Nat} {c : Cursor} {w : Guarded α} {p : Reader α}
  {v : α → Guarded β} {f : α → Reader β}

theorem Follows.bind (h : Follows w p c)
    (hnext : ∀ a rest, p.run c = .ok a rest → Follows (v a) (f a) rest) :
    Follows (w >>= v) (p >>= f) c := by
  show Guarded.bind w v c = _
  unfold Guarded.bind
  rw [show w c = _ from h, Reader.run_bind]
  cases hrun : p.run c with
  | ok a rest => exact hnext a rest hrun
  | error e rest => rfl

/-- Some levels below a safe cursor is one that is safe there. -/
theorem Safe.of_below {n : Nat} {rest : Cursor} (hsafe : Safe strict floor size c)
    (hbelow : c.Below n rest) : Safe strict (floor + n) size rest := by
  have hdepth := hbelow.depth_eq
  have hfloor := hsafe.floor_le
  exact ⟨fun hstrict => hbelow.closed (hsafe.closed hstrict), by omega,
    Nat.le_trans hbelow.suffix.length_le hsafe.length_le⟩

/-- A reader that comes back to the level it began at leaves a safe cursor. -/
theorem Safe.of_run (hsafe : Safe strict floor size c) (hlevels : Levels 0 0 p) {a : α}
    {rest : Cursor} (hrun : p.run c = .ok a rest) : Safe strict floor size rest :=
  hsafe.of_below ((hlevels c c (.refl c)).below hrun)

theorem Agrees.mono {floor' : Nat} (h : Agrees strict floor size w p) (hfloor : floor ≤ floor') :
    Agrees strict floor' size w p := fun c hsafe =>
  h c ⟨hsafe.closed, Nat.le_trans hfloor hsafe.floor_le, hsafe.length_le⟩

theorem Agrees.inside (h : Agrees strict floor size w p) : AgreesInside strict floor size w p :=
  fun c hsafe _ _ => h.mono (Nat.le_succ floor) c hsafe

theorem Agrees.bind (h : Agrees strict floor size w p) (hlevels : Levels 0 0 p)
    (hnext : ∀ a, Agrees strict floor size (v a) (f a)) :
    Agrees strict floor size (w >>= v) (p >>= f) :=
  fun c hsafe => (h c hsafe).bind fun a rest hrun => hnext a rest (hsafe.of_run hlevels hrun)

theorem agrees_free (p : Reader α) : Agrees strict floor size (free p) p := fun _ _ => rfl

theorem agrees_pure (a : α) : Agrees strict floor size (pure a) (pure a) := fun _ _ => rfl

theorem agrees_atToken (p : Reader α) : Agrees strict floor size (atToken strict p) p := by
  intro c hsafe
  refine if_neg ?_
  rw [Bool.and_eq_true, List.isEmpty_iff]
  rintro ⟨hstrict, hempty⟩
  obtain ⟨t, rest, hqueue⟩ := (hsafe.closed hstrict).exists_cons
  rw [hempty] at hqueue
  cases hqueue

/-- So many levels as a cursor is down may be given back. -/
theorem agrees_leave {levels : Nat} (h : levels ≤ floor) (a : α) :
    Agrees strict floor size (do leave strict levels; pure a)
      (do Reader.leave levels; pure a) := by
  intro c hsafe
  have hleave : Follows (leave strict levels) (Reader.leave levels) c := by
    refine if_neg ?_
    rw [Bool.and_eq_true, decide_eq_true_eq]
    rintro ⟨-, hless⟩
    have hfloor := hsafe.floor_le
    omega
  exact hleave.bind fun _ _ _ => rfl

theorem agrees_require (wanted : Wanted) :
    Agrees strict floor size (require strict wanted) (Phrase.require wanted) := by
  refine (agrees_atToken _).bind levels_peek fun t => ?_
  split
  · exact agrees_atToken _
  · exact agrees_free _

/-! ### Phrases -/

section Phrases

variable {level : Operator.Level} {inner item : Guarded Expr} {inner' item' : Reader Expr}

/-- What goes one level deeper is read behind a token and within the deepest level. -/
theorem follows_operatorThen (h : AgreesInside strict floor size item item')
    (hsafe : Safe strict floor size c) (hne : c.token.kind ≠ .endOfFile) :
    Follows (operatorThen strict item) (Phrase.operatorThen item') c := by
  refine (agrees_atToken _ c hsafe).bind fun t rest hnext => ?_
  cases hnext
  have hfree : Follows (free (Reader.enter c.token.span)) (Reader.enter c.token.span) c.advance :=
    rfl
  refine hfree.bind fun _ below henter => ?_
  rw [Reader.run_enter] at henter
  split at henter
  next => cases henter
  next hdepth =>
    cases henter
    have hbelow := (Cursor.Below.refl c).enter hne
    have hlength := Nat.lt_of_lt_of_le (Cursor.advance_length_lt hne) hsafe.length_le
    exact h _ (hsafe.of_below hbelow) hlength (Nat.not_lt.mp hdepth)

theorem inside_closeGroup (h : AgreesInside strict floor size inner inner')
    (hlevels : ∀ n, Levels n n inner') :
    AgreesInside strict floor size (closeGroup strict inner) (Phrase.closeGroup inner') := by
  intro c hsafe hlength hdepth
  refine (h c hsafe hlength hdepth).bind fun value rest hrun => ?_
  have hrest := hsafe.of_run (hlevels 0) hrun
  exact (agrees_require _).bind (Phrase.levels_require _)
    (fun _ => agrees_leave (Nat.le_add_left 1 floor) value) rest hrest

theorem agrees_operand (h : AgreesInside strict floor size inner inner')
    (hlevels : ∀ n, Levels n n inner') :
    Agrees strict floor size (operand strict inner) (Phrase.operand inner') := by
  intro c hsafe
  refine (agrees_atToken _ c hsafe).bind fun t rest hpeek => ?_
  cases hpeek
  cases hk : c.token.kind with
  | identifier => exact (agrees_atToken _).bind levels_next (fun _ => agrees_pure _) c hsafe
  | number =>
    refine (agrees_atToken _).bind levels_next (fun digits => ?_) c hsafe
    cases Number.read? digits.text with
    | some value => exact agrees_pure _
    | none => exact agrees_free _
  | openParen => exact follows_operatorThen (inside_closeGroup h hlevels) hsafe (by simp [hk])
  | _ => exact agrees_free _ c hsafe

/-- Every round of a chain takes an operator, so there are fewer rounds than tokens. The induction
    is on the tests that are left; the level that the chain began at is `folded` levels up. -/
theorem follows_chainFrom (hitem : Agrees strict floor size item item')
    (hlevels : ∀ n, Levels n n item') (tests : Nat) (left : Expr) (folded : Nat) (c : Cursor)
    (hsafe : Safe strict (floor + folded) size c) (htests : c.queue.length < tests) :
    Follows (chainFrom strict item level tests left folded)
      (Phrase.chainRest item' level left folded) c := by
  induction tests generalizing left folded c with
  | zero => omega
  | succ tests ih =>
    rw [Phrase.chainRest_eq]
    refine (agrees_atToken _ c hsafe).bind fun found rest hlook => ?_
    cases hlook
    dsimp only
    cases hop : c.operator? level with
    | none => exact agrees_leave (Nat.le_add_left folded floor) left c hsafe
    | some op =>
      have hne := Cursor.kind_ne_of_operator? hop
      have hinside := (hitem.mono (Nat.le_add_right floor folded)).inside
      refine (follows_operatorThen hinside hsafe hne).bind fun right rest hrun => ?_
      have hbelow := (Phrase.lands_operatorThen (hlevels 1) (.refl c) hne).below hrun
      have hlength := Phrase.operatorThen_length_lt item' hop
      rw [hrun, Reading.rest_ok] at hlength
      exact ih _ (folded + 1) rest (hsafe.of_below hbelow) (by omega)

theorem agrees_chain (hitem : Agrees strict floor size item item')
    (hlevels : ∀ n, Levels n n item') (level : Operator.Level) :
    Agrees strict floor size (chain strict item level) (Phrase.chain item' level) :=
  hitem.bind (hlevels 0) fun first c hsafe =>
    follows_chainFrom hitem hlevels _ first 0 c hsafe (Nat.lt_succ_self _)

theorem agrees_assignmentRest (h : AgreesInside strict floor size inner inner')
    (hlevels : ∀ n, Levels n n inner') (left : Expr) :
    Agrees strict floor size (assignmentRest strict inner left)
      (Phrase.assignmentRest inner' left) := by
  intro c hsafe
  refine (agrees_atToken _ c hsafe).bind fun t rest hpeek => ?_
  cases hpeek
  split
  next hk =>
    have hvalue : AgreesInside strict floor size
        (do let value ← inner; leave strict 1; pure (left.assigned value))
        (do let value ← inner'; Reader.leave 1; pure (left.assigned value)) :=
      fun d hd hlength hdepth => (h d hd hlength hdepth).bind fun value rest hrun =>
        agrees_leave (Nat.le_add_left 1 floor) (left.assigned value) rest
          (hd.of_run (hlevels 0) hrun)
    exact follows_operatorThen hvalue hsafe (by simp [hk])
  next => exact agrees_pure left c hsafe

/-- The phrases of each rank, if inner expressions agree one level further in. -/
theorem agrees_phrase (h : AgreesInside strict floor size inner inner')
    (hlevels : ∀ n, Levels n n inner') (rank : Rank) :
    Agrees strict floor size (phrase strict inner rank) (Phrase.reader inner' rank) := by
  have hoperand := agrees_operand h hlevels
  have hproduct := agrees_chain hoperand (Phrase.levels_reader hlevels .operand) .multiplicative
  have hproducts := Phrase.levels_reader hlevels (.chain .multiplicative)
  have hsum := agrees_chain hproduct hproducts .additive
  cases rank with
  | operand => exact hoperand
  | chain level =>
    cases level with
    | multiplicative => exact hproduct
    | additive => exact hsum
  | expression =>
    exact hsum.bind (Phrase.levels_chain hproducts _) (agrees_assignmentRest h hlevels)

end Phrases

/-! ### Expressions inside one another -/

/-- Each expression inside another one is a level further down and behind one more token. So the
    expressions that are allowed last as long as the levels do, and the supply that reading has of
    them lasts as long as the tokens. -/
theorem agrees_nested {limit fuel : Nat} (hlimit : 0 < limit) (hdeep : maxDepth < floor + limit)
    (hfuel : size < fuel) :
    Agrees strict floor size (expression strict limit) (Phrase.nested Phrase.refuse fuel) := by
  induction limit generalizing floor size fuel with
  | zero => omega
  | succ limit ih =>
    obtain ⟨fuel, rfl⟩ : ∃ n, fuel = n + 1 := ⟨fuel - 1, by omega⟩
    refine agrees_phrase (fun c hsafe hlength hdepth => ?_) (Phrase.levels_nested fuel) .expression
    have hfloor := hsafe.floor_le
    exact ih (by omega) (by omega) (by omega) c ⟨hsafe.closed, hfloor, Nat.le_sub_one_of_lt hlength⟩

theorem agrees_expression {limit : Nat} (hlimit : 0 < limit) (hdeep : maxDepth < floor + limit) :
    Agrees strict floor size (expression strict limit) Phrase.expression := by
  intro c hsafe
  exact agrees_nested hlimit hdeep (Nat.lt_succ_self c.queue.length) c
    ⟨hsafe.closed, hsafe.floor_le, Nat.le_refl _⟩

/-! ### Statements and programs -/

section Statements

variable {limit : Nat} (hlimit : 0 < limit) (hdeep : maxDepth < floor + limit)

include hlimit hdeep

theorem agrees_declaration :
    Agrees strict floor size (declaration strict limit) Phrase.declaration := by
  refine (agrees_atToken _).bind levels_next fun word => ?_
  refine (agrees_require _).bind (Phrase.levels_require _) fun name => ?_
  refine (agrees_atToken _).bind levels_peek fun t => ?_
  split
  · refine (agrees_atToken _).bind levels_next fun semicolon => ?_
    dsimp only
    split
    · exact agrees_free _
    · exact agrees_pure _
  · exact (agrees_require _).bind (Phrase.levels_require _) fun _ =>
      (agrees_expression hlimit hdeep).bind Phrase.levels_expression fun _ =>
        (agrees_require _).bind (Phrase.levels_require _) fun _ => agrees_pure _

theorem agrees_expressionStatement :
    Agrees strict floor size (expressionStatement strict limit) Phrase.expressionStatement := by
  refine (agrees_expression hlimit hdeep).bind Phrase.levels_expression fun e => ?_
  refine (agrees_atToken _).bind levels_peek fun t => ?_
  split
  · exact (agrees_atToken _).bind levels_next fun _ => agrees_pure _
  · exact agrees_pure _

theorem agrees_statement :
    Agrees strict floor size (statement strict limit) Phrase.statement := by
  refine (agrees_atToken _).bind levels_peek fun t => ?_
  cases t.kind with
  | letWord => exact agrees_declaration hlimit hdeep
  | constWord => exact agrees_declaration hlimit hdeep
  | _ => exact agrees_expressionStatement hlimit hdeep

/-- Every statement takes a token, so there are fewer statements than tests. The induction is on the
    tests that are left. -/
theorem follows_statementsFrom (tests : Nat) (c : Cursor) (hsafe : Safe strict floor size c)
    (htests : c.queue.length < tests) :
    Follows (statementsFrom strict limit tests) Phrase.statements c := by
  induction tests generalizing c with
  | zero => omega
  | succ tests ih =>
    rw [Phrase.statements_eq]
    refine (agrees_atToken _ c hsafe).bind fun atEnd rest hlook => ?_
    cases hlook
    dsimp only
    split
    next => exact agrees_pure [] c hsafe
    next =>
      refine (agrees_statement hlimit hdeep c hsafe).bind fun first mid hrun => ?_
      have hlength := Phrase.consumes_statement c first mid hrun
      have hmid := hsafe.of_run Phrase.levels_statement hrun
      exact (ih mid hmid (by omega)).bind fun others rest _ => rfl

theorem program_eq (hsafe : Safe strict floor size c) :
    program strict limit c = .ok c.readProgram :=
  follows_statementsFrom hlimit hdeep _ c hsafe (Nat.lt_succ_self _)

end Statements

end Agreement

end Guarded

/-- Reading an expression reads expressions inside it: it never runs out of them. -/
theorem Phrase.expression_eq_assignment : expression = assignment expression := by
  refine Reader.ext (funext fun c => ?_)
  have hsafe : Guarded.Safe false 0 c.queue.length c :=
    ⟨nofun, Nat.zero_le _, Nat.le_refl _⟩
  have houter : Guarded.Follows (Guarded.expression false (maxDepth + 2)) expression c :=
    Guarded.agrees_expression (by omega) (by omega) c hsafe
  have hinner : Guarded.Agrees false 0 c.queue.length (Guarded.expression false (maxDepth + 1))
      expression :=
    Guarded.agrees_expression (by omega) (by omega)
  have hfollows := Guarded.agrees_phrase hinner.inside (fun _ => levels_expression) .expression c
    hsafe
  exact Except.ok.inj (Eq.trans (Eq.symm houter) hfollows)

end Quill
