import Mathlib.Logic.Function.Iterate
import Quill.Proofs.Acceptance

/-!
# Reading again

A cursor that a reading has left can be read from again. After a failure tokens are gone and the
depth is raised, so later readings start where no first reading does. Still every level of depth has
been paid for with a token, and this carries through any number of readings: each of them takes
tokens or leaves the cursor as it was, and then all later ones do the same.

* `Reader.Levels`: how far a reader goes down, wherever it starts.
* `Cursor.lands_readProgram`: what one reading does to its cursor.
* `Cursor.resumed_fixed`: after as many readings as there are tokens nothing changes.
* `repeated_readings_settle`: all of it, for any number of readings of some tokens.
-/

namespace Quill

/-! ## Later cursors -/

namespace Cursor

/-- A cursor comes after another: tokens have been taken, none of them an end token, and for each
    level that was entered at least one. -/
structure Onward (base c : Cursor) : Prop where
  exists_taken : ∃ taken, base.queue = taken ++ c.queue ∧ ∀ t ∈ taken, t.kind ≠ .endOfFile
  last_eq : c.last = base.last
  paid : c.depth + c.queue.length ≤ base.depth + base.queue.length

/-- A cursor comes after another and is `n` levels below it. -/
structure Below (base : Cursor) (n : Nat) (c : Cursor) : Prop extends Onward base c where
  depth_eq : c.depth = base.depth + n

variable {base c d : Cursor} {n : Nat}

theorem Onward.refl (c : Cursor) : c.Onward c :=
  ⟨⟨[], rfl, by simp⟩, rfl, Nat.le_refl _⟩

theorem Onward.trans (h₁ : base.Onward c) (h₂ : c.Onward d) : base.Onward d := by
  obtain ⟨taken, hqueue, hkind⟩ := h₁.exists_taken
  obtain ⟨more, hmore, hkind'⟩ := h₂.exists_taken
  refine ⟨⟨taken ++ more, ?_, ?_⟩, h₂.last_eq.trans h₁.last_eq, Nat.le_trans h₂.paid h₁.paid⟩
  · rw [hqueue, hmore, List.append_assoc]
  · intro t ht
    rcases List.mem_append.mp ht with ht | ht
    · exact hkind t ht
    · exact hkind' t ht

theorem Below.refl (c : Cursor) : c.Below 0 c := ⟨.refl c, rfl⟩

theorem queue_eq_cons_of_ne (h : c.token.kind ≠ .endOfFile) :
    c.queue = c.token :: c.advance.queue := by
  have hadvance : c.advance.queue = c.queue.tail := by simp [advance, atEnd, h]
  rw [hadvance]
  cases hqueue : c.queue with
  | nil => exact absurd (by simpa [token, hqueue] using c.last_kind) h
  | cons t rest => simp [token, hqueue]

theorem last_advance (c : Cursor) : c.advance.last = c.last := by
  unfold advance
  split <;> rfl

theorem depth_advance (c : Cursor) : c.advance.depth = c.depth := by
  unfold advance
  split <;> rfl

theorem onward_advance (c : Cursor) : c.Onward c.advance := by
  by_cases h : c.token.kind = .endOfFile
  · have hsame : c.advance = c := by simp [advance, atEnd, h]
    rw [hsame]
    exact .refl c
  · have hqueue := queue_eq_cons_of_ne h
    refine ⟨⟨[c.token], hqueue, by simpa using h⟩, c.last_advance, ?_⟩
    have hlength := congrArg List.length hqueue
    have hdepth := c.depth_advance
    rw [List.length_cons] at hlength
    omega

theorem Below.advance (h : base.Below n c) : base.Below n c.advance :=
  ⟨h.toOnward.trans c.onward_advance, c.depth_advance.trans h.depth_eq⟩

/-- A token that is taken pays for one level. -/
theorem Below.enter (h : base.Below n c) (hne : c.token.kind ≠ .endOfFile) :
    base.Below (n + 1) { c.advance with depth := c.advance.depth + 1 } := by
  have hadvance := h.advance
  have hlength := advance_length_lt hne
  have hpaid := h.paid
  have hdepth := c.depth_advance
  refine ⟨⟨hadvance.exists_taken, hadvance.last_eq, ?_⟩, ?_⟩
  · show c.advance.depth + 1 + c.advance.queue.length ≤ _
    omega
  · show c.advance.depth + 1 = _
    rw [hadvance.depth_eq, Nat.add_assoc]

/-- Levels may be given back. -/
theorem Below.leave {m : Nat} (h : base.Below (n + m) c) :
    base.Below n { c with depth := c.depth - m } := by
  have hpaid := h.paid
  have hdepth := h.depth_eq
  refine ⟨⟨h.exists_taken, h.last_eq, ?_⟩, ?_⟩
  · show c.depth - m + c.queue.length ≤ _
    omega
  · show c.depth - m = _
    omega

/-- Where no token was taken and the depth is not lower, nothing has changed. -/
theorem Onward.eq_of_queue_eq (h : base.Onward c) (hqueue : c.queue = base.queue)
    (hdepth : base.depth ≤ c.depth) : c = base := by
  have hpaid := h.paid
  rw [hqueue] at hpaid
  obtain ⟨queue, last, depth, hl⟩ := base
  obtain ⟨queue', last', depth', hl'⟩ := c
  obtain rfl : queue' = queue := hqueue
  obtain rfl : last' = last := h.last_eq
  obtain rfl : depth' = depth := by
    dsimp only at hdepth hpaid
    omega
  rfl

end Cursor

/-! ## Readers -/

/-- Where a reading ends: on success `n` levels below some cursor before it, on failure not above
    that cursor. -/
inductive Reading.Lands {α : Type} (base : Cursor) (n : Nat) : Reading α → Prop
  | ok {a : α} {rest : Cursor} (h : base.Below n rest) : Lands base n (.ok a rest)
  | error {e : Fault} {rest : Cursor} (h : base.Onward rest) (hdepth : base.depth ≤ rest.depth) :
      Lands base n (.error e rest)

namespace Reading.Lands

variable {α β : Type} {base rest : Cursor} {n : Nat} {r : Reading α}

theorem below {a : α} (h : r.Lands base n) (hr : r = .ok a rest) : base.Below n rest := by
  subst hr
  cases h with
  | ok hrest => exact hrest

theorem onward (h : r.Lands base n) : base.Onward r.rest := by
  cases h with
  | ok hrest => exact hrest.toOnward
  | error hrest => exact hrest

theorem depth_le (h : r.Lands base n) : base.depth ≤ r.rest.depth := by
  cases h with
  | ok hrest =>
    have hdepth := hrest.depth_eq
    rw [Reading.rest_ok]
    omega
  | error _ hdepth => exact hdepth

/-- Whatever is read after a failure, the failure stays. -/
theorem failed {e : Fault} {k : Nat} (h : r.Lands base n) (hr : r = .error e rest) :
    (.error e rest : Reading β).Lands base k := by
  subst hr
  cases h with
  | error hrest hdepth => exact .error hrest hdepth

end Reading.Lands

namespace Reader

variable {α β : Type} {m n k : Nat}

/-- Started `m` levels below any cursor before it, a reader succeeds `n` levels below that cursor,
    or fails not above it. -/
def Levels (m n : Nat) (p : Reader α) : Prop :=
  ∀ base c, Cursor.Below base m c → (p.run c).Lands base n

theorem levels_pure (a : α) : Levels n n (pure a : Reader α) := fun _ _ h => .ok h

theorem levels_fail (e : Fault) : Levels m n (fail e : Reader α) := by
  intro base c h
  exact .error h.toOnward (by rw [h.depth_eq]; omega)

theorem levels_peek : Levels n n peek := fun _ _ h => .ok h

theorem levels_next : Levels n n next := fun _ _ h => .ok h.advance

theorem levels_leave : Levels (n + m) n (leave m) := fun _ _ h => .ok h.leave

theorem Levels.bind {p : Reader α} {f : α → Reader β} (hp : Levels m k p)
    (hf : ∀ a, Levels k n (f a)) : Levels m n (p >>= f) := by
  intro base c h
  have hlands := hp base c h
  rw [run_bind]
  cases hrun : p.run c with
  | ok a rest => exact hf a base rest (hlands.below hrun)
  | error e rest => exact hlands.failed hrun

end Reader

/-! ## Phrases -/

namespace Phrase

open Reader

variable {m n : Nat} {inner item : Reader Expr}

theorem levels_require (wanted : Wanted) : Levels n n (require wanted) := by
  refine levels_peek.bind fun t => ?_
  split
  · exact levels_next
  · exact levels_fail _

/-- A token that goes one level deeper pays for that level. -/
theorem lands_operatorThen (hitem : Levels (m + 1) n item) {base c : Cursor}
    (h : base.Below m c) (hne : c.token.kind ≠ .endOfFile) :
    ((operatorThen item).run c).Lands base n := by
  rw [operatorThen, run_bind, run_next]
  dsimp only
  rw [run_bind, run_enter]
  have hbelow := h.enter hne
  by_cases hdeep : maxDepth < c.advance.depth + 1
  · rw [if_pos hdeep]
    exact .error hbelow.toOnward (by rw [hbelow.depth_eq]; omega)
  · rw [if_neg hdeep]
    exact hitem base _ hbelow

theorem levels_closeGroup (hinner : ∀ n, Levels n n inner) : Levels (n + 1) n (closeGroup inner) :=
  (hinner _).bind fun _ => (levels_require _).bind fun _ => levels_leave.bind fun _ => levels_pure _

theorem levels_operand (hinner : ∀ n, Levels n n inner) : Levels n n (operand inner) := by
  intro base c h
  simp only [operand, run_bind (p := peek), run_peek]
  split
  next => exact levels_next.bind (fun _ => levels_pure _) base c h
  next =>
    refine levels_next.bind (fun digits => ?_) base c h
    split
    · exact levels_pure _
    · exact levels_fail _
  next hk => exact lands_operatorThen (levels_closeGroup hinner) h (by simp [hk])
  next => exact levels_fail _ base c h

/-- A chain gives back the levels of all its operators. The induction is along the chain; `base` is
    where the chain began. -/
theorem lands_chainFrom (hitem : ∀ n, Levels n n item) (level : Operator.Level) (left : Expr)
    (folded : Nat) (c : Cursor) {base : Cursor} (h : base.Below (n + folded) c) :
    (chainFrom item level left folded c).Lands base n := by
  fun_induction chainFrom item level left folded c with
  | case1 left folded c hop => exact .ok h.leave
  | case2 left folded c op hop right rest hrun ih =>
    exact ih ((lands_operatorThen (hitem _) h (Cursor.kind_ne_of_operator? hop)).below hrun)
  | case3 left folded c op hop e rest hrun =>
    exact (lands_operatorThen (hitem _) h (Cursor.kind_ne_of_operator? hop)).failed hrun

theorem levels_chain (hitem : ∀ n, Levels n n item) (level : Operator.Level) :
    Levels n n (chain item level) :=
  (hitem n).bind fun first _ c h => lands_chainFrom hitem level first 0 c h

theorem levels_assignmentRest (hinner : ∀ n, Levels n n inner) (left : Expr) :
    Levels n n (assignmentRest inner left) := by
  intro base c h
  simp only [assignmentRest, run_bind (p := peek), run_peek]
  split
  next hk =>
    have hvalue : Levels (n + 1) n
        (do let value ← inner; leave 1; pure (left.assigned value) : Reader Expr) :=
      (hinner _).bind fun _ => levels_leave.bind fun _ => levels_pure _
    exact lands_operatorThen hvalue h (by simp [hk])
  next => exact levels_pure _ base c h

theorem levels_assignment (hinner : ∀ n, Levels n n inner) : Levels n n (assignment inner) := by
  have hoperand : ∀ n, Levels n n (operand inner) := fun _ => levels_operand hinner
  have hproduct : ∀ n, Levels n n (chain (operand inner) .multiplicative) :=
    fun _ => levels_chain hoperand _
  rw [assignment_eq]
  exact (levels_chain hproduct _).bind fun left => levels_assignmentRest hinner left

theorem levels_nested (fuel : Nat) : ∀ n, Levels n n (nested refuse fuel) := by
  induction fuel with
  | zero => exact fun n => levels_peek.bind fun _ => levels_fail _
  | succ fuel ih => exact fun n => levels_assignment ih

theorem levels_expression : Levels n n expression := by
  intro base c h
  rw [run_expression]
  exact levels_assignment (levels_nested _) base c h

theorem levels_declaration : Levels n n declaration := by
  refine levels_next.bind fun word => (levels_require _).bind fun name => ?_
  refine levels_peek.bind fun t => ?_
  split
  · refine levels_next.bind fun semicolon => ?_
    dsimp only
    split
    · exact levels_fail _
    · exact levels_pure _
  · exact (levels_require _).bind fun _ => levels_expression.bind fun _ =>
      (levels_require _).bind fun _ => levels_pure _

theorem levels_expressionStatement : Levels n n expressionStatement := by
  refine levels_expression.bind fun e => levels_peek.bind fun t => ?_
  split
  · exact levels_next.bind fun _ => levels_pure _
  · exact levels_pure _

theorem levels_statement : Levels n n statement := by
  refine levels_peek.bind fun t => ?_
  split
  · exact levels_declaration
  · exact levels_declaration
  · exact levels_expressionStatement

theorem lands_statementsFrom {base c : Cursor} (h : base.Below n c) :
    (statementsFrom c).Lands base n := by
  fun_induction statementsFrom c with
  | case1 c hend => exact .ok h
  | case2 c hend e rest hrun => exact (levels_statement base c h).failed hrun
  | case3 c hend first mid hrun others rest hothers ih =>
    have hmid := (levels_statement base c h).below hrun
    exact .ok ((ih hmid).below hothers)
  | case4 c hend first mid hrun e rest hothers ih =>
    have hmid := (levels_statement base c h).below hrun
    exact (ih hmid).failed hothers

theorem atEnd_of_statementsFrom {c rest : Cursor} {p : Program}
    (h : statementsFrom c = .ok p rest) : rest.atEnd := by
  fun_induction statementsFrom c generalizing p with
  | case1 c hend =>
    cases h
    exact hend
  | case2 => cases h
  | case3 c hend first mid hrun others rest' hothers ih =>
    cases h
    exact ih hothers
  | case4 => cases h

end Phrase

/-! ## One reading -/

namespace Cursor

variable {c rest : Cursor}

/-- The next token is an end token. -/
def EndsNext (c : Cursor) : Prop := ∃ t ∈ c.queue.head?, t.kind = .endOfFile

theorem EndsNext.atEnd (h : c.EndsNext) : c.atEnd := by
  obtain ⟨t, ht, hk⟩ := h
  simp [Cursor.atEnd, token, List.headD_eq_head?_getD, Option.mem_def.mp ht, hk]

theorem endsNext_of_atEnd (hclosed : Closed c.queue) (h : c.atEnd) : c.EndsNext := by
  obtain ⟨t, queue, hqueue⟩ := hclosed.exists_cons
  exact ⟨t, by simp [hqueue], by simpa [Cursor.atEnd, token, hqueue] using h⟩

theorem Onward.closed (h : c.Onward rest) (hclosed : Closed c.queue) : Closed rest.queue := by
  obtain ⟨taken, hqueue, hkind⟩ := h.exists_taken
  rw [hqueue] at hclosed
  exact hclosed.of_append hkind

theorem Onward.suffix (h : c.Onward rest) : rest.queue <:+ c.queue := by
  obtain ⟨taken, hqueue, -⟩ := h.exists_taken
  exact ⟨taken, hqueue.symm⟩

/-- What is taken is taken from before the first end token. -/
theorem Onward.length_beforeEnd_lt (h : c.Onward rest) (hne : rest.queue ≠ c.queue) :
    (Token.beforeEnd rest.queue).length < (Token.beforeEnd c.queue).length := by
  obtain ⟨taken, hqueue, hkind⟩ := h.exists_taken
  have htaken : taken ≠ [] := by
    rintro rfl
    exact hne hqueue.symm
  have hlength := List.length_pos_iff.mpr htaken
  rw [hqueue, Token.beforeEnd_append hkind, List.length_append]
  omega

theorem lands_readProgram (c : Cursor) : c.readProgram.Lands c 0 :=
  Phrase.lands_statementsFrom (.refl c)

/-- A reading that takes no token changes nothing. -/
theorem readProgram_rest_eq (h : c.readProgram.rest.queue = c.queue) : c.readProgram.rest = c :=
  c.lands_readProgram.onward.eq_of_queue_eq h c.lands_readProgram.depth_le

theorem readProgram_of_atEnd (h : c.atEnd) : c.readProgram = .ok [] c := by
  rw [readProgram, Phrase.statementsFrom, if_pos h]

/-! ## Any number of readings -/

/-- The cursor after some readings. -/
def resumed (c : Cursor) (i : Nat) : Cursor := (fun d => d.readProgram.rest)^[i] c

theorem resumed_succ (c : Cursor) (i : Nat) :
    c.resumed (i + 1) = (c.resumed i).readProgram.rest :=
  Function.iterate_succ_apply' _ i c

theorem readRepeatedly_eq (c : Cursor) (n : Nat) :
    c.readRepeatedly n = (List.range n).map fun i => (c.resumed i).readProgram := by
  induction n generalizing c with
  | zero => rfl
  | succ n ih =>
    rw [readRepeatedly, ih, List.range_succ_eq_map, List.map_cons, List.map_map]
    rfl

theorem onward_resumed (c : Cursor) (i : Nat) : c.Onward (c.resumed i) := by
  induction i with
  | zero => exact .refl c
  | succ i ih =>
    rw [resumed_succ]
    exact ih.trans (lands_readProgram _).onward

/-- A reading that changes nothing is followed by readings that change nothing. -/
theorem resumed_of_fixed {i : Nat} (h : (c.resumed i).readProgram.rest = c.resumed i) :
    ∀ j, i ≤ j → c.resumed j = c.resumed i := by
  intro j hij
  obtain ⟨n, rfl⟩ := Nat.exists_eq_add_of_le hij
  induction n with
  | zero => rfl
  | succ n ih => rw [← Nat.add_assoc, resumed_succ, ih (by omega), h]

/-- After as many readings as there are tokens before the end nothing changes any more. Until then
    every reading takes a token, or nothing has changed before. -/
theorem resumed_fixed (hclosed : Closed c.queue) (n : Nat)
    (h : (Token.beforeEnd c.queue).length ≤ n) :
    (c.resumed n).readProgram.rest = c.resumed n := by
  induction n generalizing c with
  | zero =>
    obtain ⟨t, queue, hqueue, ht⟩ := hclosed.exists_beforeEnd
    have hnil : Token.beforeEnd c.queue = [] := List.eq_nil_of_length_eq_zero (Nat.le_zero.mp h)
    rw [hnil, List.nil_append] at hqueue
    have hend : c.atEnd := by simp [atEnd, token, hqueue, ht]
    show c.readProgram.rest = c
    rw [readProgram_of_atEnd hend, Reading.rest_ok]
  | succ n ih =>
    by_cases hsame : c.readProgram.rest.queue = c.queue
    · have hfixed : (c.resumed 0).readProgram.rest = c.resumed 0 := readProgram_rest_eq hsame
      have hall := resumed_of_fixed hfixed (n + 1) (Nat.zero_le _)
      rw [hall, hfixed]
    · have honward := c.lands_readProgram.onward
      have hlength := honward.length_beforeEnd_lt hsame
      have hle : (Token.beforeEnd c.readProgram.rest.queue).length ≤ n := by omega
      exact ih (honward.closed hclosed) hle

/-- From an end token on all readings succeed with nothing and change nothing. -/
theorem resumed_of_endsNext {i : Nat} (hend : (c.resumed i).EndsNext) {j : Nat} (hij : i ≤ j) :
    c.resumed j = c.resumed i ∧ (c.resumed j).readProgram = .ok [] (c.resumed i) := by
  have hread := readProgram_of_atEnd hend.atEnd
  have hfixed : (c.resumed i).readProgram.rest = c.resumed i := by rw [hread, Reading.rest_ok]
  have hsame := resumed_of_fixed hfixed j hij
  exact ⟨hsame, by rw [hsame, hread]⟩

/-- A failure without a token taken is met again by all later readings. -/
theorem resumed_of_error {i : Nat} {e : Fault}
    (hread : (c.resumed i).readProgram = .error e rest) (hqueue : rest.queue = (c.resumed i).queue)
    {j : Nat} (hij : i ≤ j) :
    c.resumed j = c.resumed i ∧ (c.resumed j).readProgram = .error e (c.resumed i) := by
  have hrest : (c.resumed i).readProgram.rest = rest := by rw [hread, Reading.rest_error]
  have hfixed : (c.resumed i).readProgram.rest = c.resumed i :=
    readProgram_rest_eq (by rw [hrest, hqueue])
  have hsame := resumed_of_fixed hfixed j hij
  rw [hrest] at hfixed
  exact ⟨hsame, by rw [hsame, hread, hfixed]⟩

/-- Every level that has been entered was paid for with a token. -/
theorem depth_resumed_le (hdepth : c.depth = 0) (i : Nat) :
    ∃ taken, c.queue = taken ++ (c.resumed i).queue ∧ (c.resumed i).depth ≤ taken.length := by
  obtain ⟨taken, hqueue, -⟩ := (c.onward_resumed i).exists_taken
  have hpaid := (c.onward_resumed i).paid
  rw [hdepth, hqueue, List.length_append] at hpaid
  exact ⟨taken, hqueue, by omega⟩

end Cursor

/-- Some tokens are read again and again, each time from where the last reading left them. What is
    left of them is always a suffix of what was left before. A reading that succeeds leaves an end
    token next and the depth as it was; from an end token on all readings succeed with nothing and
    change nothing. A reading that fails does not lower the depth, and if it takes no token then it
    changes nothing and all later ones fail as it does. The depth is never more than the number of
    tokens taken. After as many readings as there are tokens before the first end token, all
    readings are the same. -/
theorem repeated_readings_settle (tokens : List Token) :
    let start := Cursor.ofTokens tokens
    let cursor := start.resumed
    (∀ n, start.readRepeatedly n = (List.range n).map fun i => (cursor i).readProgram) ∧
      (∀ i, (cursor (i + 1)).queue <:+ (cursor i).queue) ∧
      (∀ i p rest, (cursor i).readProgram = .ok p rest →
        rest.EndsNext ∧ rest.depth = (cursor i).depth) ∧
      (∀ i, (cursor i).EndsNext → ∀ j, i ≤ j →
        cursor j = cursor i ∧ (cursor j).readProgram = .ok [] (cursor i)) ∧
      (∀ i e rest, (cursor i).readProgram = .error e rest → (cursor i).depth ≤ rest.depth ∧
        (rest.queue = (cursor i).queue → ∀ j, i ≤ j →
          cursor j = cursor i ∧ (cursor j).readProgram = .error e (cursor i))) ∧
      (∀ i, ∃ taken, start.queue = taken ++ (cursor i).queue ∧
        (cursor i).depth ≤ taken.length) ∧
      ∀ i, (Token.beforeEnd tokens).length ≤ i →
        (cursor i).readProgram = (cursor (Token.beforeEnd tokens).length).readProgram := by
  intro start cursor
  have hstart : Closed start.queue := Cursor.closed_ofTokens tokens
  have hclosed (i : Nat) : Closed (cursor i).queue := (start.onward_resumed i).closed hstart
  refine ⟨start.readRepeatedly_eq, fun i => ?_, fun i p rest hread => ?_,
    fun i hend j hij => Cursor.resumed_of_endsNext hend hij,
    fun i e rest hread => ⟨?_, fun hqueue j hij => Cursor.resumed_of_error hread hqueue hij⟩,
    Cursor.depth_resumed_le (Cursor.depth_ofTokens tokens), fun i hi => ?_⟩
  · show (start.resumed (i + 1)).queue <:+ _
    rw [Cursor.resumed_succ]
    exact (cursor i).lands_readProgram.onward.suffix
  · have hbelow := (cursor i).lands_readProgram.below hread
    exact ⟨Cursor.endsNext_of_atEnd (hbelow.closed (hclosed i))
      (Phrase.atEnd_of_statementsFrom hread), hbelow.depth_eq⟩
  · have hdepth := (cursor i).lands_readProgram.depth_le
    rw [hread] at hdepth
    exact hdepth
  · have hcount : (Token.beforeEnd start.queue).length = (Token.beforeEnd tokens).length :=
      congrArg List.length (Cursor.beforeEnd_ofTokens tokens)
    have hfixed := Cursor.resumed_fixed hstart _ (Nat.le_of_eq hcount)
    have hsame : cursor i = cursor _ := Cursor.resumed_of_fixed hfixed i hi
    rw [hsame]

/-- An opening parenthesis and a closing one. -/
def emptyGroup : List Token := [⟨.openParen, "(", ⟨0, 1⟩⟩, ⟨.closeParen, ")", ⟨1, 2⟩⟩]

/-- Empty parentheses are taken up to the closing one, which is refused one level down, and from
    then on it is refused each time. -/
theorem emptyGroup_refused_again :
    let start := Cursor.ofTokens emptyGroup
    let fault := Fault.noOperand ⟨.closeParen, ")", ⟨1, 2⟩⟩
    start.readProgram = .error fault (start.resumed 1) ∧ (start.resumed 1).depth = 1 ∧
      ∀ j, 1 ≤ j → (start.resumed j).readProgram = .error fault (start.resumed 1) := by
  intro start fault
  have hfirst : start.readProgram = .error fault
      ⟨[⟨.closeParen, ")", ⟨1, 2⟩⟩, .ending 2], .ending 2, 1, rfl⟩ := by
    rw [Cursor.readProgram, Phrase.statementsFrom, if_neg (by decide)]
    rfl
  have hrest : start.resumed 1 = ⟨[⟨.closeParen, ")", ⟨1, 2⟩⟩, .ending 2], .ending 2, 1, rfl⟩ :=
    congrArg Reading.rest hfirst
  have hagain : (start.resumed 1).readProgram = .error fault (start.resumed 1) := by
    rw [hrest, Cursor.readProgram, Phrase.statementsFrom, if_neg (by decide)]
    rfl
  obtain ⟨-, -, -, -, herror, -⟩ := repeated_readings_settle emptyGroup
  refine ⟨hfirst.trans (by rw [hrest]), by rw [hrest], fun j hj => ?_⟩
  exact ((herror 1 fault _ hagain).2 rfl j hj).2

end Quill
