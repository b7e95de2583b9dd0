import Quill.Proofs.Failure

/-!
# What is accepted

Reading from a cursor succeeds exactly on the tokens that derive as statements whose nesting fits
below the depth of the cursor. The derivation is unique, and its tree is what reading yields.

* `Cursor.readProgram_eq_ok_iff`: for every cursor with an end token to come.
* `Cursor.run_expression_eq_ok_iff`: for an expression at such a cursor.
* `Program.ofTokens_eq_ok_iff`: for the tokens of a whole program.
* `accepts_iff_derives`: for every list of tokens and every depth.
-/

namespace Quill

/-- The tokens before the first end token. -/
def Token.beforeEnd (tokens : List Token) : List Token :=
  tokens.takeWhile fun t => t.kind ≠ .endOfFile

theorem Token.beforeEnd_cons_of_eq {t : Token} {tokens : List Token} (h : t.kind = .endOfFile) :
    Token.beforeEnd (t :: tokens) = [] := by
  simp [Token.beforeEnd, h]

theorem Token.beforeEnd_cons_of_ne {t : Token} {tokens : List Token} (h : t.kind ≠ .endOfFile) :
    Token.beforeEnd (t :: tokens) = t :: Token.beforeEnd tokens := by
  simp [Token.beforeEnd, h]

/-- Tokens without an end token are followed by what stands before the next end token. -/
theorem Token.beforeEnd_append {taken : List Token} (htaken : ∀ t ∈ taken, t.kind ≠ .endOfFile)
    (rest : List Token) : Token.beforeEnd (taken ++ rest) = taken ++ Token.beforeEnd rest := by
  unfold Token.beforeEnd
  rw [List.takeWhile_append_of_pos (by simpa using htaken)]

theorem Token.beforeEnd_append_cons {taken rest : List Token} {t : Token}
    (htaken : ∀ u ∈ taken, u.kind ≠ .endOfFile) (ht : t.kind = .endOfFile) :
    Token.beforeEnd (taken ++ t :: rest) = taken := by
  rw [Token.beforeEnd_append htaken, Token.beforeEnd_cons_of_eq ht, List.append_nil]

/-- An end token added at the end changes nothing before the first. -/
theorem Token.beforeEnd_concat {t : Token} (ht : t.kind = .endOfFile) (tokens : List Token) :
    Token.beforeEnd (tokens ++ [t]) = Token.beforeEnd tokens := by
  induction tokens with
  | nil => exact Token.beforeEnd_cons_of_eq ht
  | cons u tokens ih =>
    by_cases hu : u.kind = .endOfFile
    · rw [List.cons_append, Token.beforeEnd_cons_of_eq hu, Token.beforeEnd_cons_of_eq hu]
    · rw [List.cons_append, Token.beforeEnd_cons_of_ne hu, Token.beforeEnd_cons_of_ne hu, ih]

theorem Token.beforeEnd_of_forall_ne {tokens : List Token}
    (h : ∀ t ∈ tokens, t.kind ≠ .endOfFile) : Token.beforeEnd tokens = tokens := by
  have hnil := Token.beforeEnd_append h []
  rw [List.append_nil] at hnil
  exact hnil.trans (List.append_nil tokens)

/-- Up to the first end token there are the tokens before it. -/
theorem Closed.exists_beforeEnd {queue : List Token} (h : Closed queue) :
    ∃ t rest, queue = Token.beforeEnd queue ++ t :: rest ∧ t.kind = .endOfFile := by
  induction queue with
  | nil => obtain ⟨t, ht, -⟩ := h; cases ht
  | cons u queue ih =>
    by_cases hu : u.kind = .endOfFile
    · exact ⟨u, queue, by rw [Token.beforeEnd_cons_of_eq hu]; rfl, hu⟩
    · obtain ⟨t, rest, hqueue, ht⟩ := ih (h.of_cons hu)
      refine ⟨t, rest, ?_, ht⟩
      rw [Token.beforeEnd_cons_of_ne hu, List.cons_append, ← hqueue]

/-! ## Cursors made from tokens -/

/-- A cursor at another depth. -/
def Cursor.atDepth (c : Cursor) (depth : Nat) : Cursor := { c with depth := depth }

theorem Cursor.ofTokens_queue (tokens : List Token) :
    ((Cursor.ofTokens tokens).queue = tokens ∧ Closed tokens) ∨
      ∃ t, t.kind = .endOfFile ∧ (Cursor.ofTokens tokens).queue = tokens ++ [t] := by
  unfold Cursor.ofTokens
  split
  next h =>
    rw [List.getLast?_eq_none_iff.mp h]
    exact .inr ⟨_, rfl, rfl⟩
  next t h =>
    split
    next hk => exact .inl ⟨rfl, t, List.mem_of_getLast? h, hk⟩
    next => exact .inr ⟨_, rfl, rfl⟩

/-- There is an end token to come in a cursor made from tokens. -/
theorem Cursor.closed_ofTokens (tokens : List Token) : Closed (Cursor.ofTokens tokens).queue := by
  rcases Cursor.ofTokens_queue tokens with ⟨h, hclosed⟩ | ⟨t, ht, h⟩
  · rw [h]; exact hclosed
  · rw [h]; exact ⟨t, by simp, ht⟩

theorem Cursor.closed_atDepth (tokens : List Token) (depth : Nat) :
    Closed ((Cursor.ofTokens tokens).atDepth depth).queue :=
  Cursor.closed_ofTokens tokens

theorem Cursor.beforeEnd_ofTokens (tokens : List Token) :
    Token.beforeEnd (Cursor.ofTokens tokens).queue = Token.beforeEnd tokens := by
  rcases Cursor.ofTokens_queue tokens with ⟨h, -⟩ | ⟨t, ht, h⟩
  · rw [h]
  · rw [h, Token.beforeEnd_concat ht]

theorem Cursor.depth_ofTokens (tokens : List Token) : (Cursor.ofTokens tokens).depth = 0 := by
  unfold Cursor.ofTokens
  split
  · rfl
  · split <;> rfl

/-! ## Acceptance -/

/-- Reading from a cursor yields exactly the trees of derivations that fit. -/
theorem Cursor.readProgram_eq_ok_iff {c : Cursor} (hclosed : Closed c.queue) (p : Program) :
    (∃ rest, c.readProgram = .ok p rest) ↔
      ∃ sentences : List Sentence, Sentence.yield sentences = Token.beforeEnd c.queue ∧
        (∀ s ∈ sentences, s.Fits c.depth) ∧ sentences.map Sentence.tree = p := by
  obtain ⟨queue, last, depth, hl⟩ := c
  unfold Cursor.readProgram
  constructor
  · rintro ⟨rest, hrest⟩
    rcases settles_program _ queue rfl hclosed with
      ⟨sentences, t, after, rfl, hfits, ht⟩ | ⟨taken, t, after, e, rfl, hstuck⟩
    · have hend : Cursor.atEnd ⟨t :: after, last, depth, hl⟩ := by
        simp [Cursor.atEnd, Cursor.token, ht]
      have hread := Sentence.statementsFrom_yield hend sentences hfits
      rw [hread] at hrest
      cases hrest
      exact ⟨sentences,
        (Token.beforeEnd_append_cons (Sentence.yield_kind_ne_of_mem sentences) ht).symm, hfits, rfl⟩
    · obtain ⟨rest', hread⟩ := hstuck.statementsFrom_fails last hl after
      rw [hread] at hrest
      cases hrest
  · rintro ⟨sentences, hyield, hfits, rfl⟩
    obtain ⟨t, after, hqueue, ht⟩ := hclosed.exists_beforeEnd
    dsimp only at hqueue hyield hfits
    rw [hqueue, ← hyield]
    exact ⟨_, Sentence.statementsFrom_yield (by simp [Cursor.atEnd, Cursor.token, ht])
      sentences hfits⟩

/-- Reading an expression from a cursor yields exactly the trees of derivations that fit. -/
theorem Cursor.run_expression_eq_ok_iff {c : Cursor} (hclosed : Closed c.queue) (e : Expr) :
    (∃ rest, Phrase.expression.run c = .ok e rest) ↔
      ∃ (D : Derivation .expression) (rest : List Token), c.queue = D.tokens ++ rest ∧
        Halts .expression rest ∧ D.Fits c.depth ∧ D.tree = e := by
  obtain ⟨queue, last, depth, hl⟩ := c
  constructor
  · rintro ⟨rest, hrest⟩
    rcases settles_expression _ queue rfl hclosed depth with
      ⟨D, after, rfl, hfits, hafter⟩ | ⟨taken, t, after, e', rfl, hstuck⟩
    · rw [D.run_expression hfits hafter] at hrest
      cases hrest
      exact ⟨D, after, rfl, hafter, hfits, rfl⟩
    · obtain ⟨rest', hread⟩ := hstuck.run_expression last hl after
      rw [hread] at hrest
      cases hrest
  · rintro ⟨D, after, rfl, hafter, hfits, rfl⟩
    exact ⟨_, D.run_expression hfits hafter⟩

/-- The tokens of a program are those of statements that fit. -/
theorem Program.ofTokens_eq_ok_iff (tokens : List Token) (p : Program) :
    Program.ofTokens tokens = .ok p ↔
      ∃ sentences : List Sentence, Sentence.yield sentences = Token.beforeEnd tokens ∧
        (∀ s ∈ sentences, s.Fits 0) ∧ sentences.map Sentence.tree = p := by
  have hread := Cursor.readProgram_eq_ok_iff (Cursor.closed_ofTokens tokens) p
  rw [Cursor.beforeEnd_ofTokens, Cursor.depth_ofTokens] at hread
  rw [← hread]
  unfold Program.ofTokens
  cases (Cursor.ofTokens tokens).readProgram <;> simp

/-- Reading some tokens at a depth succeeds with a program if and only if the tokens before the
    first end token derive as statements, every expression of which costs nothing or stays within
    the deepest level, the program being the tree of that derivation. No other derivation has
    these tokens, whatever its nesting. -/
theorem accepts_iff_derives (tokens : List Token) (depth : Nat) (p : Program) :
    (∃ rest, ((Cursor.ofTokens tokens).atDepth depth).readProgram = .ok p rest) ↔
      ∃ sentences : List Sentence, Sentence.yield sentences = Token.beforeEnd tokens ∧
        (∀ others : List Sentence, Sentence.yield others = Token.beforeEnd tokens →
          others = sentences) ∧
        (∀ s ∈ sentences, ∀ e ∈ s.expression?, e.cost = 0 ∨ depth + e.cost ≤ maxDepth) ∧
        sentences.map Sentence.tree = p := by
  have hclosed : Closed ((Cursor.ofTokens tokens).atDepth depth).queue :=
    Cursor.closed_ofTokens tokens
  have hbefore : Token.beforeEnd ((Cursor.ofTokens tokens).atDepth depth).queue =
      Token.beforeEnd tokens := Cursor.beforeEnd_ofTokens tokens
  rw [Cursor.readProgram_eq_ok_iff hclosed, hbefore]
  constructor
  · rintro ⟨sentences, hyield, hfits, htree⟩
    exact ⟨sentences, hyield, fun others h => Sentence.eq_of_yield (h.trans hyield.symm), hfits,
      htree⟩
  · rintro ⟨sentences, hyield, -, hfits, htree⟩
    exact ⟨sentences, hyield, hfits, htree⟩

end Quill
