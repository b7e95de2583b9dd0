import Quill.Proofs.Writing

/-!
# Rejection at the first token that cannot stay

Reading is never stuck later than it must be: what it takes before it fails can be completed to a
program that is accepted, within the same limit on nesting. And it is never stuck earlier: with the
token at which it fails no completion is accepted, since nothing after that token is looked at.

* `Stuck.viable`: the tokens taken before a failure begin some phrase that fits.
* `StuckProgram.ofTokens_eq_error`: the fault is the same whatever follows.
* `rejects_at_first_wrong_token`: both together, for the tokens of a source text.
-/

namespace Quill

/-! ## Completing what was taken -/

/-- Some tokens begin a phrase, or some links, that fit at a depth. -/
def Site.Viable (depth : Nat) (taken : List Token) : Site → Prop
  | .phrase rank => ∃ (D : Derivation rank) (more : List Token),
      D.tokens = taken ++ more ∧ D.Fits depth
  | .links level => ∃ (links : Links level) (more : List Token),
      links.tokens = taken ++ more ∧ links.Fits depth

/-- What is taken before a failure can be completed. The induction is on the failed derivation:
    where it breaks off a name, or nothing, is put, and every group is closed. -/
theorem Stuck.viable {site : Site} {depth : Nat} {taken : List Token} {t : Token} {e : Fault}
    (h : Stuck site depth taken t e) : site.Viable depth taken := by
  induction h with
  | noOperand | badNumber | groupTooDeep =>
    exact ⟨.name (.made .identifier), _, rfl, Derivation.fits_name _⟩
  | inGroup opening hdepth _ ih =>
    obtain ⟨D, more, htokens, hfits⟩ := ih
    refine ⟨.group opening D (.made .closeParen), more ++ [(Terminal.made .closeParen).token], ?_,
      Derivation.fits_group.mpr ⟨hdepth, hfits⟩⟩
    simp [Derivation.tokens, htokens]
  | unclosed opening inner hdepth hinner =>
    exact ⟨.group opening inner (.made .closeParen), [(Terminal.made .closeParen).token], rfl,
      Derivation.fits_group.mpr ⟨hdepth, hinner⟩⟩
  | first _ ih =>
    obtain ⟨D, more, htokens, hfits⟩ := ih
    exact ⟨.chain D .nil, more, by simp [Derivation.tokens, Links.tokens, htokens],
      Derivation.fits_chain.mpr ⟨hfits, Links.fits_nil⟩⟩
  | rest first hfirst _ ih =>
    obtain ⟨links, more, htokens, hfits⟩ := ih
    exact ⟨.chain first links, more, by simp [Derivation.tokens, htokens],
      Derivation.fits_chain.mpr ⟨hfirst, hfits⟩⟩
  | linkTooDeep => exact ⟨.nil, [], rfl, Links.fits_nil⟩
  | linkItem joint hdepth _ ih =>
    obtain ⟨D, more, htokens, hfits⟩ := ih
    exact ⟨.cons joint D .nil, more, by simp [Links.tokens, htokens],
      Links.fits_cons.mpr ⟨hdepth, hfits, Links.fits_nil⟩⟩
  | linkRest joint item hdepth hitem _ ih =>
    obtain ⟨links, more, htokens, hfits⟩ := ih
    exact ⟨.cons joint item links, more, by simp [Links.tokens, htokens],
      Links.fits_cons.mpr ⟨hdepth, hitem, hfits⟩⟩
  | sum _ ih =>
    obtain ⟨D, more, htokens, hfits⟩ := ih
    exact ⟨.sum D, more, htokens, Derivation.fits_sum.mpr hfits⟩
  | assignTooDeep target _ htarget =>
    exact ⟨.sum target, [], (List.append_nil _).symm, Derivation.fits_sum.mpr htarget⟩
  | assignValue target sign htarget hdepth _ ih =>
    obtain ⟨D, more, htokens, hfits⟩ := ih
    exact ⟨.assign target sign D, more, by simp [Derivation.tokens, htokens],
      Derivation.fits_assign.mpr ⟨htarget, hdepth, hfits⟩⟩

/-- What is taken of a statement before it fails can be completed to one that fits. -/
theorem StuckStatement.viable {depth : Nat} {taken : List Token} {t : Token} {e : Fault}
    (h : StuckStatement depth taken t e) :
    ∃ (s : Sentence) (more : List Token), s.tokens = taken ++ more ∧ s.Fits depth := by
  cases h with
  | express h =>
    obtain ⟨D, more, htokens, hfits⟩ := h.viable
    exact ⟨.express D none, more, htokens, Sentence.fits_express.mpr hfits⟩
  | noName word =>
    exact ⟨.define word (.made .identifier) (.made .equals) .made (.made .semicolon), _, rfl,
      Sentence.fits_define.mpr Derivation.fits_made⟩
  | noValue word name =>
    exact ⟨.define ⟨word.token, .inr word.kind_eq⟩ name (.made .equals) .made (.made .semicolon), _,
      rfl, Sentence.fits_define.mpr Derivation.fits_made⟩
  | noEquals word name =>
    exact ⟨.define word name (.made .equals) .made (.made .semicolon), _, rfl,
      Sentence.fits_define.mpr Derivation.fits_made⟩
  | inValue word name sign h =>
    obtain ⟨D, more, htokens, hfits⟩ := h.viable
    refine ⟨.define word name sign D (.made .semicolon),
      more ++ [(Terminal.made .semicolon).token], ?_, Sentence.fits_define.mpr hfits⟩
    simp [Sentence.tokens, htokens]
  | noEnd word name sign value hvalue =>
    exact ⟨.define word name sign value (.made .semicolon), [(Terminal.made .semicolon).token], rfl,
      Sentence.fits_define.mpr hvalue⟩

/-- What is taken before reading fails can be completed to statements that fit. -/
theorem StuckProgram.viable {depth : Nat} {taken : List Token} {t : Token} {e : Fault}
    (h : StuckProgram depth taken t e) :
    ∃ (sentences : List Sentence) (more : List Token),
      Sentence.yield sentences = taken ++ more ∧ ∀ s ∈ sentences, s.Fits depth := by
  induction h with
  | here h =>
    obtain ⟨s, more, htokens, hfits⟩ := h.viable
    exact ⟨[s], more, by simp [htokens], by simpa using hfits⟩
  | later s hfits _ _ ih =>
    obtain ⟨sentences, more, htokens, hall⟩ := ih
    exact ⟨s :: sentences, more, by simp [htokens], by simpa using ⟨hfits, hall⟩⟩

/-! ## The token at fault -/

/-- A constant is declared without a value: at an index there is its semicolon, before that its name
    and its word, and the fault spans them. -/
def ValueMissing (tokens : List Token) (k : Nat) (t : Token) (e : Fault) : Prop :=
  t.kind = .semicolon ∧ ∃ i word name, k = i + 2 ∧
    tokens[i]? = some word ∧ word.kind = .constWord ∧
    tokens[i + 1]? = some name ∧ name.kind = .identifier ∧
    e = .valueMissing name.text (word.span.hull t.span)

theorem StuckStatement.faulty {depth : Nat} {taken : List Token} {t : Token} {e : Fault}
    (h : StuckStatement depth taken t e) (rest : List Token) :
    t.Faulty e ∨ ValueMissing (taken ++ t :: rest) taken.length t e := by
  cases h with
  | express h => exact .inl h.faulty
  | inValue word name sign h => exact .inl h.faulty
  | noName | noEquals | noEnd => exact .inl (.unexpected _)
  | noValue word name semicolon =>
    exact .inr ⟨semicolon.kind_eq, 0, word.token, name.token, rfl, rfl, word.kind_eq, rfl,
      name.kind_eq, rfl⟩

/-- Only a constant without a value is at fault as a whole. -/
theorem StuckProgram.faulty {depth : Nat} {taken : List Token} {t : Token} {e : Fault}
    (h : StuckProgram depth taken t e) (rest : List Token) :
    t.Faulty e ∨ ValueMissing (taken ++ t :: rest) taken.length t e := by
  induction h with
  | here h => exact h.faulty rest
  | @later taken t e s hfits hends h ih =>
    rcases ih with hfaulty | ⟨ht, i, word, name, hk, hword, hw, hname, hn, he⟩
    · exact .inl hfaulty
    · refine .inr ⟨ht, s.tokens.length + i, word, name, ?_, ?_, hw, ?_, hn, he⟩
      · rw [List.length_append, hk, Nat.add_assoc]
      · rw [List.append_assoc, List.getElem?_append_right (by omega), Nat.add_sub_cancel_left]
        exact hword
      · rw [List.append_assoc, List.getElem?_append_right (by omega), Nat.add_assoc,
          Nat.add_sub_cancel_left]
        exact hname

theorem StuckProgram.span_eq {depth : Nat} {taken : List Token} {t : Token} {e : Fault}
    (h : StuckProgram depth taken t e) (rest : List Token) :
    e.problem.span = t.span ∨ ValueMissing (taken ++ t :: rest) taken.length t e :=
  (h.faulty rest).imp_left Token.Faulty.span_eq

/-! ## Rejection -/

/-- Statements that fit are accepted. -/
theorem Program.ofTokens_yield {sentences : List Sentence} (h : ∀ s ∈ sentences, s.Fits 0) :
    Program.ofTokens (Sentence.yield sentences) = .ok (sentences.map Sentence.tree) := by
  have hbefore := Token.beforeEnd_of_forall_ne (Sentence.yield_kind_ne_of_mem sentences)
  exact (Program.ofTokens_eq_ok_iff _ _).mpr ⟨sentences, hbefore.symm, h, rfl⟩

/-- The cursor of some tokens has these to come, and then perhaps more. -/
theorem Cursor.exists_queue_ofTokens (tokens : List Token) :
    ∃ more, (Cursor.ofTokens tokens).queue = tokens ++ more := by
  rcases Cursor.ofTokens_queue tokens with ⟨h, -⟩ | ⟨t, -, h⟩
  · exact ⟨[], by rw [h, List.append_nil]⟩
  · exact ⟨[t], h⟩

/-- Where a program is stuck, tokens are rejected whatever follows. -/
theorem StuckProgram.ofTokens_eq_error {taken : List Token} {t : Token} {e : Fault}
    (h : StuckProgram 0 taken t e) (more : List Token) :
    Program.ofTokens (taken ++ t :: more) = .error e := by
  obtain ⟨end?, hqueue⟩ := Cursor.exists_queue_ofTokens (taken ++ t :: more)
  have hdepth := Cursor.depth_ofTokens (taken ++ t :: more)
  unfold Program.ofTokens
  generalize Cursor.ofTokens (taken ++ t :: more) = c at hqueue hdepth ⊢
  obtain ⟨queue, last, depth, hl⟩ := c
  obtain rfl : queue = _ := hqueue
  obtain rfl : depth = 0 := hdepth
  obtain ⟨rest, hrest⟩ := h.statementsFrom_fails last hl (more ++ end?)
  rw [List.append_assoc, List.cons_append, Cursor.readProgram, hrest]

/-- Tokens that end with an end token are accepted or stuck. -/
theorem StuckProgram.of_ofTokens_eq_error {tokens : List Token} {e : Fault}
    (hclosed : Closed tokens) (h : Program.ofTokens tokens = .error e) :
    ∃ taken t rest, tokens = taken ++ t :: rest ∧ StuckProgram 0 taken t e := by
  rcases settles_program _ tokens rfl hclosed with
    ⟨sentences, t, rest, rfl, hfits, ht⟩ | ⟨taken, t, rest, e', rfl, hstuck⟩
  · have hbefore : Token.beforeEnd (Sentence.yield sentences ++ t :: rest) = _ :=
      Token.beforeEnd_append_cons (Sentence.yield_kind_ne_of_mem sentences) ht
    have hok := (Program.ofTokens_eq_ok_iff _ _).mpr ⟨sentences, hbefore.symm, hfits, rfl⟩
    rw [hok] at h
    cases h
  · obtain rfl : e' = e := by
      have herror := hstuck.ofTokens_eq_error rest
      rw [h] at herror
      exact (Except.error.inj herror).symm
    exact ⟨taken, t, rest, rfl, hstuck⟩

/-- The tokens of a source text have an end token. -/
theorem Closed.of_ofSource {source : String} {tokens : List Token}
    (h : Token.ofSource source = .ok tokens) : Closed tokens := by
  rw [Token.ofSource_eq_ok_iff] at h
  obtain ⟨gap, items, rfl, -⟩ := Token.placedFrom_of_scanFrom Token.alphabet_isCased h
  exact ⟨_, List.mem_append_right _ (List.mem_singleton_self _), rfl⟩

/-- Of two tokens of a source text the earlier one ends before the later one begins. -/
theorem Token.Ordered.stop_le_start {tokens : List Token} (h : Token.Ordered tokens) {i k : Nat}
    {t u : Token} (hik : i < k) (ht : tokens[i]? = some t) (hu : tokens[k]? = some u) :
    t.span.stop ≤ u.span.start := by
  obtain ⟨hi, rfl⟩ := List.getElem?_eq_some_iff.mp ht
  obtain ⟨hk, rfl⟩ := List.getElem?_eq_some_iff.mp hu
  exact List.pairwise_iff_getElem.mp h.2 i k hi hk hik

/-- Of two tokens of a source text the earlier one begins first and ends first. -/
theorem Token.Ordered.hull_eq {tokens : List Token} (h : Token.Ordered tokens) {i k : Nat}
    {t u : Token} (hik : i < k) (ht : tokens[i]? = some t) (hu : tokens[k]? = some u) :
    t.span.hull u.span = ⟨t.span.start, u.span.stop⟩ :=
  Span.hull_eq_of_le (h.1 t (List.mem_of_getElem? ht)) (h.stop_le_start hik ht hu)
    (h.1 u (List.mem_of_getElem? hu))

/-- A source text with tokens that are rejected is wrong from one token on: the fault is about that
    token, or about the constant without a value that the token ends, what stands before it can be
    completed to a program, and with it the same fault comes whatever follows. -/
theorem rejects_at_first_wrong_token (source : String) (tokens : List Token) (e : Fault)
    (hscan : Token.ofSource source = .ok tokens) (hread : Program.ofTokens tokens = .error e) :
    ∃ k t, tokens[k]? = some t ∧
      (e.problem.span = t.span ∨
        t.kind = .semicolon ∧ ∃ i word name, k = i + 2 ∧
          tokens[i]? = some word ∧ word.kind = .constWord ∧
          tokens[i + 1]? = some name ∧ name.kind = .identifier ∧
          e.problem.span = ⟨word.span.start, t.span.stop⟩) ∧
      (∃ more p, Program.ofTokens (tokens.take k ++ more) = .ok p) ∧
      ∀ more, Program.ofTokens (tokens.take (k + 1) ++ more) = .error e := by
  have hordered := Token.ordered_of_ofSource hscan
  obtain ⟨taken, t, rest, rfl, hstuck⟩ :=
    StuckProgram.of_ofTokens_eq_error (Closed.of_ofSource hscan) hread
  have ht : (taken ++ t :: rest)[taken.length]? = some t := by simp
  refine ⟨taken.length, t, ht, ?_, ?_, ?_⟩
  · rcases hstuck.span_eq rest with h | ⟨hk, i, word, name, hi, hword, hw, hname, hn, rfl⟩
    · exact .inl h
    · have hhull := hordered.hull_eq (by omega) hword ht
      exact .inr ⟨hk, i, word, name, hi, hword, hw, hname, hn, hhull⟩
  · obtain ⟨sentences, more, hyield, hfits⟩ := hstuck.viable
    refine ⟨more, sentences.map Sentence.tree, ?_⟩
    rw [List.take_left, ← hyield]
    exact Program.ofTokens_yield hfits
  · intro more
    have htake : (taken ++ t :: rest).take (taken.length + 1) = taken ++ [t] := by
      rw [List.take_length_add_append]
      rfl
    rw [htake, List.append_assoc, List.singleton_append]
    exact hstuck.ofTokens_eq_error more

theorem rejects_const_x : ∃ tokens e, Token.ofSource "const x;" = .ok tokens ∧
    Program.ofTokens tokens = .error e ∧
    ∃ k, (∃ more p, Program.ofTokens (tokens.take k ++ more) = .ok p) ∧
      ∀ more, Program.ofTokens (tokens.take (k + 1) ++ more) = .error e := by
  have hscan : Token.ofSource "const x;" = .ok [⟨.constWord, "const", ⟨0, 5⟩⟩,
      ⟨.identifier, "x", ⟨6, 7⟩⟩, ⟨.semicolon, ";", ⟨7, 8⟩⟩, Token.ending 8] :=
    (Token.ofSource_eq_ok_iff _ _).mpr (by decide +kernel)
  have hread := (StuckProgram.here (.noValue ⟨⟨.constWord, "const", ⟨0, 5⟩⟩, rfl⟩
    ⟨⟨.identifier, "x", ⟨6, 7⟩⟩, rfl⟩ ⟨⟨.semicolon, ";", ⟨7, 8⟩⟩, rfl⟩)).ofTokens_eq_error
      [Token.ending 8]
  obtain ⟨k, -, -, -, hviable, hsame⟩ := rejects_at_first_wrong_token _ _ _ hscan hread
  exact ⟨_, _, hscan, hread, k, hviable, hsame⟩

end Quill
