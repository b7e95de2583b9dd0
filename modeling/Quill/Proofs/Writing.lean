import Quill.Proofs.Acceptance
import Quill.Proofs.Spacing
import Quill.Script

/-!
# Writing statements out

The tokens of a derivation may have any spans. Written one after the other, with a space between
them, they scan to tokens that have the spans of the text, and reading these gives the same trees up
to spans.

* `Derivation.exists_respan`: a derivation carries over to tokens with other spans.
* `Token.ofSource_written`: what the written tokens scan to.
* `Program.exists_ofSource_written`: statements that fit can be written out and read back.
-/

namespace Quill

/-! ## Trees and tokens without spans -/

/-- A token at no place. -/
def Token.bare (t : Token) : Token := ⟨t.kind, t.text, .point 0⟩

/-- An expression at no place. -/
def Expr.bare : Expr → Expr
  | .assign target value _ => .assign target.bare value.bare (.point 0)
  | .binary left op right _ => .binary left.bare op right.bare (.point 0)
  | .name symbol _ => .name symbol (.point 0)
  | .number value _ => .number value (.point 0)

/-- A statement at no place. -/
def Statement.bare : Statement → Statement
  | .declare name constant value _ => .declare name constant (value.map Expr.bare) (.point 0)
  | .expression expr _ => .expression expr.bare (.point 0)

@[simp] theorem Expr.bare_join (left : Expr) (op : Operator) (right : Expr) :
    (left.join op right).bare = .binary left.bare op right.bare (.point 0) := rfl

@[simp] theorem Expr.bare_assigned (target value : Expr) :
    (target.assigned value).bare = .assign target.bare value.bare (.point 0) := rfl

section Bare

variable {t u : Token}

theorem Token.bare_eq_iff : t.bare = u.bare ↔ t.kind = u.kind ∧ t.text = u.text := by
  simp [Token.bare]

theorem Token.kind_eq_of_bare (h : t.bare = u.bare) : t.kind = u.kind := (Token.bare_eq_iff.mp h).1

theorem Token.text_eq_of_bare (h : t.bare = u.bare) : t.text = u.text := (Token.bare_eq_iff.mp h).2

end Bare

/-! ## Derivations with other spans -/

/-- The same terminal at another place. -/
def Terminal.respan {kind : Token.Kind} (a : Terminal kind) (t : Token)
    (h : t.bare = a.token.bare) : Terminal kind :=
  ⟨t, (Token.kind_eq_of_bare h).trans a.kind_eq⟩

/-- The same number at another place. -/
def Numeral.respan (a : Numeral) (t : Token) (h : t.bare = a.token.bare) : Numeral :=
  ⟨t, a.value, (Token.kind_eq_of_bare h).trans a.kind_eq,
    (congrArg Number.read? (Token.text_eq_of_bare h)).trans a.read_eq⟩

/-- The same operator at another place. -/
def Joint.respan {level : Operator.Level} (a : Joint level) (t : Token)
    (h : t.bare = a.token.bare) : Joint level :=
  ⟨t, a.operator, (Token.kind_eq_of_bare h).trans a.kind_eq,
    (congrArg Operator.ofSymbol? (Token.text_eq_of_bare h)).trans a.symbol_eq, a.level_eq⟩

/-- The same word at another place. -/
def Declarer.respan (a : Declarer) (t : Token) (h : t.bare = a.token.bare) : Declarer :=
  ⟨t, (Token.kind_eq_of_bare h).symm ▸ a.kind_eq⟩

mutual

/-- A derivation carries over to tokens with other spans, at the same cost and with the same tree up
    to spans. -/
theorem Derivation.exists_respan :
    ∀ {rank : Rank} (D : Derivation rank) (tokens : List Token),
      tokens.map Token.bare = D.tokens.map Token.bare →
        ∃ D' : Derivation rank, D'.tokens = tokens ∧ D'.cost = D.cost ∧ D'.tree.bare = D.tree.bare
  | _, .name word, tokens, h => by
    obtain ⟨t, rfl, ht⟩ := List.map_eq_singleton_iff.mp h
    refine ⟨.name (word.respan t ht), rfl, rfl, ?_⟩
    simp only [Derivation.tree, Expr.bare, Terminal.respan, Token.text_eq_of_bare ht]
  | _, .number digits, tokens, h => by
    obtain ⟨t, rfl, ht⟩ := List.map_eq_singleton_iff.mp h
    exact ⟨.number (digits.respan t ht), rfl, rfl, rfl⟩
  | _, .group opening inner closing, tokens, h => by
    simp only [Derivation.tokens, List.map_cons, List.map_append, List.map_nil] at h
    obtain ⟨t, rest, rfl, ht, hrest⟩ := List.map_eq_cons_iff.mp h
    obtain ⟨ts, us, rfl, hts, hus⟩ := List.map_eq_append_iff.mp hrest
    obtain ⟨u, rfl, hu⟩ := List.map_eq_singleton_iff.mp hus
    obtain ⟨D, rfl, hcost, htree⟩ := inner.exists_respan ts hts
    exact ⟨.group (opening.respan t ht) D (closing.respan u hu), rfl,
      congrArg (1 + ·) hcost, htree⟩
  | _, .chain first rest, tokens, h => by
    simp only [Derivation.tokens, List.map_append] at h
    obtain ⟨ts, us, rfl, hts, hus⟩ := List.map_eq_append_iff.mp h
    obtain ⟨D, rfl, hcost, htree⟩ := first.exists_respan ts hts
    obtain ⟨L, rfl, hlinks, hfold⟩ := rest.exists_respan us hus
    exact ⟨.chain D L, rfl, by simp only [Derivation.cost, hcost, hlinks], hfold _ _ htree⟩
  | _, .sum s, tokens, h => by
    obtain ⟨D, htokens, hcost, htree⟩ := s.exists_respan tokens h
    exact ⟨.sum D, htokens, hcost, htree⟩
  | _, .assign target sign value, tokens, h => by
    simp only [Derivation.tokens, List.map_append, List.map_cons] at h
    obtain ⟨ts, us, rfl, hts, hus⟩ := List.map_eq_append_iff.mp h
    obtain ⟨t, vs, rfl, ht, hvs⟩ := List.map_eq_cons_iff.mp hus
    obtain ⟨D, rfl, hcost, htree⟩ := target.exists_respan ts hts
    obtain ⟨V, rfl, hvalue, hvtree⟩ := value.exists_respan vs hvs
    refine ⟨.assign D (sign.respan t ht) V, rfl, ?_, ?_⟩
    · simp only [Derivation.cost, hcost, hvalue]
    · simp only [Derivation.tree, Expr.bare_assigned, htree, hvtree]

/-- Links carry over to tokens with other spans. -/
theorem Links.exists_respan :
    ∀ {level : Operator.Level} (L : Links level) (tokens : List Token),
      tokens.map Token.bare = L.tokens.map Token.bare →
        ∃ L' : Links level, L'.tokens = tokens ∧ L'.cost = L.cost ∧
          ∀ left' left, left'.bare = left.bare → (L'.fold left').bare = (L.fold left).bare
  | _, .nil, tokens, h => by
    obtain rfl := List.map_eq_nil_iff.mp h
    exact ⟨.nil, rfl, rfl, fun left' left hleft => hleft⟩
  | _, .cons joint item rest, tokens, h => by
    simp only [Links.tokens, List.map_cons, List.map_append] at h
    obtain ⟨t, after, rfl, ht, hafter⟩ := List.map_eq_cons_iff.mp h
    obtain ⟨ts, us, rfl, hts, hus⟩ := List.map_eq_append_iff.mp hafter
    obtain ⟨D, rfl, hcost, htree⟩ := item.exists_respan ts hts
    obtain ⟨L, rfl, hlinks, hfold⟩ := rest.exists_respan us hus
    refine ⟨.cons (joint.respan t ht) D L, rfl, by simp only [Links.cost, hcost, hlinks], ?_⟩
    intro left' left hleft
    refine hfold _ _ ?_
    simp only [Expr.bare_join, hleft, htree]
    rfl

end

theorem Derivation.Fits.of_cost_eq {rank : Rank} {D D' : Derivation rank} {depth : Nat}
    (h : D.Fits depth) (hcost : D'.cost = D.cost) : D'.Fits depth := by
  unfold Derivation.Fits
  rwa [hcost]

/-- A statement carries over to tokens with other spans. -/
theorem Sentence.exists_respan (s : Sentence) (tokens : List Token)
    (h : tokens.map Token.bare = s.tokens.map Token.bare) :
    ∃ s' : Sentence, s'.tokens = tokens ∧ (∀ depth, s.Fits depth → s'.Fits depth) ∧
      s'.tree.bare = s.tree.bare := by
  match s with
  | .declare word name semicolon =>
    simp only [Sentence.tokens, List.map_cons, List.map_nil] at h
    obtain ⟨t, rest, rfl, ht, hrest⟩ := List.map_eq_cons_iff.mp h
    obtain ⟨u, rest, rfl, hu, hrest⟩ := List.map_eq_cons_iff.mp hrest
    obtain ⟨v, rfl, hv⟩ := List.map_eq_singleton_iff.mp hrest
    refine ⟨.declare (word.respan t ht) (name.respan u hu) (semicolon.respan v hv), rfl,
      fun _ _ => Sentence.fits_declare, ?_⟩
    simp only [Sentence.tree, Statement.bare, Terminal.respan, Token.text_eq_of_bare hu]
  | .define word name sign value semicolon =>
    simp only [Sentence.tokens, List.map_cons, List.map_append, List.map_nil] at h
    obtain ⟨t, rest, rfl, ht, hrest⟩ := List.map_eq_cons_iff.mp h
    obtain ⟨u, rest, rfl, hu, hrest⟩ := List.map_eq_cons_iff.mp hrest
    obtain ⟨v, rest, rfl, hv, hrest⟩ := List.map_eq_cons_iff.mp hrest
    obtain ⟨ts, us, rfl, hts, hus⟩ := List.map_eq_append_iff.mp hrest
    obtain ⟨w, rfl, hw⟩ := List.map_eq_singleton_iff.mp hus
    obtain ⟨D, rfl, hcost, htree⟩ := value.exists_respan ts hts
    refine ⟨.define (word.respan t ht) (name.respan u hu) (sign.respan v hv) D
      (semicolon.respan w hw), rfl, ?_, ?_⟩
    · intro depth hfits
      rw [Sentence.fits_define] at hfits ⊢
      exact hfits.of_cost_eq hcost
    · simp only [Sentence.tree, Statement.bare, Terminal.respan, Declarer.respan, Option.map_some,
        htree, Token.text_eq_of_bare hu, Token.kind_eq_of_bare ht]
  | .express e none =>
    obtain ⟨D, htokens, hcost, htree⟩ := e.exists_respan tokens h
    refine ⟨.express D none, htokens, ?_, ?_⟩
    · intro depth hfits
      rw [Sentence.fits_express] at hfits ⊢
      exact hfits.of_cost_eq hcost
    · simp only [Sentence.tree, Statement.bare, htree]
  | .express e (some semicolon) =>
    simp only [Sentence.tokens, List.map_append, List.map_cons, List.map_nil] at h
    obtain ⟨ts, us, rfl, hts, hus⟩ := List.map_eq_append_iff.mp h
    obtain ⟨w, rfl, hw⟩ := List.map_eq_singleton_iff.mp hus
    obtain ⟨D, rfl, hcost, htree⟩ := e.exists_respan ts hts
    refine ⟨.express D (some (semicolon.respan w hw)), rfl, ?_, ?_⟩
    · intro depth hfits
      rw [Sentence.fits_express] at hfits ⊢
      exact hfits.of_cost_eq hcost
    · simp only [Sentence.tree, Statement.bare, htree]

/-- Statements in a row carry over to tokens with other spans. -/
theorem Sentence.exists_respan_yield (sentences : List Sentence) (tokens : List Token)
    (h : tokens.map Token.bare = (Sentence.yield sentences).map Token.bare) :
    ∃ others : List Sentence, Sentence.yield others = tokens ∧
      (∀ depth, (∀ s ∈ sentences, s.Fits depth) → ∀ s ∈ others, s.Fits depth) ∧
      others.map (fun s => s.tree.bare) = sentences.map fun s => s.tree.bare := by
  induction sentences generalizing tokens with
  | nil =>
    obtain rfl := List.map_eq_nil_iff.mp h
    exact ⟨[], rfl, by simp, rfl⟩
  | cons s sentences ih =>
    rw [Sentence.yield_cons, List.map_append] at h
    obtain ⟨ts, us, rfl, hts, hus⟩ := List.map_eq_append_iff.mp h
    obtain ⟨s', rfl, hfits, htree⟩ := s.exists_respan ts hts
    obtain ⟨others, rfl, hall, htrees⟩ := ih us hus
    refine ⟨s' :: others, rfl, ?_, ?_⟩
    · intro depth hdepth
      rw [List.forall_mem_cons] at hdepth ⊢
      exact ⟨hfits depth hdepth.1, hall depth hdepth.2⟩
    · simp only [List.map_cons, htree, htrees]

/-! ## Tokens as a text -/

namespace Token

/-- A token that a source text can have. -/
def Spelled (t : Token) : Prop := t.kind.Spells Text.isCased t.text.toList

/-- A text that tokens of a kind can have. -/
def Kind.sample : Kind → String
  | .number => "1"
  | .identifier => "x"
  | .openParen => "("
  | .closeParen => ")"
  | .semicolon => ";"
  | .letWord => "let"
  | .constWord => "const"
  | .equals => "="
  | .operator => "+"
  | .endOfFile => "EndOfFile"

/-- The text of tokens with a space between any two. -/
def written (tokens : List Token) : String :=
  String.ofList ([' '].intercalate (tokens.map fun t => t.text.toList))

/-- Tokens at their places in a text, the first at an offset, with the gaps after them. -/
def spaced : Nat → List Token → List (Token × List Char)
  | _, [] => []
  | start, [t] => [(⟨t.kind, t.text, ⟨start, start + t.text.length⟩⟩, [])]
  | start, t :: u :: tokens =>
    (⟨t.kind, t.text, ⟨start, start + t.text.length⟩⟩, [' ']) ::
      spaced (start + t.text.length + 1) (u :: tokens)

theorem spread_spaced (start : Nat) (tokens : List Token) :
    spread (spaced start tokens) = [' '].intercalate (tokens.map fun t => t.text.toList) := by
  fun_induction spaced start tokens with
  | case1 => rfl
  | case2 start t => simp
  | case3 start t u tokens ih => simp [ih]

theorem map_bare_spaced (start : Nat) (tokens : List Token) :
    ((spaced start tokens).map Prod.fst).map bare = tokens.map bare := by
  fun_induction spaced start tokens with
  | case1 => rfl
  | case2 start t => rfl
  | case3 start t u tokens ih =>
    rw [List.map_cons, List.map_cons, ih]
    rfl

theorem placed_spaced (start : Nat) (tokens : List Token) (h : ∀ t ∈ tokens, t.Spelled) :
    Placed Text.isCased start (spaced start tokens) := by
  fun_induction spaced start tokens with
  | case1 => trivial
  | case2 start t => exact ⟨by simp [Spaces], h t (by simp), rfl, by simp, trivial⟩
  | case3 start t u tokens ih =>
    refine ⟨by simp [Spaces], h t (by simp), rfl, by simp, ?_⟩
    exact ih fun v hv => h v (List.mem_cons_of_mem t hv)

/-- The tokens of a written text are those written, at their places. -/
theorem ofSource_written (tokens : List Token) (h : ∀ t ∈ tokens, t.Spelled) :
    ofSource (written tokens) =
      .ok ((spaced 0 tokens).map Prod.fst ++ [ending (written tokens).length]) := by
  rw [ofSource_eq_ok_iff]
  refine scanFrom_of_placedFrom alphabet_isCased ⟨[], spaced 0 tokens, ?_, ?_, by simp [Spaces], ?_⟩
  · rw [Nat.zero_add, String.length_toList]
  · rw [written, String.toList_ofList, spread_spaced]
    rfl
  · exact placed_spaced 0 tokens h

end Token

/-! ## Made up tokens -/

/-- A token made up for a place where a kind is wanted. -/
def Terminal.made (kind : Token.Kind) : Terminal kind := ⟨⟨kind, kind.sample, .point 0⟩, rfl⟩

theorem Terminal.spelled_made {kind : Token.Kind} (h : kind ≠ .endOfFile) :
    (Terminal.made kind).token.Spelled := by
  cases kind with
  | number => exact ⟨by decide, Token.forall_mem_of_all (by decide)⟩
  | identifier =>
    exact ⟨by decide, Token.forall_mem_of_all (by decide), by decide, by decide⟩
  | operator => exact ⟨'+', by decide, rfl⟩
  | endOfFile => exact absurd rfl h
  | openParen | closeParen | semicolon | letWord | constWord | equals => rfl

/-- An expression made up of one name. -/
def Derivation.made : Derivation .expression :=
  .sum (.chain (.chain (.name (.made .identifier)) .nil) .nil)

theorem Derivation.fits_made {depth : Nat} : Derivation.made.Fits depth := .inl rfl

/-- The source texts of a program are those whose tokens are statements that fit. -/
theorem Program.ofSource_eq_ok_iff (source : String) (p : Program) :
    Program.ofSource source = .ok p ↔
      ∃ (tokens : List Token) (sentences : List Sentence), Token.ofSource source = .ok tokens ∧
        Sentence.yield sentences = Token.beforeEnd tokens ∧ (∀ s ∈ sentences, s.Fits 0) ∧
        sentences.map Sentence.tree = p := by
  unfold Program.ofSource
  cases Token.ofSource source with
  | error e => simp [Except.bind]
  | ok tokens => simp [Except.bind, Program.ofTokens_eq_ok_iff]

/-- Statements that fit can be written out and read back. -/
theorem Program.exists_ofSource_written (sentences : List Sentence)
    (hspelled : ∀ t ∈ Sentence.yield sentences, t.Spelled) (hfits : ∀ s ∈ sentences, s.Fits 0) :
    ∃ p, Program.ofSource (Token.written (Sentence.yield sentences)) = .ok p ∧
      p.map Statement.bare = sentences.map fun s => s.tree.bare := by
  have hbare := Token.map_bare_spaced 0 (Sentence.yield sentences)
  obtain ⟨others, hyield, hall, htrees⟩ := Sentence.exists_respan_yield sentences _ hbare
  refine ⟨others.map Sentence.tree, ?_, by rw [List.map_map, ← htrees]; rfl⟩
  have hscan := Token.ofSource_written _ hspelled
  rw [← hyield] at hscan
  refine (Program.ofSource_eq_ok_iff _ _).mpr ⟨_, others, hscan, ?_, hall 0 hfits, rfl⟩
  exact (Token.beforeEnd_append_cons (Sentence.yield_kind_ne_of_mem others) rfl).symm

/-- Statements that can be read back fit. -/
theorem Program.fits_of_ofSource_written {sentences : List Sentence} {p : Program}
    (hspelled : ∀ t ∈ Sentence.yield sentences, t.Spelled)
    (h : Program.ofSource (Token.written (Sentence.yield sentences)) = .ok p) :
    ∀ s ∈ sentences, s.Fits 0 := by
  have hbare := Token.map_bare_spaced 0 (Sentence.yield sentences)
  have hkinds : ∀ u ∈ (Token.spaced 0 (Sentence.yield sentences)).map Prod.fst,
      u.kind ≠ .endOfFile := by
    intro u hu
    have hmem : u.bare ∈ (Sentence.yield sentences).map Token.bare :=
      hbare ▸ List.mem_map_of_mem hu
    obtain ⟨t, ht, htu⟩ := List.mem_map.mp hmem
    rw [← Token.kind_eq_of_bare htu]
    exact Sentence.yield_kind_ne_of_mem sentences t ht
  obtain ⟨tokens, found, hscan, hyield, hfits, -⟩ := (Program.ofSource_eq_ok_iff _ _).mp h
  rw [Token.ofSource_written _ hspelled] at hscan
  obtain rfl := Except.ok.inj hscan
  rw [Token.beforeEnd_append_cons hkinds rfl] at hyield
  -- the statements that were found carry over to the tokens as they were before writing
  rw [← hyield] at hbare
  obtain ⟨others, hothers, hall, -⟩ := Sentence.exists_respan_yield found _ hbare.symm
  rw [← Sentence.eq_of_yield hothers]
  exact hall 0 hfits

/-- An expression is read back from its text, as the one statement there, exactly if its nesting
    stays within the limit. -/
theorem Derivation.ofSource_written_iff (D : Derivation .expression)
    (hspelled : ∀ t ∈ D.tokens, t.Spelled) :
    (∃ e span, Program.ofSource (Token.written D.tokens) = .ok [.expression e span] ∧
      e.bare = D.tree.bare) ↔ D.cost ≤ maxDepth := by
  have hyield : Sentence.yield [.express D none] = D.tokens := List.append_nil _
  rw [← hyield] at hspelled ⊢
  constructor
  · rintro ⟨e, span, hread, -⟩
    have hfits := Program.fits_of_ofSource_written hspelled hread
    have hD : D.Fits 0 := Sentence.fits_express.mp (hfits _ (List.mem_singleton_self _))
    rcases hD with h | h <;> omega
  · intro hcost
    have hD : D.Fits 0 := .inr (by rwa [Nat.zero_add])
    obtain ⟨p, hread, htrees⟩ := Program.exists_ofSource_written [.express D none] hspelled
      (by simpa [Sentence.fits_express] using hD)
    obtain ⟨s, rfl, hs⟩ := List.map_eq_singleton_iff.mp htrees
    cases s with
    | declare name constant value span => cases hs
    | expression e span => exact ⟨e, span, hread, (Statement.expression.inj hs).1⟩

end Quill
