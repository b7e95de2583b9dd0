import Quill.Proofs.Blame
import Quill.Proofs.Order
import Quill.Proofs.Plain
import Quill.Proofs.Printing

/-!
# Well-formed trees

Trees made by hand may have any names and numbers. Those that are read from a text have not, since
scanning and reading agree about what tokens are: every operator that is scanned can be read, every
run of digits is a number, and no keyword is a name. What tokens of a text are like is carried along
derivations to the trees.

* `Token.spelled_of_mem_scan`: the tokens of a text have texts of their kinds.
* `Number.plain_of_read?`: digits are read as a number without a sign.
* `Program.ofSource_ne_badNumber`: no text is refused for a number.
* `Derivation.wellFormed_tree`, `Sentence.wellFormed_tree`: trees of tokens of a text.
* `Program.texts_make_wellFormed`: all of it, for every text.
-/

namespace Quill

/-! ## Tokens of a text -/

namespace Token

/-- Whatever follows, the tokens that have been scanned have texts of their kinds. -/
theorem spelled_of_mem_scanFrom {start : Nat} {cs : List Char} {t : Token}
    (ht : t ∈ (scanFrom Text.isCased start cs).tokens) (hkind : t.kind ≠ .endOfFile) :
    t.Spelled := by
  have hmade {kind : Kind} {lexeme : List Char} {start : Nat}
      (hlexeme : Lexeme Text.isCased kind lexeme) : (ofLexeme kind lexeme start).Spelled := by
    rw [Spelled, ofLexeme, String.toList_ofList]
    exact (spells_iff_lexeme alphabet_isCased).mpr hlexeme
  fun_induction scanFrom Text.isCased start cs with
  | case1 start =>
    rw [List.mem_singleton.mp ht] at hkind
    exact absurd rfl hkind
  | case2 start c rest kind hk ih =>
    rcases List.mem_cons.mp ht with rfl | ht
    · exact hmade (.mark hk)
    · exact ih ht
  | case3 start c rest hk hc ih => exact ih ht
  | case4 start c rest hk hspacing hc lexeme ih =>
    rcases List.mem_cons.mp ht with rfl | ht
    · exact hmade (.number hc (List.all_eq_true.mp List.all_takeWhile))
    · exact ih ht
  | case5 start c rest hk hspacing hdigit hc lexeme ih =>
    rcases List.mem_cons.mp ht with rfl | ht
    · exact hmade (.word hc (List.all_eq_true.mp List.all_takeWhile))
    · exact ih ht
  | case6 start c rest => cases ht

theorem spelled_of_mem_scan {source : String} {t : Token} (ht : t ∈ (scan source).tokens)
    (hkind : t.kind ≠ .endOfFile) : t.Spelled :=
  spelled_of_mem_scanFrom ht hkind

theorem spelled_of_mem_ofSource {source : String} {tokens : List Token} {t : Token}
    (hscan : ofSource source = .ok tokens) (ht : t ∈ tokens) (hkind : t.kind ≠ .endOfFile) :
    t.Spelled := by
  rw [ofSource_eq_ok_iff] at hscan
  exact spelled_of_mem_scan (by rw [hscan]; exact ht) hkind

theorem Spelled.of_kind {t : Token} {kind : Kind} (h : t.Spelled) (hkind : t.kind = kind) :
    kind.Spells Text.isCased t.text.toList :=
  hkind ▸ h

/-- The operators that are scanned are those that can be read. -/
theorem spells_operator_iff (text : String) :
    Kind.operator.Spells Text.isCased text.toList ↔ ∃ op, Operator.ofSymbol? text = some op := by
  constructor
  · rintro ⟨c, hc, htext⟩
    have hall : ∀ c ∈ "+-*/%".toList, (Operator.ofSymbol? (String.ofList [c])).isSome :=
      forall_mem_of_all (by decide)
    rw [← String.ofList_toList (s := text), htext]
    exact Option.isSome_iff_exists.mp (hall c hc)
  · rintro ⟨op, hop⟩
    rw [Operator.eq_symbol_of_ofSymbol? hop]
    cases op
    · exact ⟨'+', by decide, rfl⟩
    · exact ⟨'-', by decide, rfl⟩
    · exact ⟨'*', by decide, rfl⟩
    · exact ⟨'/', by decide, rfl⟩
    · exact ⟨'%', by decide, rfl⟩

end Token

/-! ## Numbers of a text -/

namespace Number

/-- Digits are read as a number without a sign. -/
theorem plain_of_read? {text : String} {x : Float}
    (hspells : Token.Kind.Spells Text.isCased .number text.toList) (hread : read? text = some x) :
    Plain x := by
  rw [read?_of_spells hspells] at hread
  exact plain_of_readDecimal hread

end Number

/-! ## Texts that are refused -/

/-- The ninth character is the first in which messages that begin alike differ. -/
theorem Fault.eq_badNumber_of_message {fault : Fault} {rest : String}
    (h : fault.problem.message = "Invalid number literal" ++ rest) :
    ∃ text span, fault = .badNumber text span := by
  have hchars : fault.problem.message.toList.take 9 = "Invalid n".toList := by
    rw [h, String.toList_append]
    rfl
  clear h
  cases fault with
  | badNumber text span => exact ⟨text, span, rfl⟩
  | binding cause span =>
    cases cause <;> dsimp only [problem, NameFault.message] at hchars <;> simp at hchars
  | _ => simp [problem] at hchars

/-- No text is refused for a number that cannot be read. -/
theorem Program.ofSource_ne_badNumber (source text : String) (span : Span) :
    Program.ofSource source ≠ .error (.badNumber text span) := by
  intro h
  unfold Program.ofSource at h
  cases hscan : Token.ofSource source with
  | error fault =>
    rw [hscan] at h
    obtain ⟨tokens, hfault⟩ := (Token.ofSource_eq_error_iff _ _).mp hscan
    obtain ⟨_, _, _, _, hforeign, _⟩ :=
      Token.exists_foreign_of_scan (congrArg Token.Scanned.fault hfault)
    rw [hforeign] at h
    cases h
  | ok tokens =>
    rw [hscan] at h
    obtain ⟨taken, t, rest, rfl, hstuck⟩ :=
      StuckProgram.of_ofTokens_eq_error (Closed.of_ofSource hscan) h
    rcases hstuck.faulty rest with hfaulty | ⟨_, _, _, _, _, _, _, _, _, hfault⟩
    · cases hfaulty with
      | badNumber hkind hread =>
        have hspelled := Token.spelled_of_mem_ofSource hscan (t := t) (by simp) (by simp [hkind])
        obtain ⟨x, hx⟩ := Number.exists_read?_eq_some (hspelled.of_kind hkind)
        rw [hx] at hread
        cases hread
    · cases hfault

/-! ## Trees -/

/-- The names in an expression are words of letters other than the keywords, and the numbers are
    without a sign. -/
def Expr.WellFormed : Expr → Prop
  | .assign target value _ => target.WellFormed ∧ value.WellFormed
  | .binary left _ right _ => left.WellFormed ∧ right.WellFormed
  | .name symbol _ => Token.Kind.identifier.Spells Text.isCased symbol.toList
  | .number value _ => Number.Plain value

/-- The name that a statement declares, the names it uses and its numbers are like that, and a
    constant has a value. -/
def Statement.WellFormed : Statement → Prop
  | .declare name constant value _ =>
    Token.Kind.identifier.Spells Text.isCased name.toList ∧ (constant = true → value.isSome) ∧
      ∀ e ∈ value, e.WellFormed
  | .expression e _ => e.WellFormed

mutual

/-- The tree of tokens that have texts of their kinds is well formed. -/
theorem Derivation.wellFormed_tree : ∀ {rank : Rank} (D : Derivation rank),
    (∀ t ∈ D.tokens, t.Spelled) → D.tree.WellFormed
  | _, .name word, h => (h word.token (by simp [Derivation.tokens])).of_kind word.kind_eq
  | _, .number digits, h =>
    have hspelled := h digits.token (by simp [Derivation.tokens])
    Number.plain_of_read? (hspelled.of_kind digits.kind_eq) digits.read_eq
  | _, .group opening inner closing, h =>
    inner.wellFormed_tree fun t ht => h t (by simp [Derivation.tokens, ht])
  | _, .chain first rest, h =>
    rest.wellFormed_fold (fun t ht => h t (by simp [Derivation.tokens, ht])) <|
      first.wellFormed_tree fun t ht => h t (by simp [Derivation.tokens, ht])
  | _, .sum s, h => s.wellFormed_tree h
  | _, .assign target sign value, h =>
    ⟨target.wellFormed_tree fun t ht => h t (by simp [Derivation.tokens, ht]),
      value.wellFormed_tree fun t ht => h t (by simp [Derivation.tokens, ht])⟩

/-- Joining well-formed items to a well-formed tree gives a well-formed one. -/
theorem Links.wellFormed_fold : ∀ {level : Operator.Level} (links : Links level) {left : Expr},
    (∀ t ∈ links.tokens, t.Spelled) → left.WellFormed → (links.fold left).WellFormed
  | _, .nil, _, _, hleft => hleft
  | _, .cons joint item rest, _, h, hleft =>
    rest.wellFormed_fold (fun t ht => h t (by simp [Links.tokens, ht]))
      ⟨hleft, item.wellFormed_tree fun t ht => h t (by simp [Links.tokens, ht])⟩

end

theorem Sentence.wellFormed_tree (s : Sentence) (h : ∀ t ∈ s.tokens, t.Spelled) :
    s.tree.WellFormed := by
  match s with
  | .declare word name semicolon =>
    have hname := (h name.token (by simp [tokens])).of_kind name.kind_eq
    exact ⟨hname, by simp, by simp⟩
  | .define word name sign value semicolon =>
    have hname := (h name.token (by simp [tokens])).of_kind name.kind_eq
    have hvalue := value.wellFormed_tree fun t ht => h t (by simp [tokens, ht])
    exact ⟨hname, fun _ => rfl, by simpa using hvalue⟩
  | .express e none => exact e.wellFormed_tree h
  | .express e (some semicolon) =>
    exact e.wellFormed_tree fun t ht => h t (by simp [tokens, ht])

/-- Every operator that is scanned in a text, also before a foreign character, is one that can be
    read. No text is refused with the message that a number is invalid. In a program that is read
    from a text, every name that is declared or used is a word of letters other than the keywords,
    every constant has a value, and no number is NaN or has its sign bit set. -/
theorem Program.texts_make_wellFormed (source : String) :
    (∀ t ∈ (Token.scan source).tokens, t.kind = .operator →
        ∃ op, Operator.ofSymbol? t.text = some op) ∧
      (∀ fault, Program.ofSource source = .error fault →
        ∀ rest, fault.problem.message ≠ "Invalid number literal" ++ rest) ∧
      ∀ p, Program.ofSource source = .ok p → ∀ st ∈ p, st.WellFormed := by
  refine ⟨fun t ht hkind => ?_, fun fault hfault rest hmessage => ?_, fun p hp st hst => ?_⟩
  · have hspelled := Token.spelled_of_mem_scan ht (by simp [hkind])
    exact (Token.spells_operator_iff t.text).mp (hspelled.of_kind hkind)
  · obtain ⟨text, span, rfl⟩ := Fault.eq_badNumber_of_message hmessage
    exact Program.ofSource_ne_badNumber source text span hfault
  · obtain ⟨tokens, sentences, hscan, hyield, -, rfl⟩ := (Program.ofSource_eq_ok_iff _ _).mp hp
    obtain ⟨s, hs, rfl⟩ := List.mem_map.mp hst
    refine s.wellFormed_tree fun t ht => ?_
    have hmem : t ∈ Token.beforeEnd tokens := by
      rw [← hyield]
      exact List.mem_flatMap.mpr ⟨s, hs, ht⟩
    have htokens := List.takeWhile_subset _ hmem
    exact Token.spelled_of_mem_ofSource hscan htokens (s.kind_ne_of_mem t ht)

/-- A text with a declaration, an operator and parentheses. -/
theorem Program.let_a_wellFormed :
    ∃ p, Program.ofSource "let a = (b) + c; (a);" = .ok p ∧ p ≠ [] ∧ ∀ st ∈ p, st.WellFormed := by
  obtain ⟨-, -, htrees⟩ := texts_make_wellFormed "let a = (b) + c; (a);"
  exact ⟨_, ofSource_let_a, List.cons_ne_nil _ _, htrees _ ofSource_let_a⟩

end Quill
