import Mathlib.Data.List.Forall2
import Quill.Proofs.Acceptance

/-!
# Semicolons

An expression that stands as a statement may have a semicolon after it or not. No statement begins
with a token that could go on with the expression before it, so the statements of a program stay
apart without these semicolons, and what is read changes in the spans of such statements only.

* `Token.exists_append_atEnd`: the tokens of a program, and what follows them unread.
* `Sentence.SameButSemicolon`: derivations that differ in such a semicolon.
* `Program.exists_ofTokens`: with other semicolons there are the same statements.
* `Program.semicolons_optional`: the statement about all accepted tokens.
-/

namespace Quill

/-! ## What is not read -/

/-- Some tokens, if there are any, begin with an end token. -/
def Token.AtEnd (tokens : List Token) : Prop := ∀ t ∈ tokens.head?, t.kind = .endOfFile

namespace Token

theorem beforeEnd_append_atEnd {taken rest : List Token}
    (htaken : ∀ t ∈ taken, t.kind ≠ .endOfFile) (hrest : AtEnd rest) :
    beforeEnd (taken ++ rest) = taken := by
  cases rest with
  | nil =>
    rw [List.append_nil]
    exact beforeEnd_of_forall_ne htaken
  | cons t rest => exact beforeEnd_append_cons htaken (hrest t rfl)

/-- What stands before the first end token is followed by this, or by nothing. -/
theorem exists_append_atEnd (tokens : List Token) :
    ∃ rest, tokens = beforeEnd tokens ++ rest ∧ AtEnd rest := by
  induction tokens with
  | nil => exact ⟨[], rfl, by simp [AtEnd]⟩
  | cons t tokens ih =>
    by_cases ht : t.kind = .endOfFile
    · rw [beforeEnd_cons_of_eq ht]
      exact ⟨t :: tokens, rfl, by simpa [AtEnd] using ht⟩
    · obtain ⟨rest, htokens, hrest⟩ := ih
      rw [beforeEnd_cons_of_ne ht]
      exact ⟨rest, congrArg (t :: ·) htokens, hrest⟩

end Token

/-! ## Other semicolons -/

/-- Two derivations are the same, or they are of one expression and differ in the semicolon after
    it, which may be missing in one of them. -/
inductive Sentence.SameButSemicolon : Sentence → Sentence → Prop
  | refl (s : Sentence) : SameButSemicolon s s
  | express (e : Derivation .expression) (before after : Option (Terminal .semicolon)) :
      SameButSemicolon (.express e before) (.express e after)

/-- Two statements are the same, or they are one expression in statements of different spans. -/
inductive Statement.SameButSpan : Statement → Statement → Prop
  | refl (st : Statement) : SameButSpan st st
  | expression (e : Expr) (before after : Span) :
      SameButSpan (.expression e before) (.expression e after)

namespace Sentence.SameButSemicolon

variable {s s' : Sentence}

theorem fits (h : s.SameButSemicolon s') {depth : Nat} (hs : s.Fits depth) : s'.Fits depth := by
  cases h with
  | refl => exact hs
  | express e before after => exact fits_express.mpr (fits_express.mp hs)

theorem tree (h : s.SameButSemicolon s') : s.tree.SameButSpan s'.tree := by
  cases h with
  | refl => exact .refl _
  | express e before after => cases before <;> cases after <;> exact .expression e.tree _ _

/-- Other semicolons cost nothing. -/
theorem forall_fits {sentences others : List Sentence}
    (h : List.Forall₂ SameButSemicolon sentences others) {depth : Nat}
    (hfits : ∀ s ∈ sentences, s.Fits depth) : ∀ s ∈ others, s.Fits depth := by
  induction h with
  | nil => simp
  | cons hhead _ ih =>
    rw [List.forall_mem_cons] at hfits ⊢
    exact ⟨hhead.fits hfits.1, ih hfits.2⟩

end Sentence.SameButSemicolon

namespace Program

/-- Statements that can be read can be read with other semicolons. -/
theorem exists_ofTokens {sentences others : List Sentence}
    (h : List.Forall₂ Sentence.SameButSemicolon sentences others)
    (hfits : ∀ s ∈ sentences, s.Fits 0) {rest : List Token} (hrest : Token.AtEnd rest) :
    ∃ p, Program.ofTokens (Sentence.yield others ++ rest) = .ok p ∧
      List.Forall₂ Statement.SameButSpan (sentences.map Sentence.tree) p := by
  have hbefore := Token.beforeEnd_append_atEnd (Sentence.yield_kind_ne_of_mem others) hrest
  refine ⟨others.map Sentence.tree, ?_, ?_⟩
  · rw [ofTokens_eq_ok_iff]
    exact ⟨others, hbefore.symm, Sentence.SameButSemicolon.forall_fits h hfits, rfl⟩
  · rw [List.forall₂_map_left_iff, List.forall₂_map_right_iff]
    exact h.imp fun s s' hs => hs.tree

/-- Tokens that are accepted are, in one way only, those of statements with nothing or an end token
    after them. With any other choice of semicolons after the statements that are expressions they
    are accepted too, and the statements are the same in the same order, apart from the spans of
    those expression statements. -/
theorem semicolons_optional {tokens : List Token} {p : Program}
    (hread : Program.ofTokens tokens = .ok p) :
    ∃ (sentences : List Sentence) (rest : List Token),
      tokens = Sentence.yield sentences ++ rest ∧ Token.AtEnd rest ∧
      sentences.map Sentence.tree = p ∧
      (∀ (others : List Sentence) (rest' : List Token),
        tokens = Sentence.yield others ++ rest' → Token.AtEnd rest' →
          others = sentences ∧ rest' = rest) ∧
      ∀ others : List Sentence, List.Forall₂ Sentence.SameButSemicolon sentences others →
        ∃ p', Program.ofTokens (Sentence.yield others ++ rest) = .ok p' ∧
          List.Forall₂ Statement.SameButSpan p p' := by
  obtain ⟨sentences, hyield, hfits, rfl⟩ := (ofTokens_eq_ok_iff tokens p).mp hread
  obtain ⟨rest, htokens, hrest⟩ := Token.exists_append_atEnd tokens
  rw [← hyield] at htokens
  refine ⟨sentences, rest, htokens, hrest, rfl, ?_, fun others h => exists_ofTokens h hfits hrest⟩
  -- the end token tells where the statements stop, and they have one derivation only
  intro others rest' hothers hrest'
  have hbefore := Token.beforeEnd_append_atEnd (Sentence.yield_kind_ne_of_mem others) hrest'
  rw [← hothers, ← hyield] at hbefore
  obtain rfl : sentences = others := Sentence.eq_of_yield hbefore
  exact ⟨rfl, List.append_cancel_left (hothers.symm.trans htokens)⟩

/-- A name that stands as an expression. -/
def nameAt (symbol : String) (span : Span) : Derivation .expression :=
  .sum (.chain (.chain (.name ⟨⟨.identifier, symbol, span⟩, rfl⟩) .nil) .nil)

/-- Two names, the first of which has a semicolon. -/
def twoNames : List Sentence :=
  [.express (nameAt "a" ⟨0, 1⟩) (some ⟨⟨.semicolon, ";", ⟨1, 2⟩⟩, rfl⟩),
    .express (nameAt "b" ⟨3, 4⟩) none]

/-- The semicolon of the first name can go, and the second name can have one. -/
theorem semicolon_moves_to_second :
    Program.ofTokens [⟨.identifier, "a", ⟨0, 1⟩⟩, ⟨.semicolon, ";", ⟨1, 2⟩⟩,
        ⟨.identifier, "b", ⟨3, 4⟩⟩, .ending 5] =
      .ok [.expression (.name "a" ⟨0, 1⟩) ⟨0, 2⟩, .expression (.name "b" ⟨3, 4⟩) ⟨3, 4⟩] ∧
    ∃ p', Program.ofTokens [⟨.identifier, "a", ⟨0, 1⟩⟩, ⟨.identifier, "b", ⟨3, 4⟩⟩,
        ⟨.semicolon, ";", ⟨4, 5⟩⟩, .ending 5] = .ok p' ∧
      List.Forall₂ Statement.SameButSpan
        [.expression (.name "a" ⟨0, 1⟩) ⟨0, 2⟩, .expression (.name "b" ⟨3, 4⟩) ⟨3, 4⟩] p' := by
  have hfits : ∀ s ∈ twoNames, s.Fits 0 := by
    simp [twoNames, nameAt, Sentence.fits_express, Derivation.Fits, Derivation.cost, Links.cost]
  have hread : Program.ofTokens [⟨.identifier, "a", ⟨0, 1⟩⟩, ⟨.semicolon, ";", ⟨1, 2⟩⟩,
      ⟨.identifier, "b", ⟨3, 4⟩⟩, .ending 5] = .ok (twoNames.map Sentence.tree) :=
    (ofTokens_eq_ok_iff _ _).mpr ⟨twoNames, rfl, hfits, rfl⟩
  obtain ⟨sentences, rest, -, -, -, hunique, hothers⟩ := semicolons_optional hread
  obtain ⟨rfl, rfl⟩ := hunique twoNames [.ending 5] rfl (by simp [Token.AtEnd, Token.ending])
  refine ⟨hread, hothers [.express (nameAt "a" ⟨0, 1⟩) none,
    .express (nameAt "b" ⟨3, 4⟩) (some ⟨⟨.semicolon, ";", ⟨4, 5⟩⟩, rfl⟩)] ?_⟩
  exact .cons (.express _ _ _) (.cons (.express _ _ _) .nil)

end Program

end Quill
