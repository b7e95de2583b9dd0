import Mathlib.Data.List.Forall2
import Quill.Proofs.Height
import Quill.Proofs.Placement

/-!
# Order

Reading a text loses, repeats and moves no token. A tree keeps the tokens it was read from, apart
from parentheses and from semicolons that an expression can do without: they can be read off again
in the order in which they stand in the text. Names and numbers also keep their places, and every
other span runs from one token to another.

* `Derivation.make_tree`: the pieces of a tree are the tokens of its derivation.
* `Expr.Written.spanned`: the span of a tree runs from its first leaf to its last.
* `Sentence.madeOf_tree`, `Sentence.lies_tree`: the tokens of a statement and its span.
* `tokens_kept_in_order`: all of it, for every program that is read from a source.
-/

namespace Quill

/-! ## Pieces -/

/-- A part of a tree that comes from one token. -/
inductive Piece where
  /-- A name in its place. -/
  | name (symbol : String) (span : Span)
  /-- A number in its place. -/
  | number (value : Float) (span : Span)
  /-- A token whose place the tree does not keep. -/
  | mark (kind : Token.Kind) (text : String)

/-- A piece comes from a token. That of a name is all of the token, that of a number is its value
    and place, and a mark is its kind and text. -/
def Token.Gives (t : Token) : Piece → Prop
  | .name symbol span => t = ⟨.identifier, symbol, span⟩
  | .number value span => t.kind = .number ∧ t.span = span ∧ Number.read? t.text = some value
  | .mark kind text => t.kind = kind ∧ t.text = text

/-- The pieces of an expression in order. -/
def Expr.pieces : Expr → List Piece
  | .assign target value _ => target.pieces ++ .mark .equals "=" :: value.pieces
  | .binary left op right _ => left.pieces ++ .mark .operator op.symbol :: right.pieces
  | .name symbol span => [.name symbol span]
  | .number value span => [.number value span]

namespace Statement

/-- The kind of the word that opens the declaration of a constant, or of a variable. -/
def openerKind (constant : Bool) : Token.Kind := if constant then .constWord else .letWord

/-- The pieces between the word and the semicolon of a declaration: the name and, if there is a
    value, an equals sign and the value. -/
def declared (name : String) : Option Expr → List Piece
  | some e => .mark .identifier name :: .mark .equals "=" :: e.pieces
  | none => [.mark .identifier name]

/-- The span of a statement. -/
def span : Statement → Span
  | .declare _ _ _ span => span
  | .expression _ span => span

end Statement

/-! ## Tokens and pieces -/

namespace Token

/-- A token is a parenthesis. -/
def IsParen (t : Token) : Prop := t.kind = .openParen ∨ t.kind = .closeParen

instance (t : Token) : Decidable t.IsParen := inferInstanceAs (Decidable (_ ∨ _))

/-- Pieces come from some tokens, each from one of them, in order and leaving out the parentheses
    only. -/
def Make (tokens : List Token) (pieces : List Piece) : Prop :=
  List.Forall₂ Gives (tokens.filter fun t => ¬ t.IsParen) pieces

section Make

variable {t : Token} {tokens more : List Token} {piece : Piece} {pieces others : List Piece}

theorem make_nil : Make [] [] := .nil

theorem Make.cons {kind : Kind} (hpiece : t.Gives piece) (hkind : t.kind = kind)
    (hparen : kind ≠ .openParen ∧ kind ≠ .closeParen) (h : Make tokens pieces) :
    Make (t :: tokens) (piece :: pieces) := by
  have hkept : ¬ t.IsParen := by
    rw [IsParen, hkind]
    exact not_or.mpr hparen
  unfold Make
  rw [List.filter_cons_of_pos (by simpa using hkept)]
  exact .cons hpiece h

theorem Make.paren (hparen : t.IsParen) (h : Make tokens pieces) : Make (t :: tokens) pieces := by
  unfold Make
  rw [List.filter_cons_of_neg (by simpa using hparen)]
  exact h

theorem Make.append (h : Make tokens pieces) (hmore : Make more others) :
    Make (tokens ++ more) (pieces ++ others) := by
  unfold Make
  rw [List.filter_append]
  exact List.rel_append h hmore

end Make

/-- A token of a kind with one text gives that kind and text. -/
theorem Stands.gives_mark {cs : List Char} {t : Token} {kind : Kind} {text : String}
    (h : t.Stands cs) (hkind : t.kind = kind)
    (htext : ∀ v, kind.Spells Text.isCased v → v = text.toList) : t.Gives (.mark kind text) :=
  ⟨hkind, h.text_eq hkind htext⟩

end Token

theorem Operator.eq_symbol_of_ofSymbol? {text : String} {op : Operator}
    (h : ofSymbol? text = some op) : text = op.symbol := by
  unfold ofSymbol? at h
  split at h <;> cases h <;> rfl

theorem Joint.gives_mark {level : Operator.Level} (joint : Joint level) :
    joint.token.Gives (.mark .operator joint.operator.symbol) :=
  ⟨joint.kind_eq, Operator.eq_symbol_of_ofSymbol? joint.symbol_eq⟩

theorem Terminal.gives_name (word : Terminal .identifier) :
    word.token.Gives (.name word.token.text word.token.span) := by
  obtain ⟨⟨kind, text, span⟩, hkind⟩ := word
  obtain rfl : kind = .identifier := hkind
  rfl

theorem Terminal.gives_mark {kind : Token.Kind} (word : Terminal kind) :
    word.token.Gives (.mark kind word.token.text) :=
  ⟨word.kind_eq, rfl⟩

theorem Terminal.gives_equals {cs : List Char} (sign : Terminal .equals)
    (h : sign.token.Stands cs) : sign.token.Gives (.mark .equals "=") :=
  h.gives_mark sign.kind_eq fun _ h => h

theorem Terminal.gives_semicolon {cs : List Char} (semicolon : Terminal .semicolon)
    (h : semicolon.token.Stands cs) : semicolon.token.Gives (.mark .semicolon ";") :=
  h.gives_mark semicolon.kind_eq fun _ h => h

/-! ## Expressions -/

section Derivations

variable {cs : List Char}

mutual

/-- The pieces of a tree come from the tokens of its derivation. -/
theorem Derivation.make_tree :
    ∀ {rank : Rank} (D : Derivation rank), (∀ t ∈ D.tokens, t.Stands cs) →
      Token.Make D.tokens D.tree.pieces
  | _, .name word, _ => Token.make_nil.cons word.gives_name word.kind_eq (by decide)
  | _, .number digits, _ =>
    Token.make_nil.cons ⟨digits.kind_eq, rfl, digits.read_eq⟩ digits.kind_eq (by decide)
  | _, .group opening inner closing, h => by
    rw [Derivation.tokens, List.forall_mem_cons, List.forall_mem_append] at h
    have hinner := inner.make_tree h.2.1
    have hclosing := Token.make_nil.paren (.inr closing.kind_eq)
    have happend := hinner.append hclosing
    rw [List.append_nil] at happend
    exact happend.paren (.inl opening.kind_eq)
  | _, .chain first rest, h => by
    rw [Derivation.tokens, List.forall_mem_append] at h
    exact rest.make_fold (first.make_tree h.1) h.2
  | _, .sum s, h => s.make_tree h
  | _, .assign target sign value, h => by
    rw [Derivation.tokens, List.forall_mem_append, List.forall_mem_cons] at h
    obtain ⟨htarget, hsign, hvalue⟩ := h
    have hright := (value.make_tree hvalue).cons (sign.gives_equals hsign) sign.kind_eq (by decide)
    exact (target.make_tree htarget).append hright

/-- Links add their pieces behind those of the tree on their left. -/
theorem Links.make_fold :
    ∀ {level : Operator.Level} (L : Links level) {before : List Token} {left : Expr},
      Token.Make before left.pieces → (∀ t ∈ L.tokens, t.Stands cs) →
        Token.Make (before ++ L.tokens) (L.fold left).pieces
  | _, .nil, before, left, hleft, _ => by
    rw [Links.tokens, List.append_nil]
    exact hleft
  | _, .cons joint item rest, before, left, hleft, h => by
    rw [Links.tokens, List.forall_mem_cons, List.forall_mem_append] at h
    obtain ⟨-, hitem, hrest⟩ := h
    have hright := (item.make_tree hitem).cons joint.gives_mark joint.kind_eq (by decide)
    have hjoined : Token.Make (before ++ joint.token :: item.tokens)
        (left.join joint.operator item.tree).pieces := hleft.append hright
    have hfold := rest.make_fold hjoined hrest
    rw [List.append_assoc, List.cons_append] at hfold
    exact hfold

end

end Derivations

/-! ## Spans of expressions -/

/-- A span lies in another. -/
def Span.Inside (a b : Span) : Prop := b.start ≤ a.start ∧ a.stop ≤ b.stop

namespace Expr

/-- The expressions that an expression is put together from. -/
def parts : Expr → List Expr
  | .assign target value _ => [target, value]
  | .binary left _ right _ => [left, right]
  | .name _ _ => []
  | .number _ _ => []

/-- An expression and all that it has inside, at any depth. -/
def nodes : Expr → List Expr
  | .assign target value span => .assign target value span :: (target.nodes ++ value.nodes)
  | .binary left op right span => .binary left op right span :: (left.nodes ++ right.nodes)
  | .name symbol span => [.name symbol span]
  | .number value span => [.number value span]

/-- The span of an expression has characters. It begins where the first leaf begins and ends where
    the last one ends, and the parts lie in it one after the other. -/
structure Spanned (e : Expr) : Prop where
  start_lt : e.span.start < e.span.stop
  first : e.leaves.head?.map (·.span.start) = some e.span.start
  last : e.leaves.getLast?.map (·.span.stop) = some e.span.stop
  inside : ∀ part ∈ e.parts, part.span.Inside e.span
  ordered : e.parts.Pairwise fun a b => a.span.stop ≤ b.span.start

/-- An expression of two parts, the first of which ends before the second begins. -/
theorem Spanned.of_parts {e left right : Expr} (hparts : e.parts = [left, right])
    (hleaves : e.leaves = left.leaves ++ right.leaves)
    (hspan : e.span = left.span.hull right.span) (hle : left.span.stop ≤ right.span.start)
    (hleft : left.Spanned) (hright : right.Spanned) : e.Spanned := by
  have hl := hleft.start_lt
  have hr := hright.start_lt
  rw [Span.hull_eq_of_le (by omega) hle (by omega)] at hspan
  obtain ⟨first, hfirst, hstart⟩ := Option.map_eq_some_iff.mp hleft.first
  obtain ⟨last, hlast, hstop⟩ := Option.map_eq_some_iff.mp hright.last
  refine ⟨?_, ?_, ?_, ?_, ?_⟩
  · rw [hspan]
    show left.span.start < right.span.stop
    omega
  · rw [hleaves, List.head?_append, hfirst, hspan, ← hstart]
    rfl
  · rw [hleaves, List.getLast?_append, hlast, hspan, ← hstop]
    rfl
  · rw [hparts, hspan, List.forall_mem_cons, List.forall_mem_singleton]
    simp only [Span.Inside]
    omega
  · rw [hparts]
    simpa using hle

variable {cs : List Char}

theorem Written.spanned {e : Expr} (h : e.Written cs) : e.Spanned := by
  induction e with
  | name symbol span => exact ⟨h.1.start_lt, rfl, rfl, by simp [parts], .nil⟩
  | number value span => exact ⟨h.1.start_lt, rfl, rfl, by simp [parts], .nil⟩
  | binary left op right span ihleft ihright =>
    obtain ⟨hleft, hright, hle, hspan⟩ := h
    exact .of_parts rfl rfl hspan hle (ihleft hleft) (ihright hright)
  | assign target value span ihtarget ihvalue =>
    obtain ⟨htarget, hvalue, hle, hspan⟩ := h
    exact .of_parts rfl rfl hspan hle (ihtarget htarget) (ihvalue hvalue)

theorem Written.of_mem_nodes {e node : Expr} (h : e.Written cs) (hnode : node ∈ e.nodes) :
    node.Written cs := by
  induction e with
  | name symbol span =>
    rw [List.mem_singleton.mp hnode]
    exact h
  | number value span =>
    rw [List.mem_singleton.mp hnode]
    exact h
  | binary left op right span ihleft ihright =>
    rw [nodes, List.mem_cons, List.mem_append] at hnode
    rcases hnode with rfl | hnode | hnode
    · exact h
    · exact ihleft h.1 hnode
    · exact ihright h.2.1 hnode
  | assign target value span ihtarget ihvalue =>
    rw [nodes, List.mem_cons, List.mem_append] at hnode
    rcases hnode with rfl | hnode | hnode
    · exact h
    · exact ihtarget h.1 hnode
    · exact ihvalue h.2.1 hnode

end Expr

/-! ## Statements -/

/-- A statement comes from some tokens. A declaration is made of its word, of what is declared and
    of its semicolon, and runs from the word to the semicolon. An expression has its own span, or
    one that goes on to the semicolon behind it. -/
inductive Statement.MadeOf : Statement → List Token → Prop where
  | declaration {name : String} {constant : Bool} {value : Option Expr} {word semicolon : Token}
      {middle : List Token}
      (opens : word.Gives (.mark (Statement.openerKind constant) (Statement.opener constant)))
      (pieces : Token.Make middle (Statement.declared name value))
      (closes : semicolon.Gives (.mark .semicolon ";")) :
      MadeOf (.declare name constant value ⟨word.span.start, semicolon.span.stop⟩)
        (word :: (middle ++ [semicolon]))
  | expression {e : Expr} {tokens : List Token} (pieces : Token.Make tokens e.pieces) :
      MadeOf (.expression e e.span) tokens
  | closed {e : Expr} {tokens : List Token} {semicolon : Token}
      (pieces : Token.Make tokens e.pieces) (closes : semicolon.Gives (.mark .semicolon ";")) :
      MadeOf (.expression e ⟨e.span.start, semicolon.span.stop⟩) (tokens ++ [semicolon])

/-- A statement lies in a text from one place on and up to another. -/
structure Statement.Lies (cs : List Char) (low : Nat) (st : Statement) (high : Nat) : Prop where
  start_lt : st.span.start < st.span.stop
  low_le : low ≤ st.span.start
  le_high : st.span.stop ≤ high
  written : ∀ e ∈ st.expression?, e.Written cs
  inside : ∀ e ∈ st.expression?, e.span.Inside st.span

theorem Statement.Lies.of_le {cs : List Char} {low low' high high' : Nat} {st : Statement}
    (hlow : low' ≤ low) (hhigh : high ≤ high') (h : st.Lies cs low high) :
    st.Lies cs low' high' :=
  ⟨h.start_lt, Nat.le_trans hlow h.low_le, Nat.le_trans h.le_high hhigh, h.written, h.inside⟩

section Sentences

variable {cs : List Char} {low high : Nat}

/-- Tokens in a row have the hull of the first and the last. -/
theorem Token.Row.hull_eq {first last : Token} {middle : List Token}
    (h : Token.Row cs low (first :: (middle ++ [last])) high) :
    first.span.hull last.span = ⟨first.span.start, last.span.stop⟩ ∧
      low ≤ first.span.start ∧ first.span.start < last.span.stop ∧ last.span.stop ≤ high := by
  obtain ⟨hlow, hfirst, hrest⟩ := h
  obtain ⟨stop, hmiddle, hle, hlast, hhigh⟩ := hrest.exists_of_append
  have hstart := hfirst.within.start_lt
  have hstop := hlast.within.start_lt
  have hbetween := hmiddle.le
  exact ⟨Span.hull_eq_of_le (by omega) (by omega) (by omega), hlow, by omega, hhigh⟩

/-- A token behind a tree extends its span. -/
theorem Expr.Lies.hull_token {e : Expr} {middle : Nat} {t : Token} (he : e.Lies cs low middle)
    (hle : middle ≤ t.span.start) (ht : t.Stands cs) :
    e.span.hull t.span = ⟨e.span.start, t.span.stop⟩ ∧ e.span.start < t.span.stop ∧
      e.span.Inside ⟨e.span.start, t.span.stop⟩ := by
  have hstart := he.written.within.start_lt
  have hstop := he.le_high
  have hlt := ht.within.start_lt
  exact ⟨Span.hull_eq_of_le (by omega) (by omega) (by omega), by omega, Nat.le_refl _,
    show _ ≤ t.span.stop by omega⟩

theorem Declarer.gives_opener (word : Declarer) (h : word.token.Stands cs) :
    word.token.Gives (.mark (Statement.openerKind (decide (word.token.kind = .constWord)))
      (Statement.opener (decide (word.token.kind = .constWord)))) := by
  rcases word.kind_eq with hkind | hkind
  · rw [decide_eq_false (by simp [hkind])]
    exact h.gives_mark hkind fun _ h => h
  · rw [decide_eq_true hkind]
    exact h.gives_mark hkind fun _ h => h

/-- A declaration comes from its tokens in a row. -/
theorem Statement.MadeOf.of_row {word : Token} {semicolon : Terminal .semicolon}
    {middle : List Token} {name : String} {constant : Bool} {value : Option Expr}
    (h : Token.Row cs low (word :: (middle ++ [semicolon.token])) high)
    (hopens : word.Gives (.mark (Statement.openerKind constant) (Statement.opener constant)))
    (hpieces : Token.Make middle (Statement.declared name value)) :
    MadeOf (.declare name constant value (word.span.hull semicolon.token.span))
      (word :: (middle ++ [semicolon.token])) := by
  have hsemicolon : semicolon.token.Stands cs := h.stands_of_mem (by simp)
  rw [h.hull_eq.1]
  exact .declaration hopens hpieces (semicolon.gives_semicolon hsemicolon)

namespace Sentence

/-- A statement comes from the tokens of its derivation. -/
theorem madeOf_tree (s : Sentence) (h : Token.Row cs low s.tokens high) :
    s.tree.MadeOf s.tokens := by
  have hstands : ∀ t ∈ s.tokens, t.Stands cs := fun t ht => h.stands_of_mem ht
  match s with
  | .declare word name semicolon =>
    have hrow : Token.Row cs low (word.token :: ([name.token] ++ [semicolon.token])) high := h
    have hlet : word.token.Gives (.mark .letWord "let") :=
      h.2.1.gives_mark word.kind_eq fun _ h => h
    exact .of_row hrow hlet (Token.make_nil.cons name.gives_mark name.kind_eq (by decide))
  | .define word name sign value semicolon =>
    have hrow : Token.Row cs low
        (word.token :: (name.token :: sign.token :: value.tokens ++ [semicolon.token])) high := h
    have hvalue := value.make_tree fun t ht => hstands t (by simp [tokens, ht])
    have hsign := sign.gives_equals (hstands sign.token (by simp [tokens]))
    have hpieces := (hvalue.cons hsign sign.kind_eq (by decide)).cons name.gives_mark
      name.kind_eq (by decide)
    exact .of_row hrow (word.gives_opener h.2.1) hpieces
  | .express e none => exact .expression (e.make_tree hstands)
  | .express e (some semicolon) =>
    obtain ⟨middle, he, hle, hsemicolon, -⟩ := h.exists_of_append
    rw [tree, ((e.lies_tree he).hull_token hle hsemicolon).1]
    exact .closed (e.make_tree fun t ht => he.stands_of_mem ht)
      (semicolon.gives_semicolon hsemicolon)

/-- A statement lies where the tokens of its derivation stand. -/
theorem lies_tree (s : Sentence) (h : Token.Row cs low s.tokens high) :
    s.tree.Lies cs low high := by
  match s with
  | .declare word name semicolon =>
    have hrow : Token.Row cs low (word.token :: ([name.token] ++ [semicolon.token])) high := h
    obtain ⟨hspan, hlow, hlt, hhigh⟩ := hrow.hull_eq
    rw [tree, hspan]
    exact ⟨hlt, hlow, hhigh, by simp [Statement.expression?], by simp [Statement.expression?]⟩
  | .define word name sign value semicolon =>
    have hrow : Token.Row cs low
        (word.token :: (name.token :: sign.token :: value.tokens ++ [semicolon.token])) high := h
    obtain ⟨hspan, hlow, hlt, hhigh⟩ := hrow.hull_eq
    obtain ⟨-, hword, hname, hn, hsign, hs, hrest⟩ := h
    obtain ⟨middle, hvalue, hle, hsemicolon, -⟩ := hrest.exists_of_append
    have hlies := value.lies_tree hvalue
    have hinside : value.tree.span.Inside ⟨word.token.span.start, semicolon.token.span.stop⟩ := by
      have hword_lt := hword.within.start_lt
      have hname_lt := hn.within.start_lt
      have hsign_lt := hs.within.start_lt
      have hsemicolon_lt := hsemicolon.within.start_lt
      have hlow := hlies.low_le
      have hhigh := hlies.le_high
      exact ⟨show word.token.span.start ≤ _ by omega, show _ ≤ semicolon.token.span.stop by omega⟩
    rw [tree, hspan]
    refine ⟨hlt, hlow, hhigh, ?_, ?_⟩
    · simpa [Statement.expression?] using hlies.written
    · simpa [Statement.expression?, Statement.span] using hinside
  | .express e none =>
    have hlies := e.lies_tree h
    refine ⟨hlies.written.within.start_lt, hlies.low_le, hlies.le_high, ?_, ?_⟩
    · simpa [tree, Statement.expression?] using hlies.written
    · simp [tree, Statement.expression?, Statement.span, Span.Inside]
  | .express e (some semicolon) =>
    obtain ⟨middle, he, hle, hsemicolon, hhigh⟩ := h.exists_of_append
    have hlies := e.lies_tree he
    obtain ⟨hspan, hlt, hinside⟩ := hlies.hull_token hle hsemicolon
    rw [tree, hspan]
    refine ⟨hlt, hlies.low_le, hhigh, ?_, ?_⟩
    · simpa [Statement.expression?] using hlies.written
    · simpa [Statement.expression?, Statement.span] using hinside

/-- Statements in a row come from their tokens, statement by statement. -/
theorem madeOf_of_yield (sentences : List Sentence) (h : Token.Row cs low (yield sentences) high) :
    List.Forall₂ Statement.MadeOf (sentences.map tree) (sentences.map tokens) := by
  induction sentences generalizing low with
  | nil => exact .nil
  | cons s others ih =>
    obtain ⟨middle, hs, hothers⟩ := Token.Row.exists_of_append h
    exact .cons (s.madeOf_tree hs) (ih hothers)

/-- Statements in a row lie where their tokens stand, each before those after it. -/
theorem lies_of_yield (sentences : List Sentence) (h : Token.Row cs low (yield sentences) high) :
    (∀ st ∈ sentences.map tree, st.Lies cs low high) ∧
      (sentences.map tree).Pairwise fun a b => a.span.stop ≤ b.span.start := by
  induction sentences generalizing low with
  | nil => exact ⟨by simp, .nil⟩
  | cons s others ih =>
    obtain ⟨middle, hs, hothers⟩ := Token.Row.exists_of_append h
    have hfirst := s.lies_tree hs
    obtain ⟨hlies, hpairwise⟩ := ih hothers
    rw [List.map_cons, List.forall_mem_cons, List.pairwise_cons]
    refine ⟨⟨hfirst.of_le (Nat.le_refl low) hothers.le, ?_⟩, ?_, hpairwise⟩
    · exact fun st hst => (hlies st hst).of_le hs.le (Nat.le_refl high)
    · exact fun st hst => Nat.le_trans hfirst.le_high (hlies st hst).low_le

end Sentence

end Sentences

/-! ## Programs -/

/-- A program is made from a source: the tokens of the source fall into one segment for each
    statement, one after the other, and an end token. -/
structure Program.MadeFrom (source : String) (p : Program) (segments : List (List Token)) :
    Prop where
  tokens : Token.ofSource source = .ok (segments.flatten ++ [Token.ending source.length])
  /-- The text of a token is what stands in its span. -/
  texts : ∀ t ∈ segments.flatten, t.span.slice source.toList = t.text.toList
  statements : List.Forall₂ Statement.MadeOf p segments
  within : ∀ st ∈ p, st.span.Within source.length
  inside : ∀ st ∈ p, ∀ e ∈ st.expression?, e.span.Inside st.span
  spanned : ∀ st ∈ p, ∀ e ∈ st.expression?, ∀ node ∈ e.nodes, node.Spanned
  ordered : p.Pairwise fun a b => a.span.stop ≤ b.span.start

/-- A program that is read from a source is made of the tokens of the source, none of which is lost,
    repeated or moved. Its spans are hulls of tokens: those of statements follow one another, and so
    do those of the parts of an expression, within the span of the whole. -/
theorem tokens_kept_in_order {source : String} {p : Program}
    (h : Program.ofSource source = .ok p) : ∃ segments, Program.MadeFrom source p segments := by
  obtain ⟨tokens, sentences, hscan, hyield, -, rfl⟩ := (Program.ofSource_eq_ok_iff _ _).mp h
  obtain ⟨row, htokens, hrow, hstands⟩ := Token.exists_row_of_ofSource hscan
  rw [hrow] at hyield
  subst hyield
  obtain ⟨hlies, hpairwise⟩ := Sentence.lies_of_yield sentences hstands
  refine ⟨sentences.map Sentence.tokens, ?_, ?_, Sentence.madeOf_of_yield sentences hstands, ?_,
    fun st hst => (hlies st hst).inside, ?_, hpairwise⟩
  · rw [hscan, htokens]
    rfl
  · exact fun t ht => (hstands.stands_of_mem ht).slice_eq
  · intro st hst
    have hhigh := (hlies st hst).le_high
    rw [String.length_toList] at hhigh
    exact ⟨(hlies st hst).start_lt, hhigh⟩
  · intro st hst e he node hnode
    exact (((hlies st hst).written e he).of_mem_nodes hnode).spanned

theorem Program.ofSource_let_a : Program.ofSource "let a = (b) + c; (a);" =
    .ok [.declare "a" false (some (.binary (.name "b" ⟨9, 10⟩) .add (.name "c" ⟨14, 15⟩) ⟨9, 15⟩))
      ⟨0, 16⟩, .expression (.name "a" ⟨18, 19⟩) ⟨18, 21⟩] := by
  have hscan : Token.ofSource "let a = (b) + c; (a);" = .ok [⟨.letWord, "let", ⟨0, 3⟩⟩,
      ⟨.identifier, "a", ⟨4, 5⟩⟩, ⟨.equals, "=", ⟨6, 7⟩⟩, ⟨.openParen, "(", ⟨8, 9⟩⟩,
      ⟨.identifier, "b", ⟨9, 10⟩⟩, ⟨.closeParen, ")", ⟨10, 11⟩⟩, ⟨.operator, "+", ⟨12, 13⟩⟩,
      ⟨.identifier, "c", ⟨14, 15⟩⟩, ⟨.semicolon, ";", ⟨15, 16⟩⟩, ⟨.openParen, "(", ⟨17, 18⟩⟩,
      ⟨.identifier, "a", ⟨18, 19⟩⟩, ⟨.closeParen, ")", ⟨19, 20⟩⟩, ⟨.semicolon, ";", ⟨20, 21⟩⟩,
      Token.ending 21] :=
    (Token.ofSource_eq_ok_iff _ _).mpr (by decide +kernel)
  refine (Program.ofSource_eq_ok_iff _ _).mpr ⟨_, [
    .define ⟨⟨.letWord, "let", ⟨0, 3⟩⟩, .inl rfl⟩ ⟨⟨.identifier, "a", ⟨4, 5⟩⟩, rfl⟩
      ⟨⟨.equals, "=", ⟨6, 7⟩⟩, rfl⟩
      (.sum (.chain
        (.chain (.group ⟨⟨.openParen, "(", ⟨8, 9⟩⟩, rfl⟩
          (.sum (.chain (.chain (.name ⟨⟨.identifier, "b", ⟨9, 10⟩⟩, rfl⟩) .nil) .nil))
          ⟨⟨.closeParen, ")", ⟨10, 11⟩⟩, rfl⟩) .nil)
        (.cons ⟨⟨.operator, "+", ⟨12, 13⟩⟩, .add, rfl, rfl, rfl⟩
          (.chain (.name ⟨⟨.identifier, "c", ⟨14, 15⟩⟩, rfl⟩) .nil) .nil)))
      ⟨⟨.semicolon, ";", ⟨15, 16⟩⟩, rfl⟩,
    .express
      (.sum (.chain (.chain (.group ⟨⟨.openParen, "(", ⟨17, 18⟩⟩, rfl⟩
        (.sum (.chain (.chain (.name ⟨⟨.identifier, "a", ⟨18, 19⟩⟩, rfl⟩) .nil) .nil))
        ⟨⟨.closeParen, ")", ⟨19, 20⟩⟩, rfl⟩) .nil) .nil))
      (some ⟨⟨.semicolon, ";", ⟨20, 21⟩⟩, rfl⟩)], hscan, rfl, ?_, rfl⟩
  intro s hs
  rcases List.mem_pair.mp hs with rfl | rfl
  · exact Sentence.fits_define.mpr (.inr (by decide))
  · exact Sentence.fits_express.mpr (.inr (by decide))

/-- The span of the declaration has all of its tokens in it. That of the expression begins at its
    name and not at the parenthesis. -/
theorem let_a_made_from_tokens :
    Program.ofSource "let a = (b) + c; (a);" =
        .ok [.declare "a" false
          (some (.binary (.name "b" ⟨9, 10⟩) .add (.name "c" ⟨14, 15⟩) ⟨9, 15⟩)) ⟨0, 16⟩,
          .expression (.name "a" ⟨18, 19⟩) ⟨18, 21⟩] ∧
      ∃ segments, Program.MadeFrom "let a = (b) + c; (a);"
        [.declare "a" false
          (some (.binary (.name "b" ⟨9, 10⟩) .add (.name "c" ⟨14, 15⟩) ⟨9, 15⟩)) ⟨0, 16⟩,
          .expression (.name "a" ⟨18, 19⟩) ⟨18, 21⟩] segments :=
  ⟨Program.ofSource_let_a, tokens_kept_in_order Program.ofSource_let_a⟩

end Quill
