import Quill.Proofs.Height

/-!
# Printing expressions

An expression is printed with the parentheses that it needs and no others. A draft is an expression
as it is to be printed: its names are words and its numbers are digits. Printing puts a
subexpression in parentheses where its place wants a phrase that binds more tightly.

The printed tokens have a derivation, which follows the draft: every subexpression is derived at its
own rank and then recast to the rank that its place wants.

* `Number.exists_read?_eq_some`: digits can be read.
* `Draft.enclosedAt_eq`: parentheses stand where the rank of a place is tighter.
* `Draft.tokens_derivation`, `Draft.cost_derivation`, `Draft.bare_tree_derivation`: the derivation
  has the tokens, the cost and the tree of the draft.
* `Draft.reads_back_iff`: a printed draft is read back just if its nesting stays within the limit.
-/

namespace Quill

/-! ## Reading digits -/

namespace Number

theorem isDigit_of_spells {cs : List Char}
    (h : Token.Kind.Spells Text.isCased .number cs) : cs ≠ [] ∧ ∀ c ∈ cs, c.isDigit = true := by
  obtain ⟨hne, hdigits⟩ := h
  exact ⟨hne, fun c hc => (Token.mem_digits_iff c).mp (hdigits c hc)⟩

/-- Digits have no sign in front. -/
theorem splitSign_of_isDigit {c : Char} (cs : List Char) (h : c.isDigit = true) :
    splitSign (c :: cs) = (false, c :: cs) := by
  unfold splitSign
  split
  next heq => cases heq; cases h
  next heq => cases heq; cases h
  next => rfl

theorem toLower_of_isDigit {c : Char} (h : c.isDigit = true) : c.toLower = c := by
  have hall : ∀ c ∈ "0123456789".toList, c.toLower = c := Token.forall_mem_of_all (by decide)
  exact hall c ((Token.mem_digits_iff c).mpr h)

/-- Digits are no word for a number. -/
theorem ofList_ne_of_isDigit {c : Char} (cs : List Char) (d : Char) (word : List Char)
    (hc : c.isDigit = true) (hd : d.isDigit = false) :
    String.ofList ((c :: cs).map Char.toLower) ≠ String.ofList (d :: word) := by
  intro h
  have hlists := congrArg String.toList h
  simp only [String.toList_ofList, List.map_cons, List.cons.injEq] at hlists
  rw [toLower_of_isDigit hc] at hlists
  rw [hlists.1, hd] at hc
  cases hc

theorem readDecimal_of_isDigit {cs : List Char} (hne : cs ≠ [])
    (h : ∀ c ∈ cs, c.isDigit = true) : ∃ x, readDecimal false cs = some x := by
  have hend : ∀ d ∈ ([] : List Char).head?, d.isDigit = false := by simp
  obtain ⟨htake, hdrop⟩ := Token.takeWhile_dropWhile_append h hend
  rw [List.append_nil] at htake hdrop
  unfold readDecimal
  simp [htake, hdrop, hne, readExponent]

/-- A text of one digit or more is read as a decimal without a sign. -/
theorem read?_of_spells {text : String}
    (h : Token.Kind.Spells Text.isCased .number text.toList) :
    read? text = readDecimal false text.toList := by
  obtain ⟨hne, hdigits⟩ := isDigit_of_spells h
  obtain ⟨c, cs, hcs⟩ := List.exists_cons_of_ne_nil hne
  have hc : c.isDigit = true := hdigits c (by rw [hcs]; exact List.mem_cons_self)
  unfold read?
  rw [hcs, splitSign_of_isDigit cs hc]
  dsimp only
  split
  next heq => exact absurd heq (ofList_ne_of_isDigit cs 'i' "nf".toList hc rfl)
  next heq => exact absurd heq (ofList_ne_of_isDigit cs 'i' "nfinity".toList hc rfl)
  next heq => exact absurd heq (ofList_ne_of_isDigit cs 'n' "an".toList hc rfl)
  next => rfl

/-- A text of one digit or more can be read as a number. -/
theorem exists_read?_eq_some {text : String}
    (h : Token.Kind.Spells Text.isCased .number text.toList) : ∃ x, read? text = some x := by
  obtain ⟨hne, hdigits⟩ := isDigit_of_spells h
  rw [read?_of_spells h]
  exact readDecimal_of_isDigit hne hdigits

end Number

/-! ## Drafts -/

/-- A word that can be a name. -/
structure Word where
  text : String
  spells : Token.Kind.Spells Text.isCased .identifier text.toList

/-- One digit or more. -/
structure Digits where
  text : String
  spells : Token.Kind.Spells Text.isCased .number text.toList

/-- The number that digits write. -/
def Digits.value (d : Digits) : Float :=
  (Number.read? d.text).get (Option.isSome_iff_exists.mpr (Number.exists_read?_eq_some d.spells))

theorem Digits.read?_eq (d : Digits) : Number.read? d.text = some d.value :=
  (Option.some_get _).symm

/-- An expression as it is to be printed. -/
inductive Draft where
  | assign (target value : Draft)
  | binary (left : Draft) (op : Operator) (right : Draft)
  | name (word : Word)
  | number (digits : Digits)

/-- Where an expression stands in the one around it. -/
inductive Place where
  /-- Nothing is around it. -/
  | top
  /-- To the left of an equals sign. -/
  | target
  /-- To the right of an equals sign. -/
  | value
  /-- To the left of an operator. -/
  | left (level : Operator.Level)
  /-- To the right of an operator. -/
  | right (level : Operator.Level)

namespace Draft

/-- The tree of a draft, at no place. -/
def tree : Draft → Expr
  | .assign target value => .assign target.tree value.tree (.point 0)
  | .binary left op right => .binary left.tree op right.tree (.point 0)
  | .name word => .name word.text (.point 0)
  | .number digits => .number digits.value (.point 0)

/-- Whether a draft is put in parentheses at a place: an assignment where it is neither the whole
    nor the value of an assignment, a sum where it is an operand of a product or the right operand
    of a sum, and a product where it is the right operand of a product. -/
def enclosedAt : Draft → Place → Bool
  | .assign _ _, .top => false
  | .assign _ _, .value => false
  | .assign _ _, _ => true
  | .binary _ op _, .left .multiplicative => op.level = .additive
  | .binary _ op _, .right .additive => op.level = .additive
  | .binary _ _ _, .right .multiplicative => true
  | _, _ => false

/-- Tokens in parentheses, if they are needed. -/
def enclose (needed : Bool) (tokens : List Token) : List Token :=
  if needed then ⟨.openParen, "(", .point 0⟩ :: (tokens ++ [⟨.closeParen, ")", .point 0⟩])
  else tokens

/-- The tokens that a draft is printed as, at no place. -/
def print : Draft → List Token
  | .assign target value =>
    enclose (target.enclosedAt .target) target.print ++
      ⟨.equals, "=", .point 0⟩ :: enclose (value.enclosedAt .value) value.print
  | .binary left op right =>
    enclose (left.enclosedAt (.left op.level)) left.print ++
      ⟨.operator, op.symbol, .point 0⟩ :: enclose (right.enclosedAt (.right op.level)) right.print
  | .name word => [⟨.identifier, word.text, .point 0⟩]
  | .number digits => [⟨.number, digits.text, .point 0⟩]

/-- The number of operators of a level that are folded into a draft from the left without
    parentheses. -/
def folded (level : Operator.Level) : Draft → Nat
  | .binary left op _ => if op.level = level then left.folded level + 1 else 0
  | _ => 0

/-- The nesting of what is printed: parentheses and the right side of an assignment are one level
    further in, and the `i`-th operand of a chain of operators is `i` levels further in. -/
def cost : Draft → Nat
  | .assign target value =>
    max ((target.enclosedAt .target).toNat + target.cost)
      (1 + ((value.enclosedAt .value).toNat + value.cost))
  | .binary left op right =>
    max ((left.enclosedAt (.left op.level)).toNat + left.cost)
      (left.folded op.level + 1 + ((right.enclosedAt (.right op.level)).toNat + right.cost))
  | .name _ => 0
  | .number _ => 0

end Draft

/-! ## Ranks and places -/

/-- How loosely the phrases of a rank bind. -/
def Rank.looseness : Rank → Nat
  | .operand => 0
  | .chain .multiplicative => 1
  | .chain .additive => 2
  | .expression => 3

/-- The rank of the phrases that a place wants. -/
def Place.rank : Place → Rank
  | .top => .expression
  | .target => .chain .additive
  | .value => .expression
  | .left level => .chain level
  | .right level => level.item

/-- The rank of the phrase that a draft is printed as. -/
def Draft.rank : Draft → Rank
  | .assign _ _ => .expression
  | .binary _ op _ => .chain op.level
  | .name _ => .operand
  | .number _ => .operand

/-- Parentheses stand where the place wants phrases that bind more tightly. -/
theorem Draft.enclosedAt_eq (d : Draft) (place : Place) :
    d.enclosedAt place = decide (place.rank.looseness < d.rank.looseness) := by
  cases d with
  | assign target value => rcases place with _ | _ | _ | ⟨_ | _⟩ | ⟨_ | _⟩ <;> rfl
  | binary left op right =>
    rcases place with _ | _ | _ | ⟨_ | _⟩ | ⟨_ | _⟩ <;> cases op <;> rfl
  | name word => rcases place with _ | _ | _ | ⟨_ | _⟩ | ⟨_ | _⟩ <;> rfl
  | number digits => rcases place with _ | _ | _ | ⟨_ | _⟩ | ⟨_ | _⟩ <;> rfl

/-! ## Phrases recast to other ranks -/

/-- A phrase stands for another one: in parentheses if they are needed, and with the same tokens at
    the same cost if not. -/
structure Derivation.StandsFor {rank rank' : Rank} (E : Derivation rank') (needed : Bool)
    (D : Derivation rank) : Prop where
  tokens : E.tokens = Draft.enclose needed D.tokens
  cost : E.cost = needed.toNat + D.cost
  tree : E.tree = D.tree

section StandsFor

variable {rank rank' rank'' : Rank}

theorem Derivation.StandsFor.refl (D : Derivation rank) : D.StandsFor false D :=
  ⟨rfl, (Nat.zero_add _).symm, rfl⟩

/-- Where no parentheses are needed on top of others, what stands for a phrase may be stood for. -/
theorem Derivation.StandsFor.trans {F : Derivation rank''} {E : Derivation rank'} {needed : Bool}
    {D : Derivation rank} (hF : F.StandsFor false E) (hE : E.StandsFor needed D) :
    F.StandsFor needed D := by
  refine ⟨hF.tokens.trans hE.tokens, ?_, hF.tree.trans hE.tree⟩
  rw [hF.cost, hE.cost]
  exact Nat.zero_add _

/-- A chain of one item is that item. -/
theorem Derivation.standsFor_chain (level : Operator.Level) (D : Derivation level.item) :
    (Derivation.chain D .nil).StandsFor false D := by
  refine ⟨?_, ?_, rfl⟩
  · rw [Derivation.tokens, Links.tokens, List.append_nil]
    rfl
  · rw [Derivation.cost, Links.cost]
    simp

theorem Derivation.standsFor_sum (D : Derivation (.chain .additive)) :
    (Derivation.sum D).StandsFor false D :=
  ⟨rfl, (Nat.zero_add _).symm, rfl⟩

end StandsFor

/-- A phrase as an expression. -/
def Derivation.whole : {rank : Rank} → Derivation rank → Derivation .expression
  | .operand, D => .sum (.chain (.chain D .nil) .nil)
  | .chain .multiplicative, D => .sum (.chain D .nil)
  | .chain .additive, D => .sum D
  | .expression, D => D

/-- A phrase in parentheses. -/
def Derivation.grouped {rank : Rank} (D : Derivation rank) : Derivation .operand :=
  .group (.made .openParen) D.whole (.made .closeParen)

/-- A phrase as one of another rank: in parentheses if its own rank binds more loosely, and as it is
    otherwise. -/
def Derivation.recast : {rank : Rank} → Derivation rank → (wanted : Rank) → Derivation wanted
  | .operand, D, .operand => D
  | .operand, D, .chain .multiplicative => .chain D .nil
  | .operand, D, .chain .additive => .chain (.chain D .nil) .nil
  | .chain .multiplicative, D, .operand => D.grouped
  | .chain .multiplicative, D, .chain .multiplicative => D
  | .chain .multiplicative, D, .chain .additive => .chain D .nil
  | .chain .additive, D, .operand => D.grouped
  | .chain .additive, D, .chain .multiplicative => .chain D.grouped .nil
  | .chain .additive, D, .chain .additive => D
  | .expression, D, .operand => D.grouped
  | .expression, D, .chain .multiplicative => .chain D.grouped .nil
  | .expression, D, .chain .additive => .chain (.chain D.grouped .nil) .nil
  | _, D, .expression => D.whole

section Recast

variable {rank : Rank} (D : Derivation rank)

theorem Derivation.standsFor_whole : D.whole.StandsFor false D := by
  match rank, D with
  | .operand, D =>
    have hproduct := Derivation.standsFor_chain .multiplicative D
    have hsum := Derivation.standsFor_chain .additive (.chain D .nil)
    exact (Derivation.standsFor_sum _).trans (hsum.trans hproduct)
  | .chain .multiplicative, D =>
    exact (Derivation.standsFor_sum _).trans (Derivation.standsFor_chain .additive D)
  | .chain .additive, D => exact Derivation.standsFor_sum D
  | .expression, D => exact .refl D

theorem Derivation.standsFor_grouped : D.grouped.StandsFor true D := by
  obtain ⟨htokens, hcost, htree⟩ := D.standsFor_whole
  refine ⟨?_, ?_, htree⟩
  · rw [Derivation.grouped, Derivation.tokens, htokens]
    rfl
  · rw [Derivation.grouped, Derivation.cost, hcost]
    simp

/-- Recasting adds parentheses if the rank of the phrase binds more loosely than the one wanted. -/
theorem Derivation.standsFor_recast (wanted : Rank) :
    (D.recast wanted).StandsFor (decide (wanted.looseness < rank.looseness)) D := by
  have hgrouped := D.standsFor_grouped
  have hproduct := Derivation.standsFor_chain .multiplicative D.grouped
  match rank, D, wanted with
  | .operand, D, .operand => exact .refl D
  | .operand, D, .chain .multiplicative =>
    exact Derivation.standsFor_chain .multiplicative D
  | .operand, D, .chain .additive =>
    exact (Derivation.standsFor_chain .additive (.chain D .nil)).trans
      (Derivation.standsFor_chain .multiplicative D)
  | .operand, D, .expression => exact D.standsFor_whole
  | .chain .multiplicative, D, .operand => exact hgrouped
  | .chain .multiplicative, D, .chain .multiplicative => exact .refl D
  | .chain .multiplicative, D, .chain .additive =>
    exact Derivation.standsFor_chain .additive D
  | .chain .multiplicative, D, .expression => exact D.standsFor_whole
  | .chain .additive, D, .operand => exact hgrouped
  | .chain .additive, D, .chain .multiplicative => exact hproduct.trans hgrouped
  | .chain .additive, D, .chain .additive => exact .refl D
  | .chain .additive, D, .expression => exact D.standsFor_whole
  | .expression, D, .operand => exact hgrouped
  | .expression, D, .chain .multiplicative => exact hproduct.trans hgrouped
  | .expression, D, .chain .additive =>
    exact (Derivation.standsFor_chain .additive _).trans (hproduct.trans hgrouped)
  | .expression, D, .expression => exact D.standsFor_whole

end Recast

/-! ## Chains that grow at their end -/

/-- Links with one more at their end. -/
def Links.concat {level : Operator.Level} :
    Links level → Joint level → Derivation level.item → Links level
  | .nil, joint, item => .cons joint item .nil
  | .cons joint' item' rest, joint, item => .cons joint' item' (rest.concat joint item)

/-- A chain with one more link at its end. -/
def Derivation.extend {level : Operator.Level} :
    Derivation (.chain level) → Joint level → Derivation level.item → Derivation (.chain level)
  | .chain first rest, joint, item => .chain first (rest.concat joint item)

/-- The number of operators of a chain. -/
def Derivation.operators {level : Operator.Level} : Derivation (.chain level) → Nat
  | .chain _ rest => rest.count

section Concat

variable {level : Operator.Level} (joint : Joint level) (item : Derivation level.item)

theorem Links.count_concat :
    ∀ links : Links level, (links.concat joint item).count = links.count + 1
  | .nil => rfl
  | .cons _ _ rest => by
    rw [Links.concat, Links.count_cons, Links.count_cons, rest.count_concat]

theorem Links.tokens_concat :
    ∀ links : Links level,
      (links.concat joint item).tokens = links.tokens ++ joint.token :: item.tokens
  | .nil => by simp [Links.concat, Links.tokens]
  | .cons _ _ rest => by
    simp only [Links.concat, Links.tokens, rest.tokens_concat, List.cons_append,
      List.append_assoc]

theorem Links.cost_concat :
    ∀ links : Links level,
      (links.concat joint item).cost = max links.cost (links.count + 1 + item.cost)
  | .nil => by
    simp only [Links.concat, Links.cost, Links.count_nil]
    omega
  | .cons _ _ rest => by
    have ih := rest.cost_concat
    simp only [Links.concat, Links.cost, Links.count_cons]
    omega

theorem Links.fold_concat :
    ∀ (links : Links level) (left : Expr),
      (links.concat joint item).fold left = (links.fold left).join joint.operator item.tree
  | .nil, left => rfl
  | .cons _ _ rest, left => by
    simp only [Links.concat, Links.fold, rest.fold_concat]

variable (D : Derivation (.chain level))

theorem Derivation.operators_extend : (D.extend joint item).operators = D.operators + 1 := by
  cases D with
  | chain first rest => exact rest.count_concat joint item

theorem Derivation.tokens_extend :
    (D.extend joint item).tokens = D.tokens ++ joint.token :: item.tokens := by
  cases D with
  | chain first rest =>
    simp only [Derivation.extend, Derivation.tokens, rest.tokens_concat, List.append_assoc]

/-- A further item of a chain is as many levels further in as there are operators before it. -/
theorem Derivation.cost_extend :
    (D.extend joint item).cost = max D.cost (D.operators + 1 + item.cost) := by
  cases D with
  | chain first rest =>
    simp only [Derivation.extend, Derivation.operators, Derivation.cost, rest.cost_concat]
    omega

theorem Derivation.tree_extend :
    (D.extend joint item).tree = D.tree.join joint.operator item.tree := by
  cases D with
  | chain first rest => exact rest.fold_concat joint item first.tree

end Concat

/-- Recast to its own rank a chain stays as it is. -/
theorem Derivation.recast_self {level : Operator.Level} (D : Derivation (.chain level)) :
    D.recast (.chain level) = D := by
  cases level <;> rfl

/-- What is no chain of a level is recast to one without operators. -/
theorem Derivation.operators_recast_of_ne {rank : Rank} (D : Derivation rank)
    {level : Operator.Level} (h : rank ≠ .chain level) :
    (D.recast (.chain level)).operators = 0 := by
  match rank, D, level with
  | .operand, D, .additive => rfl
  | .operand, D, .multiplicative => rfl
  | .chain .additive, D, .additive => exact absurd rfl h
  | .chain .additive, D, .multiplicative => rfl
  | .chain .multiplicative, D, .additive => rfl
  | .chain .multiplicative, D, .multiplicative => exact absurd rfl h
  | .expression, D, .additive => rfl
  | .expression, D, .multiplicative => rfl

/-! ## The derivation of a draft -/

/-- An operator as a joint of its level. -/
def Joint.ofOperator (op : Operator) : Joint op.level :=
  ⟨⟨.operator, op.symbol, .point 0⟩, op, rfl, Operator.ofSymbol?_symbol op, rfl⟩

namespace Draft

/-- The derivation of what a draft is printed as. -/
def derivation : (d : Draft) → Derivation d.rank
  | .assign target value =>
    .assign (target.derivation.recast (.chain .additive)) (.made .equals)
      (value.derivation.recast .expression)
  | .binary left op right =>
    (left.derivation.recast (.chain op.level)).extend (.ofOperator op)
      (right.derivation.recast op.level.item)
  | .name word => .name ⟨⟨.identifier, word.text, .point 0⟩, rfl⟩
  | .number digits =>
    .number ⟨⟨.number, digits.text, .point 0⟩, digits.value, rfl, digits.read?_eq⟩

/-- At every place a draft is derived with the parentheses that printing gives it. -/
theorem standsFor_recast (d : Draft) (place : Place) (wanted : Rank)
    (h : place.rank = wanted) :
    (d.derivation.recast wanted).StandsFor (d.enclosedAt place) d.derivation := by
  rw [d.enclosedAt_eq, h]
  exact d.derivation.standsFor_recast wanted

theorem tokens_derivation (d : Draft) : d.derivation.tokens = d.print := by
  induction d with
  | assign target value iht ihv =>
    have ht := (target.standsFor_recast .target (.chain .additive) rfl).tokens
    have hv := (value.standsFor_recast .value .expression rfl).tokens
    calc (assign target value).derivation.tokens
        = (target.derivation.recast (.chain .additive)).tokens ++
          (Terminal.made .equals).token :: (value.derivation.recast .expression).tokens := rfl
      _ = (assign target value).print := by rw [ht, hv, iht, ihv]; rfl
  | binary left op right ihl ihr =>
    have hl := (left.standsFor_recast (.left op.level) (.chain op.level) rfl).tokens
    have hr := (right.standsFor_recast (.right op.level) op.level.item rfl).tokens
    calc (binary left op right).derivation.tokens
        = (left.derivation.recast (.chain op.level)).tokens ++
          (Joint.ofOperator op).token :: (right.derivation.recast op.level.item).tokens :=
        Derivation.tokens_extend _ _ _
      _ = (binary left op right).print := by rw [hl, hr, ihl, ihr]; rfl
  | name word => rfl
  | number digits => rfl

theorem bare_tree_derivation (d : Draft) : d.derivation.tree.bare = d.tree := by
  induction d with
  | assign target value iht ihv =>
    have ht := (target.standsFor_recast .target (.chain .additive) rfl).tree
    have hv := (value.standsFor_recast .value .expression rfl).tree
    calc (assign target value).derivation.tree.bare
        = .assign (target.derivation.recast (.chain .additive)).tree.bare
          (value.derivation.recast .expression).tree.bare (.point 0) := rfl
      _ = (assign target value).tree := by rw [ht, hv, iht, ihv]; rfl
  | binary left op right ihl ihr =>
    have hl := (left.standsFor_recast (.left op.level) (.chain op.level) rfl).tree
    have hr := (right.standsFor_recast (.right op.level) op.level.item rfl).tree
    calc (binary left op right).derivation.tree.bare
        = .binary (left.derivation.recast (.chain op.level)).tree.bare op
          (right.derivation.recast op.level.item).tree.bare (.point 0) :=
        congrArg Expr.bare (Derivation.tree_extend _ _ _)
      _ = (binary left op right).tree := by rw [hl, hr, ihl, ihr]; rfl
  | name word => rfl
  | number digits => rfl

/-- To the left of an operator a draft is a chain with as many operators as are folded into it. -/
theorem operators_recast (d : Draft) (level : Operator.Level) :
    (d.derivation.recast (.chain level)).operators = d.folded level := by
  induction d with
  | assign target value => exact Derivation.operators_recast_of_ne _ (by simp [rank])
  | binary left op right ihl ihr =>
    by_cases h : op.level = level
    · subst h
      calc ((binary left op right).derivation.recast (.chain op.level)).operators
          = ((left.derivation.recast (.chain op.level)).extend (.ofOperator op)
            (right.derivation.recast op.level.item)).operators :=
          congrArg Derivation.operators (Derivation.recast_self _)
        _ = (left.derivation.recast (.chain op.level)).operators + 1 :=
          Derivation.operators_extend _ _ _
        _ = (binary left op right).folded op.level := by rw [ihl, folded, if_pos rfl]
    · rw [folded, if_neg h]
      exact Derivation.operators_recast_of_ne _ (by simpa [rank] using h)
  | name word => exact Derivation.operators_recast_of_ne _ (by simp [rank])
  | number digits => exact Derivation.operators_recast_of_ne _ (by simp [rank])

theorem cost_derivation (d : Draft) : d.derivation.cost = d.cost := by
  induction d with
  | assign target value iht ihv =>
    have ht := (target.standsFor_recast .target (.chain .additive) rfl).cost
    have hv := (value.standsFor_recast .value .expression rfl).cost
    calc (assign target value).derivation.cost
        = max (target.derivation.recast (.chain .additive)).cost
          (1 + (value.derivation.recast .expression).cost) := rfl
      _ = (assign target value).cost := by rw [ht, hv, iht, ihv]; rfl
  | binary left op right ihl ihr =>
    have hl := (left.standsFor_recast (.left op.level) (.chain op.level) rfl).cost
    have hr := (right.standsFor_recast (.right op.level) op.level.item rfl).cost
    calc (binary left op right).derivation.cost
        = max (left.derivation.recast (.chain op.level)).cost
          ((left.derivation.recast (.chain op.level)).operators + 1 +
            (right.derivation.recast op.level.item).cost) := Derivation.cost_extend _ _ _
      _ = (binary left op right).cost := by
        rw [left.operators_recast, hl, hr, ihl, ihr]; rfl
  | name word => rfl
  | number digits => rfl

/-! ## Reading printed drafts back -/

theorem spelled_enclose {needed : Bool} {tokens : List Token} (h : ∀ t ∈ tokens, t.Spelled) :
    ∀ t ∈ enclose needed tokens, t.Spelled := by
  intro t ht
  cases needed with
  | false => exact h t ht
  | true =>
    simp only [enclose, if_true, List.mem_cons, List.mem_append, List.not_mem_nil, or_false] at ht
    rcases ht with rfl | ht | rfl
    · rfl
    · exact h t ht
    · rfl

theorem spelled_operator (op : Operator) :
    Token.Spelled ⟨.operator, op.symbol, .point 0⟩ := by
  cases op <;> exact ⟨_, by decide, rfl⟩

/-- Every printed token has a text of its kind. -/
theorem spelled_print (d : Draft) : ∀ t ∈ d.print, t.Spelled := by
  induction d with
  | assign target value iht ihv =>
    intro t ht
    rw [print, List.mem_append, List.mem_cons] at ht
    rcases ht with ht | rfl | ht
    · exact spelled_enclose iht t ht
    · rfl
    · exact spelled_enclose ihv t ht
  | binary left op right ihl ihr =>
    intro t ht
    rw [print, List.mem_append, List.mem_cons] at ht
    rcases ht with ht | rfl | ht
    · exact spelled_enclose ihl t ht
    · exact spelled_operator op
    · exact spelled_enclose ihr t ht
  | name word =>
    intro t ht
    rw [List.mem_singleton.mp ht]
    exact word.spells
  | number digits =>
    intro t ht
    rw [List.mem_singleton.mp ht]
    exact digits.spells

/-- A printed draft is read back, as the one statement of a program and up to spans, exactly if the
    nesting of what is printed stays within the limit. -/
theorem reads_back_iff (d : Draft) :
    (∃ e span, Program.ofSource (Token.written d.print) = .ok [.expression e span] ∧
      e.bare = d.tree) ↔ d.cost ≤ maxDepth := by
  obtain ⟨htokens, hcost, htree⟩ := d.derivation.standsFor_whole
  have hprint : d.derivation.whole.tokens = d.print := htokens.trans d.tokens_derivation
  have hread := d.derivation.whole.ofSource_written_iff (by rw [hprint]; exact d.spelled_print)
  rwa [hprint, htree, d.bare_tree_derivation, hcost, d.cost_derivation, Bool.toNat_false,
    Nat.zero_add] at hread

end Draft

/-- Only the second subtraction, being a right operand, and the assignment are in parentheses. -/
example :
    let x : Draft := .name ⟨"x", Terminal.spelled_made (by decide)⟩
    let one : Draft := .number ⟨"1", Terminal.spelled_made (by decide)⟩
    Token.written (Draft.print (.binary (.binary x .subtract (.binary one .multiply x)) .subtract
      (.binary (.assign x one) .subtract x))) = "x - 1 * x - ( ( x = 1 ) - x )" := by
  decide +kernel

end Quill
