import Quill.Proofs.Reading

/-!
# Where reading fails

`Stuck` says which tokens reading takes before it fails, at which token it fails and with which
fault, as a grammar of failed derivations: each rule is a derivation broken off at one place.
Tokens either begin with a phrase that fits or get stuck in it, so that derivations and failed
derivations together settle what reading does.

* `Stuck.fails`: where a phrase is stuck reading fails, whatever follows the token.
* `settles_expression`: tokens begin with an expression that fits or are stuck in one.
-/

namespace Quill

/-! ## Failed derivations -/

/-- Where reading can fail: in a phrase, or among the links of a chain. -/
inductive Site where
  | phrase (rank : Rank)
  | links (level : Operator.Level)

/-- `Stuck site depth taken t e`: reading at a depth takes the tokens `taken` and fails at the token
    `t` after them, with the fault `e`. -/
inductive Stuck : Site → Nat → List Token → Token → Fault → Prop
  | noOperand {depth : Nat} {t : Token} (h : ¬ t.Opens) :
      Stuck (.phrase .operand) depth [] t (.noOperand t)
  | badNumber {depth : Nat} {t : Token} (hk : t.kind = .number)
      (hread : Number.read? t.text = none) :
      Stuck (.phrase .operand) depth [] t (.badNumber t.text t.span)
  | groupTooDeep {depth : Nat} (opening : Terminal .openParen) (h : maxDepth < depth + 1) :
      Stuck (.phrase .operand) depth [] opening.token (.tooDeep opening.token.span)
  | inGroup {depth : Nat} {taken : List Token} {t : Token} {e : Fault}
      (opening : Terminal .openParen) (hdepth : depth + 1 ≤ maxDepth)
      (h : Stuck (.phrase .expression) (depth + 1) taken t e) :
      Stuck (.phrase .operand) depth (opening.token :: taken) t e
  | unclosed {depth : Nat} {t : Token} (opening : Terminal .openParen)
      (inner : Derivation .expression) (hdepth : depth + 1 ≤ maxDepth)
      (hinner : inner.Fits (depth + 1)) (hstop : t.Stops .expression)
      (hne : t.kind ≠ .closeParen) :
      Stuck (.phrase .operand) depth (opening.token :: inner.tokens) t (.unexpected .groupEnd t)
  | first {depth : Nat} {taken : List Token} {t : Token} {e : Fault} {level : Operator.Level}
      (h : Stuck (.phrase level.item) depth taken t e) :
      Stuck (.phrase (.chain level)) depth taken t e
  | rest {depth : Nat} {taken : List Token} {t : Token} {e : Fault} {level : Operator.Level}
      (first : Derivation level.item) (hfirst : first.Fits depth)
      (h : Stuck (.links level) depth taken t e) :
      Stuck (.phrase (.chain level)) depth (first.tokens ++ taken) t e
  | linkTooDeep {depth : Nat} {level : Operator.Level} (joint : Joint level)
      (h : maxDepth < depth + 1) :
      Stuck (.links level) depth [] joint.token (.tooDeep joint.token.span)
  | linkItem {depth : Nat} {taken : List Token} {t : Token} {e : Fault} {level : Operator.Level}
      (joint : Joint level) (hdepth : depth + 1 ≤ maxDepth)
      (h : Stuck (.phrase level.item) (depth + 1) taken t e) :
      Stuck (.links level) depth (joint.token :: taken) t e
  | linkRest {depth : Nat} {taken : List Token} {t : Token} {e : Fault} {level : Operator.Level}
      (joint : Joint level) (item : Derivation level.item) (hdepth : depth + 1 ≤ maxDepth)
      (hitem : item.Fits (depth + 1)) (h : Stuck (.links level) (depth + 1) taken t e) :
      Stuck (.links level) depth (joint.token :: (item.tokens ++ taken)) t e
  | sum {depth : Nat} {taken : List Token} {t : Token} {e : Fault}
      (h : Stuck (.phrase (.chain .additive)) depth taken t e) :
      Stuck (.phrase .expression) depth taken t e
  | assignTooDeep {depth : Nat} (target : Derivation (.chain .additive)) (sign : Terminal .equals)
      (htarget : target.Fits depth) (h : maxDepth < depth + 1) :
      Stuck (.phrase .expression) depth target.tokens sign.token (.tooDeep sign.token.span)
  | assignValue {depth : Nat} {taken : List Token} {t : Token} {e : Fault}
      (target : Derivation (.chain .additive)) (sign : Terminal .equals)
      (htarget : target.Fits depth) (hdepth : depth + 1 ≤ maxDepth)
      (h : Stuck (.phrase .expression) (depth + 1) taken t e) :
      Stuck (.phrase .expression) depth (target.tokens ++ sign.token :: taken) t e

/-- A chain gets stuck among its links at an operator or after one. -/
theorem Stuck.exists_joint {depth : Nat} {taken : List Token} {t : Token} {e : Fault}
    {level : Operator.Level} (h : Stuck (.links level) depth taken t e) (queue : List Token) :
    ∃ (joint : Joint level) (rest : List Token), taken ++ t :: queue = joint.token :: rest := by
  cases h with
  | linkTooDeep joint => exact ⟨joint, _, rfl⟩
  | linkItem joint => exact ⟨joint, _, rfl⟩
  | linkRest joint => exact ⟨joint, _, rfl⟩

theorem Stuck.halts_item {depth : Nat} {taken queue : List Token} {t : Token} {e : Fault}
    {level : Operator.Level} (h : Stuck (.links level) depth taken t e) :
    Halts level.item (taken ++ t :: queue) := by
  obtain ⟨joint, rest, heq⟩ := h.exists_joint queue
  rw [heq]
  exact halts_cons.mpr joint.stops_item

/-- The faults that are about a token as such. Only what nests can nest too deeply. -/
inductive Token.Faulty (t : Token) : Fault → Prop
  | noOperand : Faulty t (.noOperand t)
  | unexpected (wanted : Wanted) : Faulty t (.unexpected wanted t)
  | badNumber (hk : t.kind = .number) (hread : Number.read? t.text = none) :
      Faulty t (.badNumber t.text t.span)
  | tooDeep (hk : t.kind = .openParen ∨ t.kind = .equals ∨ t.kind = .operator) :
      Faulty t (.tooDeep t.span)

theorem Token.Faulty.span_eq {t : Token} {e : Fault} (h : t.Faulty e) :
    e.problem.span = t.span := by
  cases h <;> rfl

/-- The fault is about the token at which reading fails. -/
theorem Stuck.faulty {site : Site} {depth : Nat} {taken : List Token} {t : Token} {e : Fault}
    (h : Stuck site depth taken t e) : t.Faulty e := by
  induction h with
  | noOperand => exact .noOperand
  | badNumber hk hread => exact .badNumber hk hread
  | groupTooDeep opening => exact .tooDeep (.inl opening.kind_eq)
  | assignTooDeep _ sign => exact .tooDeep (.inr (.inl sign.kind_eq))
  | linkTooDeep joint => exact .tooDeep (.inr (.inr joint.kind_eq))
  | unclosed => exact .unexpected .groupEnd
  | inGroup _ _ _ ih | first _ ih | rest _ _ _ ih | linkItem _ _ _ ih | linkRest _ _ _ _ _ ih
  | sum _ ih | assignValue _ _ _ _ _ ih => exact ih

/-! ## Reading fails where a derivation does -/

section Fails

open Phrase Reader

/-- Reading at a site fails with a fault. -/
def Site.Fails (n : Nat) (c : Cursor) (e : Fault) : Site → Prop
  | .phrase rank => ∃ rest, (reader (nested refuse n) rank).run c = .error e rest
  | .links level => ∀ left folded, ∃ rest,
      chainFrom (itemReader (nested refuse n) level) level left folded c = .error e rest

variable (last : Token) (hl : last.kind = .endOfFile)

/-- Where a phrase is stuck reading fails, whatever follows the token at which it is. -/
theorem Stuck.fails {site : Site} {depth : Nat} {taken : List Token} {t : Token} {e : Fault}
    (h : Stuck site depth taken t e) (queue : List Token) :
    ∀ n, taken.length ≤ n → site.Fails n ⟨taken ++ t :: queue, last, depth, hl⟩ e := by
  induction h with
  | noOperand h => exact fun n _ => ⟨_, run_operand_noOperand h⟩
  | badNumber hk hread => exact fun n _ => ⟨_, run_operand_badNumber hk hread⟩
  | groupTooDeep opening h => exact fun n _ => ⟨_, run_operand_tooDeep opening h⟩
  | inGroup opening hdepth _ ih =>
    intro n hn
    obtain ⟨m, rfl⟩ : ∃ m, n = m + 1 := ⟨n - 1, by simp at hn; omega⟩
    obtain ⟨rest, hrest⟩ := ih m (by simpa using hn)
    exact ⟨rest, (run_operand_group opening hdepth).trans (run_bind_of_error _ hrest)⟩
  | @unclosed depth t opening inner hdepth hinner hstop hne =>
    intro n hn
    obtain ⟨m, rfl⟩ : ∃ m, n = m + 1 := ⟨n - 1, by simp at hn; omega⟩
    have hrun := inner.run_reader last hl m (t :: queue) (by simpa using hn) hinner
      (halts_cons.mpr hstop)
    have hclose : (closeGroup (nested refuse (m + 1))).run
        ⟨inner.tokens ++ t :: queue, last, depth + 1, hl⟩ =
          .error (.unexpected .groupEnd t) ⟨t :: queue, last, depth + 1, hl⟩ :=
      (run_bind_of_ok _ hrun).trans (run_bind_of_error _ (run_require_of_ne hne))
    exact ⟨_, (run_operand_group opening hdepth).trans hclose⟩
  | @first depth taken t e level _ ih =>
    intro n hn
    obtain ⟨rest, hrest⟩ := ih n hn
    rw [reader_item] at hrest
    exact ⟨rest, run_bind_of_error _ hrest⟩
  | @rest depth taken t e level first hfirst hlinks ih =>
    intro n hn
    rw [List.length_append] at hn
    have hrun := first.run_reader last hl n (taken ++ t :: queue) (by omega) hfirst
      hlinks.halts_item
    obtain ⟨rest, hrest⟩ := ih n (by omega) first.tree 0
    rw [reader_item] at hrun
    rw [List.append_assoc]
    exact ⟨rest, (run_bind_of_ok _ hrun).trans hrest⟩
  | linkTooDeep joint h =>
    exact fun n _ left folded =>
      ⟨_, chainFrom_of_error left folded joint rfl (run_operatorThen_tooDeep joint h)⟩
  | linkItem joint hdepth _ ih =>
    intro n hn left folded
    obtain ⟨rest, hrest⟩ := ih n (by simp at hn; omega)
    rw [reader_item] at hrest
    exact ⟨rest, chainFrom_of_error left folded joint rfl
      ((run_operatorThen joint hdepth).trans hrest)⟩
  | @linkRest depth taken t e level joint item hdepth hitem hlinks ih =>
    intro n hn left folded
    simp only [List.length_cons, List.length_append] at hn
    have hrun := item.run_reader last hl n (taken ++ t :: queue) (by omega) hitem
      hlinks.halts_item
    obtain ⟨rest, hrest⟩ := ih n (by omega) (left.join joint.operator item.tree) (folded + 1)
    rw [reader_item] at hrun
    rw [List.cons_append, List.append_assoc]
    exact ⟨rest, (chainFrom_of_ok left folded joint rfl
      ((run_operatorThen joint hdepth).trans hrun)).trans hrest⟩
  | sum _ ih =>
    intro n hn
    obtain ⟨rest, hrest⟩ := ih n hn
    exact ⟨rest, run_bind_of_error _ hrest⟩
  | assignTooDeep target sign htarget h =>
    intro n hn
    have hrun := target.run_reader last hl n (sign.token :: queue) hn htarget sign.halts_chain
    exact ⟨_, (run_bind_of_ok _ hrun).trans (run_assignmentRest_tooDeep target.tree sign h)⟩
  | @assignValue depth taken t e target sign htarget hdepth _ ih =>
    intro n hn
    simp only [List.length_append, List.length_cons] at hn
    obtain ⟨m, rfl⟩ : ∃ m, n = m + 1 := ⟨n - 1, by omega⟩
    have hrun := target.run_reader last hl (m + 1) (sign.token :: (taken ++ t :: queue)) (by omega)
      htarget sign.halts_chain
    obtain ⟨rest, hrest⟩ := ih m (by omega)
    have hvalue := (run_assignmentRest_sign target.tree sign hdepth).trans
      (run_bind_of_error _ hrest)
    rw [List.append_assoc, List.cons_append]
    exact ⟨rest, (run_bind_of_ok _ hrun).trans hvalue⟩

end Fails

/-! ## Tokens begin with a phrase or get stuck -/

/-- There is an end token among some tokens. -/
def Closed (queue : List Token) : Prop := ∃ t ∈ queue, t.kind = .endOfFile

theorem Closed.of_append {taken queue : List Token} (h : Closed (taken ++ queue))
    (htaken : ∀ t ∈ taken, t.kind ≠ .endOfFile) : Closed queue := by
  obtain ⟨t, ht, hk⟩ := h
  rcases List.mem_append.mp ht with h | h
  · exact absurd hk (htaken t h)
  · exact ⟨t, h, hk⟩

theorem Closed.of_cons {t : Token} {queue : List Token} (h : Closed (t :: queue))
    (ht : t.kind ≠ .endOfFile) : Closed queue :=
  Closed.of_append (show Closed ([t] ++ queue) from h) (by simpa using ht)

theorem Closed.exists_cons {queue : List Token} (h : Closed queue) :
    ∃ t rest, queue = t :: rest := by
  cases queue with
  | nil => obtain ⟨t, ht, -⟩ := h; cases ht
  | cons t rest => exact ⟨t, rest, rfl⟩

/-- Some tokens begin with a phrase that fits at a depth, or are stuck in one. -/
def Settles (rank : Rank) (depth : Nat) (queue : List Token) : Prop :=
  (∃ (D : Derivation rank) (rest : List Token),
    queue = D.tokens ++ rest ∧ D.Fits depth ∧ Halts rank rest) ∨
  ∃ taken t rest e, queue = taken ++ t :: rest ∧ Stuck (.phrase rank) depth taken t e

/-- Some tokens begin with links that fit at a depth, or are stuck among them. -/
def SettlesLinks (level : Operator.Level) (depth : Nat) (queue : List Token) : Prop :=
  (∃ (links : Links level) (rest : List Token),
    queue = links.tokens ++ rest ∧ links.Fits depth ∧ Halts (.chain level) rest) ∨
  ∃ taken t rest e, queue = taken ++ t :: rest ∧ Stuck (.links level) depth taken t e

section Settles

variable {depth n : Nat} {queue : List Token}

theorem settles_group (opening : Terminal .openParen)
    (hinner : Settles .expression (depth + 1) queue) (hclosed : Closed queue) :
    Settles .operand depth (opening.token :: queue) := by
  by_cases hdepth : depth + 1 ≤ maxDepth
  · rcases hinner with ⟨D, rest, rfl, hfits, hhalts⟩ | ⟨taken, t, rest, e, rfl, hstuck⟩
    · obtain ⟨t, rest, rfl⟩ := (hclosed.of_append D.kind_ne_of_mem).exists_cons
      by_cases hk : t.kind = .closeParen
      · exact .inl ⟨.group opening D ⟨t, hk⟩, rest, by simp [Derivation.tokens],
          Derivation.fits_group.mpr ⟨hdepth, hfits⟩, fun _ _ => trivial⟩
      · exact .inr ⟨_, t, rest, _, rfl,
          .unclosed opening D hdepth hfits (halts_cons.mp hhalts) hk⟩
    · exact .inr ⟨_, t, rest, e, rfl, .inGroup opening hdepth hstuck⟩
  · exact .inr ⟨[], opening.token, queue, _, rfl, .groupTooDeep opening (by omega)⟩

/-- Operands are settled if shorter expressions are. -/
theorem settles_operand
    (hinner : ∀ q : List Token, q.length < queue.length → Closed q → ∀ d, Settles .expression d q)
    (hclosed : Closed queue) : Settles .operand depth queue := by
  obtain ⟨t, rest, rfl⟩ := hclosed.exists_cons
  by_cases hopens : t.Opens
  · rcases hopens with hk | hk | hk
    · exact .inl ⟨.name ⟨t, hk⟩, rest, rfl, Derivation.fits_name _, fun _ _ => trivial⟩
    · cases hread : Number.read? t.text with
      | none => exact .inr ⟨[], t, rest, _, rfl, .badNumber hk hread⟩
      | some value =>
        exact .inl ⟨.number ⟨t, value, hk, hread⟩, rest, rfl, Derivation.fits_number _,
          fun _ _ => trivial⟩
    · have hrest := hclosed.of_cons (by simp [hk])
      exact settles_group ⟨t, hk⟩ (hinner rest (by simp) hrest _) hrest
  · exact .inr ⟨[], t, rest, _, rfl, .noOperand hopens⟩

/-- Links are settled if items are. The induction is on the number of tokens, which every operator
    and its item make smaller. -/
theorem settles_links {level : Operator.Level}
    (hitem : ∀ q : List Token, q.length < n → Closed q → ∀ d, Settles level.item d q) :
    ∀ m, ∀ queue : List Token, queue.length = m → m ≤ n → Closed queue →
      Halts level.item queue → ∀ depth, SettlesLinks level depth queue := by
  intro m
  induction m using Nat.strongRecOn with
  | ind m ih =>
    intro queue hm hn hclosed hhalts depth
    obtain ⟨t, rest, rfl⟩ := hclosed.exists_cons
    rw [List.length_cons] at hm
    by_cases hjoins : t.Joins level
    · obtain ⟨joint, rfl⟩ := hjoins
      have hrest := hclosed.of_cons (by simp [joint.kind_eq])
      by_cases hdepth : depth + 1 ≤ maxDepth
      · rcases hitem rest (by omega) hrest (depth + 1) with
          ⟨D, after, rfl, hfits, hafter⟩ | ⟨taken, t, after, e, rfl, hstuck⟩
        · rw [List.length_append] at hm
          have hmore := ih after.length (by omega) after rfl (by omega)
            (hrest.of_append D.kind_ne_of_mem) hafter (depth + 1)
          rcases hmore with ⟨L, last, rfl, hL, hlast⟩ | ⟨taken, t, last, e, rfl, hstuck⟩
          · exact .inl ⟨.cons joint D L, last, by simp [Links.tokens],
              Links.fits_cons.mpr ⟨hdepth, hfits, hL⟩, hlast⟩
          · exact .inr ⟨_, t, last, e, by simp, .linkRest joint D hdepth hfits hstuck⟩
        · exact .inr ⟨_, t, after, e, rfl, .linkItem joint hdepth hstuck⟩
      · exact .inr ⟨[], joint.token, rest, _, rfl, .linkTooDeep joint (by omega)⟩
    · exact .inl ⟨.nil, t :: rest, rfl, Links.fits_nil,
        halts_cons.mpr (Token.stops_chain.mpr ⟨halts_cons.mp hhalts, hjoins⟩)⟩

/-- Chains are settled if their items are. -/
theorem settles_chain {level : Operator.Level}
    (hitem : ∀ q : List Token, q.length ≤ queue.length → Closed q →
      ∀ d, Settles level.item d q)
    (hclosed : Closed queue) : Settles (.chain level) depth queue := by
  rcases hitem queue (Nat.le_refl _) hclosed depth with
    ⟨D, rest, rfl, hfits, hrest⟩ | ⟨taken, t, rest, e, rfl, hstuck⟩
  · have hlinks : SettlesLinks level depth rest :=
      settles_links (n := rest.length + 1) (fun q hq => hitem q (by rw [List.length_append]; omega))
        rest.length rest rfl (by omega) (hclosed.of_append D.kind_ne_of_mem) hrest depth
    rcases hlinks with ⟨L, last, rfl, hL, hlast⟩ | ⟨taken, t, last, e, rfl, hstuck⟩
    · exact .inl ⟨.chain D L, last, by simp [Derivation.tokens],
        Derivation.fits_chain.mpr ⟨hfits, hL⟩, hlast⟩
    · exact .inr ⟨_, t, last, e, by simp, .rest D hfits hstuck⟩
  · exact .inr ⟨taken, t, rest, e, rfl, .first hstuck⟩

/-- Tokens begin with an expression that fits, or are stuck in one. An inner expression begins
    after a token that is taken, so the induction is on the number of tokens. -/
theorem settles_expression :
    ∀ m, ∀ queue : List Token, queue.length = m → Closed queue →
      ∀ depth, Settles .expression depth queue := by
  intro m
  induction m using Nat.strongRecOn with
  | ind m ih =>
    intro queue hm hclosed depth
    have hinner : ∀ q : List Token, q.length < queue.length → Closed q →
        ∀ d, Settles .expression d q := fun q hq hc d => ih q.length (by omega) q rfl hc d
    have hoperand : ∀ q : List Token, q.length ≤ queue.length → Closed q →
        ∀ d, Settles .operand d q := fun q hq hc d =>
      settles_operand (fun q' hq' => hinner q' (by omega)) hc
    have hproduct : ∀ q : List Token, q.length ≤ queue.length → Closed q →
        ∀ d, Settles (.chain .multiplicative) d q := fun q hq hc d =>
      settles_chain (fun q' hq' => hoperand q' (by omega)) hc
    have hsum : Settles (.chain .additive) depth queue := settles_chain hproduct hclosed
    rcases hsum with ⟨D, rest, rfl, hfits, hrest⟩ | ⟨taken, t, rest, e, rfl, hstuck⟩
    · obtain ⟨t, rest, rfl⟩ := (hclosed.of_append D.kind_ne_of_mem).exists_cons
      by_cases hk : t.kind = .equals
      · by_cases hdepth : depth + 1 ≤ maxDepth
        · have hc := (hclosed.of_append D.kind_ne_of_mem).of_cons (by simp [hk])
          rcases hinner rest (by simp; omega) hc (depth + 1) with
            ⟨V, last, rfl, hV, hlast⟩ | ⟨taken, u, last, e, rfl, hstuck⟩
          · exact .inl ⟨.assign D ⟨t, hk⟩ V, last, by simp [Derivation.tokens],
              Derivation.fits_assign.mpr ⟨hfits, hdepth, hV⟩, hlast⟩
          · exact .inr ⟨_, u, last, e, by simp, .assignValue D ⟨t, hk⟩ hfits hdepth hstuck⟩
        · exact .inr ⟨_, t, rest, _, rfl, .assignTooDeep D ⟨t, hk⟩ hfits (by omega)⟩
      · exact .inl ⟨.sum D, t :: rest, rfl, Derivation.fits_sum.mpr hfits,
          halts_cons.mpr (Token.stops_expression.mpr ⟨halts_cons.mp hrest, hk⟩)⟩
    · exact .inr ⟨taken, t, rest, e, rfl, .sum hstuck⟩

end Settles

/-! ## Failed statements -/

/-- `StuckStatement depth taken t e`: reading a statement at a depth takes the tokens `taken` and
    fails at the token `t` after them, with the fault `e`. Only a constant without a value is at
    fault as a whole. -/
inductive StuckStatement (depth : Nat) : List Token → Token → Fault → Prop
  | express {taken : List Token} {t : Token} {e : Fault}
      (h : Stuck (.phrase .expression) depth taken t e)
      (hhead : ∀ u ∈ (taken ++ [t]).head?,
        u.kind ≠ .letWord ∧ u.kind ≠ .constWord ∧ u.kind ≠ .endOfFile) :
      StuckStatement depth taken t e
  | noName {t : Token} (word : Declarer) (h : t.kind ≠ .identifier) :
      StuckStatement depth [word.token] t (.unexpected (.declaredName word.token.text) t)
  | noValue (word : Terminal .constWord) (name : Terminal .identifier)
      (semicolon : Terminal .semicolon) :
      StuckStatement depth [word.token, name.token] semicolon.token
        (.valueMissing name.token.text (word.token.span.hull semicolon.token.span))
  | noEquals {t : Token} (word : Declarer) (name : Terminal .identifier)
      (h₁ : t.kind ≠ .semicolon) (h₂ : t.kind ≠ .equals) :
      StuckStatement depth [word.token, name.token] t (.unexpected .declaredEquals t)
  | inValue {taken : List Token} {t : Token} {e : Fault} (word : Declarer)
      (name : Terminal .identifier) (sign : Terminal .equals)
      (h : Stuck (.phrase .expression) depth taken t e) :
      StuckStatement depth (word.token :: name.token :: sign.token :: taken) t e
  | noEnd {t : Token} (word : Declarer) (name : Terminal .identifier)
      (sign : Terminal .equals) (value : Derivation .expression) (hvalue : value.Fits depth)
      (hstop : t.Stops .expression) (hne : t.kind ≠ .semicolon) :
      StuckStatement depth (word.token :: name.token :: sign.token :: value.tokens) t
        (.unexpected .declaredEnd t)

/-- `StuckProgram depth taken t e`: reading statements at a depth takes the tokens `taken` and
    fails at the token `t` after them, with the fault `e`. -/
inductive StuckProgram (depth : Nat) : List Token → Token → Fault → Prop
  | here {taken : List Token} {t : Token} {e : Fault}
      (h : StuckStatement depth taken t e) : StuckProgram depth taken t e
  | later {taken : List Token} {t : Token} {e : Fault} (s : Sentence)
      (hfits : s.Fits depth) (hends : s.EndsBefore (taken ++ [t]))
      (h : StuckProgram depth taken t e) : StuckProgram depth (s.tokens ++ taken) t e

theorem Declarer.kind_ne (word : Declarer) : word.token.kind ≠ .endOfFile := by
  rcases word.kind_eq with h | h <;> simp [h]

/-- A statement that fails has begun before the end. -/
theorem StuckStatement.head_kind_ne {depth : Nat} {taken : List Token} {t : Token} {e : Fault}
    (h : StuckStatement depth taken t e) :
    ∀ u ∈ (taken ++ [t]).head?, u.kind ≠ .endOfFile := by
  intro u hu
  cases h with
  | express _ hhead => exact (hhead u hu).2.2
  | noName word => obtain rfl := Option.some.inj hu; exact word.kind_ne
  | noValue word => obtain rfl := Option.some.inj hu; simp [word.kind_eq]
  | noEquals word => obtain rfl := Option.some.inj hu; exact word.kind_ne
  | inValue word => obtain rfl := Option.some.inj hu; exact word.kind_ne
  | noEnd word => obtain rfl := Option.some.inj hu; exact word.kind_ne

/-- The token at hand is the first of those taken before a failure, or the one that fails. -/
theorem token_mem_head? (last : Token) (hl : last.kind = .endOfFile) (depth : Nat)
    (taken : List Token) (t : Token) (queue : List Token) :
    Cursor.token ⟨taken ++ t :: queue, last, depth, hl⟩ ∈ (taken ++ [t]).head? := by
  cases taken <;> rfl

section FailedStatements

open Phrase Reader

variable (last : Token) (hl : last.kind = .endOfFile) {depth : Nat} {taken : List Token}
  {t : Token} {e : Fault}

/-- Where an expression is stuck reading one fails. -/
theorem Stuck.run_expression (h : Stuck (.phrase .expression) depth taken t e)
    (queue : List Token) :
    ∃ rest, expression.run ⟨taken ++ t :: queue, last, depth, hl⟩ = .error e rest := by
  obtain ⟨rest, hrest⟩ := h.fails last hl queue (taken ++ t :: queue).length (by simp)
  exact ⟨rest, hrest⟩

/-- Where a statement is stuck reading one fails. -/
theorem StuckStatement.run_statement (h : StuckStatement depth taken t e) (queue : List Token) :
    ∃ rest, statement.run ⟨taken ++ t :: queue, last, depth, hl⟩ = .error e rest := by
  cases h with
  | express h hhead =>
    obtain ⟨rest, hrest⟩ := h.run_expression last hl queue
    have htoken := token_mem_head? last hl depth taken t queue
    obtain ⟨h₁, h₂, -⟩ := hhead _ htoken
    rw [run_statement_express h₁ h₂]
    exact ⟨rest, run_bind_of_error _ hrest⟩
  | noName word h =>
    simp only [List.cons_append, List.nil_append]
    rw [run_declaration word]
    exact ⟨_, run_bind_of_error _ (run_require_of_ne h)⟩
  | noValue word name semicolon =>
    simp only [List.cons_append, List.nil_append]
    rw [run_declaration ⟨word.token, .inr word.kind_eq⟩,
      run_bind_of_ok _ (run_require_of_eq name.kind_eq), run_declarationRest_semicolon,
      if_pos word.kind_eq]
    exact ⟨_, rfl⟩
  | noEquals word name h₁ h₂ =>
    simp only [List.cons_append, List.nil_append]
    rw [run_declaration word, run_bind_of_ok _ (run_require_of_eq name.kind_eq)]
    exact ⟨_, run_declarationRest_of_ne word.token name.token h₁ h₂⟩
  | inValue word name sign h =>
    obtain ⟨rest, hrest⟩ := h.run_expression last hl queue
    simp only [List.cons_append]
    rw [run_declaration word, run_bind_of_ok _ (run_require_of_eq name.kind_eq),
      run_declarationRest_sign]
    exact ⟨rest, run_bind_of_error _ hrest⟩
  | noEnd word name sign value hvalue hstop hne =>
    simp only [List.cons_append]
    rw [run_declaration word, run_bind_of_ok _ (run_require_of_eq name.kind_eq),
      run_declarationRest_sign, valueRest,
      run_bind_of_ok _ (value.run_expression hvalue (halts_cons.mpr hstop))]
    exact ⟨_, run_bind_of_error _ (run_require_of_ne hne)⟩

/-- Where a program is stuck reading fails, whatever follows the token at which it is. -/
theorem StuckProgram.statementsFrom_fails (h : StuckProgram depth taken t e)
    (queue : List Token) :
    ∃ rest, statementsFrom ⟨taken ++ t :: queue, last, depth, hl⟩ = .error e rest := by
  induction h with
  | @here taken t e h =>
    obtain ⟨rest, hrest⟩ := h.run_statement last hl queue
    have htoken := token_mem_head? last hl depth taken t queue
    have hne := h.head_kind_ne _ htoken
    refine ⟨rest, ?_⟩
    rw [statementsFrom, if_neg (by simpa [Cursor.atEnd] using hne)]
    split
    next e' mid hrun => rw [hrest] at hrun; cases hrun; rfl
    next first mid hrun => rw [hrest] at hrun; cases hrun
  | @later taken t e s hfits hends h ih =>
    obtain ⟨rest, hrest⟩ := ih
    have hnext : s.EndsBefore (taken ++ t :: queue) := by
      cases taken <;> exact hends
    refine ⟨rest, ?_⟩
    rw [List.append_assoc, s.statementsFrom_cons hfits hnext, hrest]

end FailedStatements

/-! ## Tokens are a program or get stuck -/

/-- Some tokens begin with a statement that fits at a depth, or are stuck in one. -/
def SettlesStatement (depth : Nat) (queue : List Token) : Prop :=
  (∃ (s : Sentence) (rest : List Token),
    queue = s.tokens ++ rest ∧ s.Fits depth ∧ s.EndsBefore rest) ∨
  ∃ taken t rest e, queue = taken ++ t :: rest ∧ StuckStatement depth taken t e

section SettlesStatement

variable {depth : Nat} {queue : List Token}

/-- A declaration is settled from its equals sign on. -/
theorem settlesStatement_value (word : Declarer) (name : Terminal .identifier)
    (sign : Terminal .equals) (hclosed : Closed queue) :
    SettlesStatement depth (word.token :: name.token :: sign.token :: queue) := by
  rcases settles_expression _ queue rfl hclosed depth with
    ⟨D, rest, rfl, hfits, hrest⟩ | ⟨taken, t, rest, e, rfl, hstuck⟩
  · obtain ⟨t, rest, rfl⟩ := (hclosed.of_append D.kind_ne_of_mem).exists_cons
    by_cases hk : t.kind = .semicolon
    · exact .inl ⟨.define word name sign D ⟨t, hk⟩, rest, by simp [Sentence.tokens],
        Sentence.fits_define.mpr hfits, fun _ _ => trivial⟩
    · exact .inr ⟨_, t, rest, _, rfl,
        .noEnd word name sign D hfits (halts_cons.mp hrest) hk⟩
  · exact .inr ⟨_, t, rest, e, rfl, .inValue word name sign hstuck⟩

/-- A declaration is settled. -/
theorem settlesStatement_declaration (word : Declarer) (hclosed : Closed queue) :
    SettlesStatement depth (word.token :: queue) := by
  obtain ⟨name, queue, rfl⟩ := hclosed.exists_cons
  by_cases hname : name.kind = .identifier
  · have hafter := hclosed.of_cons (by simp [hname])
    obtain ⟨t, rest, rfl⟩ := hafter.exists_cons
    by_cases hsemicolon : t.kind = .semicolon
    · by_cases hlet : word.token.kind = .letWord
      · exact .inl ⟨.declare ⟨word.token, hlet⟩ ⟨name, hname⟩ ⟨t, hsemicolon⟩, rest, rfl,
          Sentence.fits_declare, fun _ _ => trivial⟩
      · have hconst : word.token.kind = .constWord := word.kind_eq.resolve_left hlet
        exact .inr ⟨_, t, rest, _, rfl,
          .noValue ⟨word.token, hconst⟩ ⟨name, hname⟩ ⟨t, hsemicolon⟩⟩
    · by_cases hequals : t.kind = .equals
      · exact settlesStatement_value word ⟨name, hname⟩ ⟨t, hequals⟩
          (hafter.of_cons (by simp [hequals]))
      · exact .inr ⟨_, t, rest, _, rfl, .noEquals word ⟨name, hname⟩ hsemicolon hequals⟩
  · exact .inr ⟨_, name, queue, _, rfl, .noName word hname⟩

/-- An expression on its own is settled. -/
theorem settlesStatement_express (hclosed : Closed queue)
    (hhead : ∀ u ∈ queue.head?,
      u.kind ≠ .letWord ∧ u.kind ≠ .constWord ∧ u.kind ≠ .endOfFile) :
    SettlesStatement depth queue := by
  rcases settles_expression _ queue rfl hclosed depth with
    ⟨D, rest, rfl, hfits, hrest⟩ | ⟨taken, t, rest, e, rfl, hstuck⟩
  · obtain ⟨t, rest, rfl⟩ := (hclosed.of_append D.kind_ne_of_mem).exists_cons
    by_cases hk : t.kind = .semicolon
    · exact .inl ⟨.express D (some ⟨t, hk⟩), rest, by simp [Sentence.tokens],
        Sentence.fits_express.mpr hfits, fun _ _ => trivial⟩
    · refine .inl ⟨.express D none, t :: rest, rfl, Sentence.fits_express.mpr hfits, ?_⟩
      intro u hu
      obtain rfl := Option.some.inj hu
      exact ⟨halts_cons.mp hrest, hk⟩
  · refine .inr ⟨taken, t, rest, e, rfl, .express hstuck ?_⟩
    intro u hu
    exact hhead u (by cases taken <;> exact hu)

theorem settlesStatement (hclosed : Closed queue)
    (hhead : ∀ u ∈ queue.head?, u.kind ≠ .endOfFile) : SettlesStatement depth queue := by
  obtain ⟨t, rest, rfl⟩ := hclosed.exists_cons
  have ht : t.kind ≠ .endOfFile := hhead t rfl
  by_cases hdeclares : t.kind = .letWord ∨ t.kind = .constWord
  · exact settlesStatement_declaration ⟨t, hdeclares⟩ (hclosed.of_cons ht)
  · refine settlesStatement_express hclosed ?_
    intro u hu
    obtain rfl := Option.some.inj hu
    exact ⟨fun h => hdeclares (.inl h), fun h => hdeclares (.inr h), ht⟩

end SettlesStatement

/-- Tokens are statements that fit up to an end token, or are stuck in one of them. -/
theorem settles_program {depth : Nat} :
    ∀ m, ∀ queue : List Token, queue.length = m → Closed queue →
      (∃ sentences t rest, queue = Sentence.yield sentences ++ t :: rest ∧
        (∀ s ∈ sentences, s.Fits depth) ∧ t.kind = .endOfFile) ∨
      ∃ taken t rest e, queue = taken ++ t :: rest ∧ StuckProgram depth taken t e := by
  intro m
  induction m using Nat.strongRecOn with
  | ind m ih =>
    intro queue hm hclosed
    obtain ⟨t, rest, rfl⟩ := hclosed.exists_cons
    by_cases hend : t.kind = .endOfFile
    · exact .inl ⟨[], t, rest, rfl, by simp, hend⟩
    · have hhead : ∀ u ∈ (t :: rest).head?, u.kind ≠ .endOfFile := by simpa using hend
      have hfirst : SettlesStatement depth (t :: rest) := settlesStatement hclosed hhead
      rcases hfirst with
        ⟨s, after, hs, hfits, hends⟩ | ⟨taken, u, after, e, hs, hstuck⟩
      · rw [hs] at hm hclosed ⊢
        obtain ⟨u, more, htokens, -⟩ := s.exists_tokens_eq_cons
        have hlength : after.length < m := by
          rw [← hm, htokens, List.length_append, List.length_cons]
          omega
        rcases ih after.length hlength after rfl (hclosed.of_append s.kind_ne_of_mem) with
          ⟨sentences, v, last, rfl, hall, hv⟩ | ⟨taken, v, last, e, rfl, hstuck⟩
        · refine .inl ⟨s :: sentences, v, last, by simp, ?_, hv⟩
          intro x hx
          rcases List.mem_cons.mp hx with rfl | hx
          · exact hfits
          · exact hall x hx
        · refine .inr ⟨_, v, last, e, (List.append_assoc _ _ _).symm, .later s hfits ?_ hstuck⟩
          cases taken <;> exact hends
      · exact .inr ⟨taken, u, after, e, hs, .here hstuck⟩

end Quill
