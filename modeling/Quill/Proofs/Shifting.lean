import Quill.Proofs.Writing

/-!
# Texts further on

A text behind another one, with a space between them, is scanned and read as it is by itself, except
that all its spans are further on by as many characters as stand before it.

* `Token.ofSource_append`: the tokens of two texts with a gap between them.
* `Derivation.tree_shift`: a derivation further on has its tree further on.
* `Program.ofSource_append`: the program of two texts with a gap between them.
* `Program.Leads`: the texts behind which any other one can stand.
-/

namespace Quill

/-! ## Spans further on -/

/-- A span further on. -/
def Span.shift (k : Nat) (s : Span) : Span := ⟨s.start + k, s.stop + k⟩

/-- A token further on. -/
def Token.shift (k : Nat) (t : Token) : Token := { t with span := t.span.shift k }

/-- An expression further on. -/
def Expr.shift (k : Nat) : Expr → Expr
  | .assign target value span => .assign (target.shift k) (value.shift k) (span.shift k)
  | .binary left op right span => .binary (left.shift k) op (right.shift k) (span.shift k)
  | .name symbol span => .name symbol (span.shift k)
  | .number value span => .number value (span.shift k)

/-- A statement further on. -/
def Statement.shift (k : Nat) : Statement → Statement
  | .declare name constant value span =>
    .declare name constant (value.map (Expr.shift k)) (span.shift k)
  | .expression expr span => .expression (expr.shift k) (span.shift k)

section Spans

variable (k : Nat)

theorem Span.hull_shift (a b : Span) : (a.shift k).hull (b.shift k) = (a.hull b).shift k := by
  ext
  · show min (a.start + k) (b.start + k) = min a.start b.start + k
    omega
  · show max (a.stop + k) (b.stop + k) = max a.stop b.stop + k
    omega

@[simp] theorem Token.shift_text (t : Token) : (t.shift k).text = t.text := rfl

@[simp] theorem Token.shift_span (t : Token) : (t.shift k).span = t.span.shift k := rfl

theorem Token.shift_ending (n : Nat) : (ending n).shift k = ending (n + k) := rfl

theorem Expr.span_shift (e : Expr) : (e.shift k).span = e.span.shift k := by
  cases e <;> rfl

theorem Span.shift_zero (s : Span) : s.shift 0 = s := rfl

theorem Expr.shift_zero (e : Expr) : e.shift 0 = e := by
  induction e with
  | assign target value span ihtarget ihvalue => rw [shift, ihtarget, ihvalue, Span.shift_zero]
  | binary left op right span ihleft ihright => rw [shift, ihleft, ihright, Span.shift_zero]
  | name symbol span => rfl
  | number value span => rfl

theorem Statement.shift_zero (st : Statement) : st.shift 0 = st := by
  match st with
  | .declare name constant none span => rfl
  | .declare name constant (some e) span =>
    rw [shift, Option.map_some, e.shift_zero, Span.shift_zero]
  | .expression e span => rw [shift, e.shift_zero, Span.shift_zero]

theorem Expr.shift_join (left : Expr) (op : Operator) (right : Expr) :
    (left.join op right).shift k = (left.shift k).join op (right.shift k) := by
  simp only [Expr.join, Expr.shift, Expr.span_shift, Span.hull_shift]

theorem Expr.shift_assigned (target value : Expr) :
    (target.assigned value).shift k = (target.shift k).assigned (value.shift k) := by
  simp only [Expr.assigned, Expr.shift, Expr.span_shift, Span.hull_shift]

end Spans

/-! ## Scanning further on -/

namespace Token

section Placed

variable {letter : Char → Bool} {start : Nat} (k : Nat)

/-- Placed tokens stay placed further on. -/
theorem Placed.shift {items : List (Token × List Char)} (h : Placed letter start items) :
    Placed letter (start + k) (items.map fun item => (item.1.shift k, item.2)) := by
  induction items generalizing start with
  | nil => trivial
  | cons item items ih =>
    obtain ⟨t, gap⟩ := item
    obtain ⟨hgap, hspells, hspan, hnext, hrest⟩ := h
    refine ⟨hgap, hspells, ?_, ?_, ?_⟩
    · rw [shift_span, hspan]
      show (⟨start + k, start + t.text.length + k⟩ : Span) = ⟨start + k, start + k + t.text.length⟩
      rw [Nat.add_right_comm]
    · intro next hmem
      rw [List.head?_map, Option.mem_def, Option.map_eq_some_iff] at hmem
      obtain ⟨item, hitem, rfl⟩ := hmem
      exact hnext item hitem
    · have hplaced := ih hrest
      rwa [show start + t.text.length + gap.length + k = start + k + t.text.length + gap.length by
        omega] at hplaced

theorem PlacedFrom.shift {cs : List Char} {tokens : List Token}
    (h : PlacedFrom letter start cs tokens) :
    PlacedFrom letter (start + k) cs (tokens.map (Token.shift k)) := by
  obtain ⟨gap, items, rfl, hcs, hgap, hitems⟩ := h
  refine ⟨gap, items.map fun item => (item.1.shift k, item.2), ?_, ?_, hgap, ?_⟩
  · rw [List.map_append, List.map_map, List.map_map, List.map_singleton, shift_ending,
      Nat.add_right_comm]
    rfl
  · rw [hcs, spread, spread, List.flatMap_map]
    rfl
  · rw [Nat.add_right_comm]
    exact hitems.shift k

end Placed

/-- The tokens of a source text before its end are placed in it. -/
theorem placed_of_ofSource {source : String} {tokens : List Token}
    (h : ofSource source = .ok tokens) :
    ∃ space items, beforeEnd tokens = items.map Prod.fst ∧
      source.toList = space ++ spread items ∧ Spaces space ∧
      Placed Text.isCased space.length items := by
  rw [ofSource_eq_ok_iff] at h
  obtain ⟨space, items, htokens, hsource, hspace, hitems⟩ :=
    placedFrom_of_scanFrom alphabet_isCased h
  rw [Nat.zero_add] at hitems
  have hkinds : ∀ t ∈ items.map Prod.fst, t.kind ≠ .endOfFile := by
    intro t ht hk
    obtain ⟨item, hitem, rfl⟩ := List.mem_map.mp ht
    have hspells := (((placed_iff _ items).mp hitems).1 item hitem).2
    rw [hk] at hspells
    exact hspells
  refine ⟨space, items, ?_, hsource, hspace, hitems⟩
  rw [htokens]
  exact beforeEnd_append_cons hkinds rfl

theorem beforeEnd_map_shift (k : Nat) (tokens : List Token) :
    beforeEnd (tokens.map (Token.shift k)) = (beforeEnd tokens).map (Token.shift k) := by
  rw [beforeEnd, beforeEnd, List.takeWhile_map]
  rfl

end Token

/-- Characters that keep two texts apart: one space, tab or line end or more. -/
structure Gap where
  text : String
  spaces : Token.Spaces text.toList
  ne_empty : text ≠ ""

namespace Token

/-- The tokens of two texts with a gap between them are those of the first up to its end, and those
    of the second further on. -/
theorem ofSource_append (gap : Gap) {source₁ source₂ : String} {tokens₁ tokens₂ : List Token}
    (h₁ : ofSource source₁ = .ok tokens₁) (h₂ : ofSource source₂ = .ok tokens₂) :
    ofSource (source₁ ++ gap.text ++ source₂) =
      .ok (beforeEnd tokens₁ ++
        tokens₂.map (Token.shift (source₁.length + gap.text.length))) := by
  obtain ⟨space, items, hbefore, hsource, hspace, hitems⟩ := placed_of_ofSource h₁
  rw [ofSource_eq_ok_iff] at h₂ ⊢
  -- the second text is scanned behind the first and the gap
  have hsecond := scanFrom_of_placedFrom alphabet_isCased
    ((placedFrom_of_scanFrom alphabet_isCased h₂).shift (source₁.length + gap.text.length))
  rw [Nat.zero_add] at hsecond
  have hafter : ∀ d ∈ (gap.text.toList ++ source₂.toList).head?, isSpacing d = true := by
    obtain ⟨c, cs, hgap⟩ := List.exists_cons_of_ne_nil (mt String.toList_eq_nil_iff.mp gap.ne_empty)
    rw [hgap]
    intro d hd
    obtain rfl := Option.some.inj hd
    exact (mem_spacing_iff c).mp (gap.spaces c (by rw [hgap]; exact List.mem_cons_self))
  have hlength : source₁.length = space.length + (spread items).length := by
    rw [← String.length_toList, hsource, List.length_append]
  rw [scan, String.toList_append, String.toList_append, hsource, List.append_assoc,
    List.append_assoc, scanFrom_spaces hspace, Nat.zero_add,
    scanFrom_spread_append alphabet_isCased hitems hafter, scanFrom_spaces gap.spaces,
    String.length_toList, ← hlength, hsecond, hbefore]

end Token

/-! ## Derivations further on -/

mutual

/-- A derivation further on. -/
def Derivation.shift (k : Nat) : {rank : Rank} → Derivation rank → Derivation rank
  | _, .name word => .name (word.respan (word.token.shift k) rfl)
  | _, .number digits => .number (digits.respan (digits.token.shift k) rfl)
  | _, .group opening inner closing =>
    .group (opening.respan (opening.token.shift k) rfl) (inner.shift k)
      (closing.respan (closing.token.shift k) rfl)
  | _, .chain first rest => .chain (first.shift k) (rest.shift k)
  | _, .sum s => .sum (s.shift k)
  | _, .assign target sign value =>
    .assign (target.shift k) (sign.respan (sign.token.shift k) rfl) (value.shift k)

/-- Links further on. -/
def Links.shift (k : Nat) : {level : Operator.Level} → Links level → Links level
  | _, .nil => .nil
  | _, .cons joint item rest =>
    .cons (joint.respan (joint.token.shift k) rfl) (item.shift k) (rest.shift k)

end

section Shift

variable (k : Nat)

mutual

theorem Derivation.tokens_shift :
    ∀ {rank : Rank} (D : Derivation rank), (D.shift k).tokens = D.tokens.map (Token.shift k)
  | _, .name word => rfl
  | _, .number digits => rfl
  | _, .group opening inner closing => by
    simp only [Derivation.shift, Derivation.tokens, inner.tokens_shift, List.map_cons,
      List.map_append, List.map_nil, Terminal.respan]
  | _, .chain first rest => by
    simp only [Derivation.shift, Derivation.tokens, first.tokens_shift, rest.tokens_shift,
      List.map_append]
  | _, .sum s => s.tokens_shift
  | _, .assign target sign value => by
    simp only [Derivation.shift, Derivation.tokens, target.tokens_shift, value.tokens_shift,
      List.map_append, List.map_cons, Terminal.respan]

theorem Links.tokens_shift :
    ∀ {level : Operator.Level} (L : Links level), (L.shift k).tokens = L.tokens.map (Token.shift k)
  | _, .nil => rfl
  | _, .cons joint item rest => by
    simp only [Links.shift, Links.tokens, item.tokens_shift, rest.tokens_shift, List.map_cons,
      List.map_append, Joint.respan]

end

mutual

theorem Derivation.cost_shift :
    ∀ {rank : Rank} (D : Derivation rank), (D.shift k).cost = D.cost
  | _, .name word => rfl
  | _, .number digits => rfl
  | _, .group opening inner closing => congrArg (1 + ·) inner.cost_shift
  | _, .chain first rest => by
    rw [Derivation.shift, Derivation.cost, first.cost_shift, rest.cost_shift, Derivation.cost]
  | _, .sum s => s.cost_shift
  | _, .assign target sign value => by
    rw [Derivation.shift, Derivation.cost, target.cost_shift, value.cost_shift, Derivation.cost]

theorem Links.cost_shift :
    ∀ {level : Operator.Level} (L : Links level), (L.shift k).cost = L.cost
  | _, .nil => rfl
  | _, .cons joint item rest => by
    rw [Links.shift, Links.cost, item.cost_shift, rest.cost_shift, Links.cost]

end

mutual

/-- A derivation further on has its tree further on. -/
theorem Derivation.tree_shift :
    ∀ {rank : Rank} (D : Derivation rank), (D.shift k).tree = D.tree.shift k
  | _, .name word => rfl
  | _, .number digits => rfl
  | _, .group opening inner closing => inner.tree_shift
  | _, .chain first rest => by
    rw [Derivation.shift, Derivation.tree, first.tree_shift, rest.fold_shift, Derivation.tree]
  | _, .sum s => s.tree_shift
  | _, .assign target sign value => by
    rw [Derivation.shift, Derivation.tree, target.tree_shift, value.tree_shift, Derivation.tree,
      Expr.shift_assigned]

theorem Links.fold_shift :
    ∀ {level : Operator.Level} (L : Links level) (left : Expr),
      (L.shift k).fold (left.shift k) = (L.fold left).shift k
  | _, .nil, left => rfl
  | _, .cons joint item rest, left => by
    have hjoin : (left.shift k).join joint.operator (item.tree.shift k) =
        (left.join joint.operator item.tree).shift k := (Expr.shift_join k _ _ _).symm
    rw [Links.shift, Links.fold, item.tree_shift, Links.fold, ← rest.fold_shift, ← hjoin]
    rfl

end

end Shift

/-! ## Statements further on -/

namespace Sentence

/-- The derivation of a statement further on. -/
def shift (k : Nat) : Sentence → Sentence
  | .declare word name semicolon =>
    .declare (word.respan (word.token.shift k) rfl) (name.respan (name.token.shift k) rfl)
      (semicolon.respan (semicolon.token.shift k) rfl)
  | .define word name sign value semicolon =>
    .define (word.respan (word.token.shift k) rfl) (name.respan (name.token.shift k) rfl)
      (sign.respan (sign.token.shift k) rfl) (value.shift k)
      (semicolon.respan (semicolon.token.shift k) rfl)
  | .express e none => .express (e.shift k) none
  | .express e (some semicolon) =>
    .express (e.shift k) (some (semicolon.respan (semicolon.token.shift k) rfl))

section Shift

variable (k : Nat) (s : Sentence)

theorem tokens_shift : (s.shift k).tokens = s.tokens.map (Token.shift k) := by
  match s with
  | .declare word name semicolon => rfl
  | .define word name sign value semicolon =>
    simp only [shift, tokens, value.tokens_shift, List.map_cons, List.map_append, List.map_nil,
      Terminal.respan, Declarer.respan]
  | .express e none => exact e.tokens_shift k
  | .express e (some semicolon) =>
    simp only [shift, tokens, e.tokens_shift, List.map_append, List.map_cons, List.map_nil,
      Terminal.respan]

theorem tree_shift : (s.shift k).tree = s.tree.shift k := by
  match s with
  | .declare word name semicolon =>
    simp only [shift, tree, Statement.shift, Terminal.respan, Token.shift_text, Token.shift_span,
      Span.hull_shift, Option.map_none]
  | .define word name sign value semicolon =>
    simp only [shift, tree, Statement.shift, Terminal.respan, Declarer.respan, Token.shift_text,
      Token.shift_span, Span.hull_shift, value.tree_shift, Option.map_some]
    rfl
  | .express e none =>
    simp only [shift, tree, Statement.shift, e.tree_shift, Expr.span_shift]
  | .express e (some semicolon) =>
    simp only [shift, tree, Statement.shift, Terminal.respan, Token.shift_span, e.tree_shift,
      Expr.span_shift, Span.hull_shift]

theorem fits_shift {depth : Nat} (h : s.Fits depth) : (s.shift k).Fits depth := by
  match s with
  | .declare word name semicolon => exact fits_declare
  | .define word name sign value semicolon =>
    exact fits_define.mpr ((fits_define.mp h).of_cost_eq (value.cost_shift k))
  | .express e none => exact fits_express.mpr ((fits_express.mp h).of_cost_eq (e.cost_shift k))
  | .express e (some semicolon) =>
    exact fits_express.mpr ((fits_express.mp h).of_cost_eq (e.cost_shift k))

end Shift

theorem yield_append (sentences others : List Sentence) :
    yield (sentences ++ others) = yield sentences ++ yield others :=
  List.flatMap_append

theorem yield_map_shift (k : Nat) (sentences : List Sentence) :
    yield (sentences.map (shift k)) = (yield sentences).map (Token.shift k) := by
  induction sentences with
  | nil => rfl
  | cons s sentences ih =>
    rw [List.map_cons, yield_cons, yield_cons, List.map_append, ih, s.tokens_shift]

end Sentence

/-! ## Programs of joined texts -/

/-- The program of two texts with a gap between them is that of the first, followed by that of the
    second further on. -/
theorem Program.ofSource_append (gap : Gap) {source₁ source₂ : String} {p₁ p₂ : Program}
    (h₁ : Program.ofSource source₁ = .ok p₁) (h₂ : Program.ofSource source₂ = .ok p₂) :
    Program.ofSource (source₁ ++ gap.text ++ source₂) =
      .ok (p₁ ++ p₂.map (Statement.shift (source₁.length + gap.text.length))) := by
  obtain ⟨tokens₁, sentences₁, hscan₁, hyield₁, hfits₁, rfl⟩ :=
    (Program.ofSource_eq_ok_iff _ _).mp h₁
  obtain ⟨tokens₂, sentences₂, hscan₂, hyield₂, hfits₂, rfl⟩ :=
    (Program.ofSource_eq_ok_iff _ _).mp h₂
  let k := source₁.length + gap.text.length
  refine (Program.ofSource_eq_ok_iff _ _).mpr ⟨_, sentences₁ ++ sentences₂.map (Sentence.shift k),
    Token.ofSource_append gap hscan₁ hscan₂, ?_, ?_, ?_⟩
  · rw [Sentence.yield_append, Sentence.yield_map_shift, hyield₂, ← hyield₁,
      Token.beforeEnd_append (Sentence.yield_kind_ne_of_mem sentences₁),
      Token.beforeEnd_map_shift]
  · intro s hs
    rcases List.mem_append.mp hs with hs | hs
    · exact hfits₁ s hs
    · obtain ⟨r, hr, rfl⟩ := List.mem_map.mp hs
      exact r.fits_shift k (hfits₂ r hr)
  · rw [List.map_append, List.map_map, List.map_map]
    congr 1
    exact List.map_congr_left fun s _ => s.tree_shift k

/-- A text without statements is one of spaces. -/
theorem Program.ofSource_eq_nil_iff (source : String) :
    Program.ofSource source = .ok [] ↔ Token.Spaces source.toList := by
  rw [Program.ofSource_eq_ok_iff]
  constructor
  · rintro ⟨tokens, sentences, hscan, hyield, -, hsentences⟩
    obtain rfl := List.map_eq_nil_iff.mp hsentences
    obtain ⟨space, items, hbefore, hsource, hspace, -⟩ := Token.placed_of_ofSource hscan
    rw [← hyield, Sentence.yield_nil] at hbefore
    obtain rfl := List.map_eq_nil_iff.mp hbefore.symm
    rw [hsource, Token.spread_nil, List.append_nil]
    exact hspace
  · intro hspaces
    refine ⟨[Token.ending source.toList.length], [], ?_, rfl, by simp, rfl⟩
    rw [Token.ofSource_eq_ok_iff, Token.scan, ← List.append_nil source.toList,
      Token.scanFrom_spaces hspaces, List.append_nil, Nat.zero_add, Token.scanFrom]

/-- A text behind which any other one can stand. -/
def Program.Leads (source : String) (p : Program) : Prop :=
  ∀ (source' : String) (p' : Program), Program.ofSource source' = .ok p' →
    Program.ofSource (source ++ source') = .ok (p ++ p'.map (Statement.shift source.length))

namespace Program

theorem ofSource_empty : Program.ofSource "" = .ok [] :=
  (ofSource_eq_nil_iff "").mpr (by simp [Token.Spaces])

theorem leads_empty : Leads "" [] := by
  intro source p h
  have hmap : p.map (Statement.shift 0) = p := List.map_id'' Statement.shift_zero p
  rw [String.empty_append, List.nil_append, String.length_empty, hmap, h]

theorem Leads.ofSource {source : String} {p : Program} (h : Leads source p) :
    Program.ofSource source = .ok p := by
  have hempty := h "" [] ofSource_empty
  rwa [String.append_empty, List.map_nil, List.append_nil] at hempty

theorem Leads.append (gap : Gap) {source source' : String} {p p' : Program} (h : Leads source p)
    (h' : Program.ofSource source' = .ok p') :
    Leads (source ++ source' ++ gap.text) (p ++ p'.map (Statement.shift source.length)) := by
  intro source'' p'' h''
  rw [ofSource_append gap (h source' p' h') h'', String.length_append (source ++ source')]

end Program

end Quill
