import Quill.Proofs.Writing

/-!
# Places

Where tokens and trees stand in a text. The characters in the span of a token are the text of the
token, and the span of a tree runs from its first leaf to its last.

* `Token.exists_row_of_ofSource`: the tokens of a source stand one after the other in it.
* `Derivation.lies_tree`: a tree lies where the tokens of its derivation stand.
* `Expr.Written.framed`: a tree begins and ends with a leaf.
* `Program.written_of_ofSource`: every statement of a source is written in it.
-/

namespace Quill

/-! ## Slices -/

namespace Span

/-- The characters of a text in a span. -/
def slice (s : Span) (cs : List Char) : List Char := (cs.drop s.start).take (s.stop - s.start)

/-- A span has characters, all of them within the first `n` ones of a text. -/
structure Within (s : Span) (n : Nat) : Prop where
  start_lt : s.start < s.stop
  stop_le : s.stop ≤ n

variable {cs : List Char}

/-- A slice can be cut in two anywhere. -/
theorem slice_cut {i j k : Nat} (hij : i ≤ j) (hjk : j ≤ k) :
    slice ⟨i, k⟩ cs = slice ⟨i, j⟩ cs ++ slice ⟨j, k⟩ cs := by
  unfold slice
  have hlength : k - i = (j - i) + (k - j) := by omega
  have hdrop : cs.drop j = (cs.drop i).drop (j - i) := by
    rw [List.drop_drop, Nat.add_sub_cancel' hij]
  rw [hlength, List.take_add, hdrop]

/-- The slice of what stands between two parts of a text. -/
theorem slice_append (before v after : List Char) :
    slice ⟨before.length, before.length + v.length⟩ (before ++ (v ++ after)) = v := by
  unfold slice
  rw [List.drop_left, Nat.add_sub_cancel_left, List.take_left]

/-- What stands behind another span begins its hull with that span. -/
theorem slice_hull {a b : Span} (ha : a.start ≤ a.stop) (hab : a.stop ≤ b.start)
    (hb : b.start ≤ b.stop) :
    (a.hull b).slice cs = a.slice cs ++ slice ⟨a.stop, b.start⟩ cs ++ b.slice cs := by
  rw [hull_eq_of_le ha hab hb, slice_cut (Nat.le_trans ha hab) hb, slice_cut ha hab]

theorem Within.hull {a b : Span} {n : Nat} (ha : a.Within n) (hab : a.stop ≤ b.start)
    (hb : b.Within n) : (a.hull b).Within n := by
  have hstart := ha.start_lt
  have hstop := hb.start_lt
  rw [hull_eq_of_le (by omega) hab (by omega)]
  exact ⟨show a.start < b.stop by omega, hb.stop_le⟩

end Span

/-! ## Tokens -/

namespace Token

/-- A token has a text of its kind, and this is what stands in its span. -/
structure Stands (cs : List Char) (t : Token) : Prop where
  spells : t.kind.Spells Text.isCased t.text.toList
  slice_eq : t.span.slice cs = t.text.toList
  within : t.span.Within cs.length

/-- Tokens stand in a text one after the other, from one place to another. -/
def Row (cs : List Char) : Nat → List Token → Nat → Prop
  | low, [], high => low ≤ high
  | low, t :: rest, high => low ≤ t.span.start ∧ t.Stands cs ∧ Row cs t.span.stop rest high

section Row

variable {cs : List Char} {low high : Nat} {tokens : List Token} {t : Token}

theorem Stands.kind_ne (h : t.Stands cs) : t.kind ≠ .endOfFile := by
  intro hk
  have hspells := h.spells
  rw [hk] at hspells
  exact hspells

theorem Row.of_le {low' : Nat} (hlow : low' ≤ low) (h : Row cs low tokens high) :
    Row cs low' tokens high := by
  cases tokens with
  | nil => exact Nat.le_trans hlow h
  | cons t rest => exact ⟨Nat.le_trans hlow h.1, h.2⟩

theorem Row.le (h : Row cs low tokens high) : low ≤ high := by
  induction tokens generalizing low with
  | nil => exact h
  | cons t rest ih =>
    obtain ⟨hlow, ht, hrest⟩ := h
    have hstop := ih hrest
    have hstart := ht.within.start_lt
    omega

theorem Row.stands_of_mem (h : Row cs low tokens high) (ht : t ∈ tokens) : t.Stands cs := by
  induction tokens generalizing low with
  | nil => cases ht
  | cons u rest ih =>
    obtain ⟨-, hu, hrest⟩ := h
    rcases List.mem_cons.mp ht with rfl | ht
    · exact hu
    · exact ih hrest ht

/-- Tokens in a row can be cut in two anywhere. -/
theorem Row.exists_of_append {more : List Token} (h : Row cs low (tokens ++ more) high) :
    ∃ middle, Row cs low tokens middle ∧ Row cs middle more high := by
  induction tokens generalizing low with
  | nil => exact ⟨low, Nat.le_refl low, h⟩
  | cons t rest ih =>
    obtain ⟨hlow, ht, hrest⟩ := h
    obtain ⟨middle, hbefore, hafter⟩ := ih hrest
    exact ⟨middle, ⟨hlow, ht, hbefore⟩, hafter⟩

end Row

/-- Tokens that are placed in a text stand in a row there. -/
theorem row_spread (before : List Char) (items : List (Token × List Char))
    (h : Placed Text.isCased before.length items) :
    Row (before ++ spread items) before.length (items.map Prod.fst)
      (before ++ spread items).length := by
  induction items generalizing before with
  | nil =>
    rw [List.length_append]
    exact Nat.le_add_right _ _
  | cons item items ih =>
    obtain ⟨t, gap⟩ := item
    obtain ⟨-, hspells, hspan, -, hrest⟩ := h
    have htext : t.text.length = t.text.toList.length := String.length_toList.symm
    have hne := ((spells_iff_lexeme alphabet_isCased).mp hspells).ne_nil
    have hlength := List.length_pos_iff.mpr hne
    -- what stands before the other tokens is what stands before this one, the token and its gap
    have hrow := ih (before ++ t.text.toList ++ gap) (by
      rw [List.length_append, List.length_append, ← htext]
      exact hrest)
    have hcs : before ++ spread ((t, gap) :: items) =
        before ++ t.text.toList ++ gap ++ spread items := by
      simp only [spread_cons, List.append_assoc]
    rw [htext] at hspan
    have hstands : t.Stands (before ++ spread ((t, gap) :: items)) := by
      refine ⟨hspells, ?_, ?_⟩
      · rw [hspan, spread_cons, Span.slice_append]
      · rw [hspan, spread_cons]
        refine ⟨?_, ?_⟩
        · show before.length < before.length + t.text.toList.length
          omega
        · show before.length + t.text.toList.length ≤ _
          rw [List.length_append, List.length_append]
          omega
    refine ⟨?_, hstands, ?_⟩
    · exact Nat.le_of_eq (congrArg Span.start hspan).symm
    · rw [hspan, hcs]
      refine hrow.of_le ?_
      rw [List.length_append, List.length_append]
      exact Nat.le_add_right _ _

/-- The tokens of a source stand one after the other in it, and an end token stands behind it. -/
theorem exists_row_of_ofSource {source : String} {tokens : List Token}
    (h : ofSource source = .ok tokens) :
    ∃ row, tokens = row ++ [ending source.length] ∧ beforeEnd tokens = row ∧
      Row source.toList 0 row source.toList.length := by
  rw [ofSource_eq_ok_iff] at h
  obtain ⟨gap, items, htokens, hsource, -, hplaced⟩ := placedFrom_of_scanFrom alphabet_isCased h
  rw [Nat.zero_add] at htokens hplaced
  rw [String.length_toList] at htokens
  have hrow := (row_spread gap items hplaced).of_le (Nat.zero_le _)
  rw [← hsource] at hrow
  refine ⟨items.map Prod.fst, htokens, ?_, hrow⟩
  rw [htokens]
  exact beforeEnd_append_cons (fun t ht => (hrow.stands_of_mem ht).kind_ne) rfl

end Token

/-! ## Trees -/

namespace Expr

/-- The names and numbers of a tree, from left to right. -/
def leaves : Expr → List Expr
  | .assign target value _ => target.leaves ++ value.leaves
  | .binary left _ right _ => left.leaves ++ right.leaves
  | .name symbol span => [.name symbol span]
  | .number value span => [.number value span]

/-- Some characters write a leaf: they are its name, or can be read as its number. -/
def Spelt (text : List Char) : Expr → Prop
  | .name symbol _ => text = symbol.toList
  | .number value _ => Number.read? (String.ofList text) = some value
  | _ => False

/-- A tree is written in a text: its leaves are what stands in their spans, and its parts stand one
    after the other with the span of the whole around them. -/
def Written (cs : List Char) : Expr → Prop
  | .name symbol span => span.Within cs.length ∧ (Expr.name symbol span).Spelt (span.slice cs)
  | .number value span => span.Within cs.length ∧ (Expr.number value span).Spelt (span.slice cs)
  | .binary left _ right span => left.Written cs ∧ right.Written cs ∧
      left.span.stop ≤ right.span.start ∧ span = left.span.hull right.span
  | .assign target value span => target.Written cs ∧ value.Written cs ∧
      target.span.stop ≤ value.span.start ∧ span = target.span.hull value.span

/-- A tree is written in a text from one place on and up to another. -/
structure Lies (cs : List Char) (low : Nat) (e : Expr) (high : Nat) : Prop where
  written : e.Written cs
  low_le : low ≤ e.span.start
  le_high : e.span.stop ≤ high

variable {cs : List Char}

theorem Written.within {e : Expr} (h : e.Written cs) : e.span.Within cs.length := by
  induction e with
  | name symbol span => exact h.1
  | number value span => exact h.1
  | binary left op right span ihleft ihright =>
    obtain ⟨hleft, hright, hle, rfl⟩ := h
    exact (ihleft hleft).hull hle (ihright hright)
  | assign target value span ihtarget ihvalue =>
    obtain ⟨htarget, hvalue, hle, rfl⟩ := h
    exact (ihtarget htarget).hull hle (ihvalue hvalue)

/-- What stands in the hull of two trees begins with the first and ends with the second. -/
theorem Written.slice_hull {left right : Expr} (hleft : left.Written cs) (hright : right.Written cs)
    (hle : left.span.stop ≤ right.span.start) :
    ∃ between, (left.span.hull right.span).slice cs =
      left.span.slice cs ++ between ++ right.span.slice cs :=
  ⟨_, Span.slice_hull (Nat.le_of_lt hleft.within.start_lt) hle
    (Nat.le_of_lt hright.within.start_lt)⟩

/-- A text begins and ends with some of the given leaves. -/
structure Framed (leaves : List Expr) (text : List Char) : Prop where
  first : ∃ leaf ∈ leaves, ∃ a rest, leaf.Spelt a ∧ text = a ++ rest
  last : ∃ leaf ∈ leaves, ∃ b start, leaf.Spelt b ∧ text = start ++ b

theorem Framed.singleton {leaf : Expr} {text : List Char} (h : leaf.Spelt text) :
    Framed [leaf] text :=
  ⟨⟨leaf, List.mem_singleton_self _, text, [], h, (List.append_nil _).symm⟩,
    ⟨leaf, List.mem_singleton_self _, text, [], h, rfl⟩⟩

theorem Framed.append {left right : List Expr} {a b : List Char} (hleft : Framed left a)
    (hright : Framed right b) (between : List Char) :
    Framed (left ++ right) (a ++ between ++ b) := by
  obtain ⟨first, hfirst, text, rest, hspelt, rfl⟩ := hleft.first
  obtain ⟨last, hlast, text', start, hspelt', rfl⟩ := hright.last
  refine ⟨⟨first, List.mem_append_left _ hfirst, text, rest ++ between ++ (start ++ text'), hspelt,
    ?_⟩, ⟨last, List.mem_append_right _ hlast, text', text ++ rest ++ between ++ start, hspelt',
    ?_⟩⟩
  · simp only [List.append_assoc]
  · simp only [List.append_assoc]

/-- Two trees, one behind the other, begin with the first and end with the second. -/
theorem Framed.hull {left right : Expr} (hleft : left.Written cs) (hright : right.Written cs)
    (hle : left.span.stop ≤ right.span.start) (hfirst : Framed left.leaves (left.span.slice cs))
    (hlast : Framed right.leaves (right.span.slice cs)) :
    Framed (left.leaves ++ right.leaves) ((left.span.hull right.span).slice cs) := by
  obtain ⟨between, hslice⟩ := hleft.slice_hull hright hle
  rw [hslice]
  exact hfirst.append hlast between

/-- A tree begins and ends with a leaf. -/
theorem Written.framed {e : Expr} (h : e.Written cs) : Framed e.leaves (e.span.slice cs) := by
  induction e with
  | name symbol span => exact .singleton h.2
  | number value span => exact .singleton h.2
  | binary left op right span ihleft ihright =>
    obtain ⟨hleft, hright, hle, rfl⟩ := h
    exact .hull hleft hright hle (ihleft hleft) (ihright hright)
  | assign target value span ihtarget ihvalue =>
    obtain ⟨htarget, hvalue, hle, rfl⟩ := h
    exact .hull htarget hvalue hle (ihtarget htarget) (ihvalue hvalue)

section Lies

variable {low middle middle' high : Nat} {left right : Expr}

/-- The hull of two trees that lie one after the other lies around them. -/
theorem Lies.hull (hleft : left.Lies cs low middle) (hmiddle : middle ≤ middle')
    (hright : right.Lies cs middle' high) :
    left.span.stop ≤ right.span.start ∧ low ≤ (left.span.hull right.span).start ∧
      (left.span.hull right.span).stop ≤ high := by
  have hstop := hleft.le_high
  have hstart := hright.low_le
  have hl := hleft.written.within.start_lt
  have hr := hright.written.within.start_lt
  rw [Span.hull_eq_of_le (by omega) (by omega) (by omega)]
  exact ⟨by omega, hleft.low_le, hright.le_high⟩

theorem Lies.join (op : Operator) (hleft : left.Lies cs low middle) (hmiddle : middle ≤ middle')
    (hright : right.Lies cs middle' high) : (left.join op right).Lies cs low high := by
  obtain ⟨hle, hstart, hstop⟩ := hleft.hull hmiddle hright
  exact ⟨⟨hleft.written, hright.written, hle, rfl⟩, hstart, hstop⟩

theorem Lies.assigned (hleft : left.Lies cs low middle) (hmiddle : middle ≤ middle')
    (hright : right.Lies cs middle' high) : (left.assigned right).Lies cs low high := by
  obtain ⟨hle, hstart, hstop⟩ := hleft.hull hmiddle hright
  exact ⟨⟨hleft.written, hright.written, hle, rfl⟩, hstart, hstop⟩

end Lies

end Expr

/-! ## Derivations -/

section Derivations

variable {cs : List Char}

mutual

/-- A tree lies where the tokens of its derivation stand. -/
theorem Derivation.lies_tree :
    ∀ {rank : Rank} (D : Derivation rank) {low high : Nat}, Token.Row cs low D.tokens high →
      D.tree.Lies cs low high
  | _, .name word, low, high, h => by
    obtain ⟨hlow, hword, hhigh⟩ := h
    exact ⟨⟨hword.within, hword.slice_eq⟩, hlow, hhigh⟩
  | _, .number digits, low, high, h => by
    obtain ⟨hlow, hdigits, hhigh⟩ := h
    refine ⟨⟨hdigits.within, ?_⟩, hlow, hhigh⟩
    show Number.read? (String.ofList (digits.token.span.slice cs)) = some digits.value
    rw [hdigits.slice_eq, String.ofList_toList]
    exact digits.read_eq
  | _, .group opening inner closing, low, high, h => by
    obtain ⟨hlow, hopening, hrest⟩ := h
    obtain ⟨middle, hinner, hmiddle, hclosing, hhigh⟩ := hrest.exists_of_append
    have hlies := inner.lies_tree hinner
    have hstart := hlies.low_le
    have hstop := hlies.le_high
    have hopen := hopening.within.start_lt
    have hclose := hclosing.within.start_lt
    have hend : closing.token.span.stop ≤ high := hhigh
    exact ⟨hlies.written, show low ≤ inner.tree.span.start by omega,
      show inner.tree.span.stop ≤ high by omega⟩
  | _, .chain first rest, low, high, h => by
    obtain ⟨middle, hfirst, hrest⟩ := h.exists_of_append
    exact rest.lies_fold (first.lies_tree hfirst) hrest
  | _, .sum s, low, high, h => s.lies_tree h
  | _, .assign target sign value, low, high, h => by
    obtain ⟨middle, htarget, hmiddle, hsign, hvalue⟩ := h.exists_of_append
    have hlt := hsign.within.start_lt
    exact (target.lies_tree htarget).assigned (by omega) (value.lies_tree hvalue)

/-- Links extend the tree on their left up to where their tokens end. -/
theorem Links.lies_fold :
    ∀ {level : Operator.Level} (L : Links level) {left : Expr} {low middle high : Nat},
      left.Lies cs low middle → Token.Row cs middle L.tokens high → (L.fold left).Lies cs low high
  | _, .nil, left, low, middle, high, hleft, h =>
    ⟨hleft.written, hleft.low_le, Nat.le_trans hleft.le_high h⟩
  | _, .cons joint item rest, left, low, middle, high, hleft, h => by
    obtain ⟨hmiddle, hjoint, htail⟩ := h
    obtain ⟨middle', hitem, hrest⟩ := htail.exists_of_append
    have hlt := hjoint.within.start_lt
    exact rest.lies_fold (hleft.join joint.operator (by omega) (item.lies_tree hitem)) hrest

end

end Derivations

/-! ## Statements -/

/-- The word that opens the declaration of a constant, or of a variable. -/
def Statement.opener (constant : Bool) : String := if constant then "const" else "let"

/-- A span runs from one text to another. -/
def Span.Encloses (cs : List Char) (first last : String) (s : Span) : Prop :=
  s.Within cs.length ∧ ∃ between, s.slice cs = first.toList ++ between ++ last.toList

/-- A statement is written in a text: its expression is, and a declaration runs from the word that
    opens it to its semicolon. -/
def Statement.Written (cs : List Char) : Statement → Prop
  | .expression e _ => e.Written cs
  | .declare _ constant value span =>
    (∀ e ∈ value, e.Written cs) ∧ span.Encloses cs (Statement.opener constant) ";"

section Statements

variable {cs : List Char}

/-- The hull of two tokens runs from the one to the other. -/
theorem Token.Stands.encloses {t u : Token} (ht : t.Stands cs) (hu : u.Stands cs)
    (hle : t.span.stop ≤ u.span.start) : (t.span.hull u.span).Encloses cs t.text u.text := by
  have hslice : (t.span.hull u.span).slice cs = _ :=
    Span.slice_hull (Nat.le_of_lt ht.within.start_lt) hle (Nat.le_of_lt hu.within.start_lt)
  rw [ht.slice_eq, hu.slice_eq] at hslice
  exact ⟨ht.within.hull hle hu.within, _, hslice⟩

/-- A token of a kind with one text has that text. -/
theorem Token.Stands.text_eq {t : Token} {kind : Token.Kind} {text : String} (h : t.Stands cs)
    (hkind : t.kind = kind) (htext : ∀ v, kind.Spells Text.isCased v → v = text.toList) :
    t.text = text := by
  have hspells := h.spells
  rw [hkind] at hspells
  exact String.toList_inj.mp (htext _ hspells)

theorem Token.Stands.encloses_declaration {word semicolon : Token} (hword : word.Stands cs)
    (constant : Bool) (hsemicolon : semicolon.Stands cs)
    (hle : word.span.stop ≤ semicolon.span.start)
    (hopener : word.kind = if constant then .constWord else .letWord)
    (hkind : semicolon.kind = .semicolon) :
    (word.span.hull semicolon.span).Encloses cs (Statement.opener constant) ";" := by
  have hfirst : word.text = Statement.opener constant := by
    cases constant with
    | true => exact hword.text_eq hopener fun _ h => h
    | false => exact hword.text_eq hopener fun _ h => h
  have hlast : semicolon.text = ";" := hsemicolon.text_eq hkind fun _ h => h
  rw [← hfirst, ← hlast]
  exact hword.encloses hsemicolon hle

theorem Declarer.kind_eq_opener (word : Declarer) :
    word.token.kind = if decide (word.token.kind = .constWord) then .constWord else .letWord := by
  rcases word.kind_eq with h | h
  · rw [h]
    rfl
  · rw [h]
    rfl

theorem Sentence.written_tree (s : Sentence) {low high : Nat}
    (h : Token.Row cs low s.tokens high) : s.tree.Written cs := by
  match s with
  | .declare word name semicolon =>
    obtain ⟨-, hword, hle, hname, hle', hsemicolon, -⟩ := h
    have hlt := hname.within.start_lt
    refine ⟨by simp, ?_⟩
    exact hword.encloses_declaration _ hsemicolon (by omega) word.kind_eq semicolon.kind_eq
  | .define word name sign value semicolon =>
    obtain ⟨-, hword, hname, hn, hsign, hs, hrest⟩ := h
    obtain ⟨middle, hvalue, hle, hsemicolon, -⟩ := hrest.exists_of_append
    have hlies := value.lies_tree hvalue
    have hname_lt := hn.within.start_lt
    have hsign_lt := hs.within.start_lt
    have hmiddle := hvalue.le
    refine ⟨by simpa using hlies.written, ?_⟩
    exact hword.encloses_declaration _ hsemicolon (by omega) word.kind_eq_opener semicolon.kind_eq
  | .express e none => exact (e.lies_tree h).written
  | .express e (some semicolon) =>
    obtain ⟨middle, he, -⟩ := h.exists_of_append
    exact (e.lies_tree he).written

theorem Sentence.written_of_yield (sentences : List Sentence) {low high : Nat}
    (h : Token.Row cs low (Sentence.yield sentences) high) :
    ∀ s ∈ sentences, s.tree.Written cs := by
  induction sentences generalizing low with
  | nil => simp
  | cons first others ih =>
    obtain ⟨middle, hfirst, hothers⟩ := Token.Row.exists_of_append h
    intro s hs
    rcases List.mem_cons.mp hs with rfl | hs
    · exact s.written_tree hfirst
    · exact ih hothers s hs

end Statements

/-- Every statement of a source is written in it. -/
theorem Program.written_of_ofSource {source : String} {p : Program}
    (h : Program.ofSource source = .ok p) : ∀ st ∈ p, st.Written source.toList := by
  obtain ⟨tokens, sentences, hscan, hyield, -, rfl⟩ := (Program.ofSource_eq_ok_iff _ _).mp h
  obtain ⟨row, -, hrow, hstands⟩ := Token.exists_row_of_ofSource hscan
  rw [← hrow, ← hyield] at hstands
  intro st hst
  obtain ⟨s, hs, rfl⟩ := List.mem_map.mp hst
  exact Sentence.written_of_yield sentences hstands s hs

end Quill
