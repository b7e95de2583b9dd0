import Mathlib.Data.String.Basic
import Quill.Token.Scan

/-!
# Scanning is the inverse of spacing out

A text scans to some tokens exactly if it is the texts of these tokens in order, with spaces
before, between and after them. Spaces between two tokens may be left out unless the texts would
run together: two numbers, or two words.

* `spacedOut_iff_placedFrom`: the two ways to say that a text is spaced out.
* `scanFrom_spread`: scanning a spaced out text gives its tokens.
* `placedFrom_of_scanFrom`: a text that scans is spaced out.
* `ordered_of_ofSource`: the tokens of a source text stand one after the other.
* `ofSource_iff_spacedOut`: the tokens of a source text are those it spaces out.
-/

namespace Quill.Token

/-! ## Texts of tokens -/

/-- What scanning relies on about letters: the keywords are made of them, and they are no digits,
    no marks and no spaces. That NUL is no letter is not among it: where a text ends `scanFrom` has
    no character to look at, while `peek` answers NUL there. -/
structure Alphabet (letter : Char → Bool) : Prop where
  keyword : ∀ c ∈ "let".toList ++ "const".toList, letter c = true
  digit : ∀ c ∈ "0123456789".toList, letter c = false
  mark : ∀ c ∈ "();=+-*/%".toList, letter c = false
  spacing : ∀ c ∈ " \t\n\r".toList, letter c = false

/-- The texts that tokens of a kind have. -/
def Kind.Spells (letter : Char → Bool) : Kind → List Char → Prop
  | .openParen, v => v = ['(']
  | .closeParen, v => v = [')']
  | .semicolon, v => v = [';']
  | .equals, v => v = ['=']
  | .operator, v => ∃ c ∈ "+-*/%".toList, v = [c]
  | .number, v => v ≠ [] ∧ ∀ c ∈ v, c ∈ "0123456789".toList
  | .letWord, v => v = "let".toList
  | .constWord, v => v = "const".toList
  | .identifier, v =>
    v ≠ [] ∧ (∀ c ∈ v, letter c = true) ∧ v ≠ "let".toList ∧ v ≠ "const".toList
  | .endOfFile, _ => False

/-- The kinds whose texts are words. -/
def Kind.IsWord (k : Kind) : Prop := k = .identifier ∨ k = .letWord ∨ k = .constWord

/-- Two kinds whose texts would run together. -/
def Kind.Merges (k l : Kind) : Prop :=
  (k = .number ∧ l = .number) ∨ (k.IsWord ∧ l.IsWord)

/-- Spaces, tabs and line ends. -/
def Spaces (gap : List Char) : Prop := ∀ c ∈ gap, c ∈ " \t\n\r".toList

/-! ## Spaced out texts -/

/-- The text of tokens, each with the gap after it. -/
def spread (items : List (Token × List Char)) : List Char :=
  items.flatMap fun item => item.1.text.toList ++ item.2

@[simp] theorem spread_nil : spread [] = [] := rfl

@[simp] theorem spread_cons (t : Token) (gap : List Char) (items : List (Token × List Char)) :
    spread ((t, gap) :: items) = t.text.toList ++ (gap ++ spread items) := by
  simp [spread]

/-- A text is tokens spaced out: with a gap before the first and one after each, every token having
    a text of its kind and the span of that text, and the gap after a token not being empty if the
    next one would run together with it. An end token follows. -/
def SpacedOut (letter : Char → Bool) (source : List Char) (tokens : List Token) : Prop :=
  ∃ (gap : List Char) (items : List (Token × List Char)),
    tokens = items.map Prod.fst ++ [⟨.endOfFile, "EndOfFile", ⟨source.length, source.length⟩⟩] ∧
    source = gap ++ spread items ∧
    Spaces gap ∧
    (∀ item ∈ items, Spaces item.2 ∧ item.1.kind.Spells letter item.1.text.toList) ∧
    (∀ before item after, items = before ++ item :: after →
      item.1.span.start = (gap ++ spread before).length ∧
      item.1.span.stop = (gap ++ spread before).length + item.1.text.length) ∧
    ∀ before item next after, items = before ++ item :: next :: after →
      item.1.kind.Merges next.1.kind → item.2 ≠ []

/-- The conditions on spaced out tokens, one token after the other. -/
def Placed (letter : Char → Bool) : Nat → List (Token × List Char) → Prop
  | _, [] => True
  | start, (t, gap) :: items =>
    Spaces gap ∧ t.kind.Spells letter t.text.toList ∧
    t.span = ⟨start, start + t.text.length⟩ ∧
    (∀ next ∈ items.head?, t.kind.Merges next.1.kind → gap ≠ []) ∧
    Placed letter (start + t.text.length + gap.length) items

section Placed

variable {letter : Char → Bool}

theorem placed_cons_span {start : Nat} {x : Token × List Char} {items : List (Token × List Char)}
    (hx : x.1.span = ⟨start, start + x.1.text.length⟩)
    (hitems : ∀ before item after, items = before ++ item :: after →
      item.1.span = ⟨start + x.1.text.length + x.2.length + (spread before).length,
        start + x.1.text.length + x.2.length + (spread before).length + item.1.text.length⟩) :
    ∀ before item after, x :: items = before ++ item :: after →
      item.1.span = ⟨start + (spread before).length,
        start + (spread before).length + item.1.text.length⟩ := by
  intro before item after h
  obtain ⟨t, gap⟩ := x
  cases before with
  | nil =>
    obtain ⟨rfl, -⟩ := List.cons.inj h
    exact hx
  | cons y before =>
    obtain ⟨rfl, hrest⟩ := List.cons.inj h
    rw [hitems before item after hrest]
    simp only [spread_cons, List.length_append, String.length_toList, Span.mk.injEq]
    omega

/-- Placing tokens one after the other amounts to the conditions on each of them. -/
theorem placed_iff (start : Nat) (items : List (Token × List Char)) :
    Placed letter start items ↔
      (∀ item ∈ items, Spaces item.2 ∧ item.1.kind.Spells letter item.1.text.toList) ∧
      (∀ before item after, items = before ++ item :: after →
        item.1.span = ⟨start + (spread before).length,
          start + (spread before).length + item.1.text.length⟩) ∧
      ∀ before item next after, items = before ++ item :: next :: after →
        item.1.kind.Merges next.1.kind → item.2 ≠ [] := by
  induction items generalizing start with
  | nil => simp [Placed]
  | cons x items ih =>
    obtain ⟨t, gap⟩ := x
    simp only [Placed]
    rw [ih]
    constructor
    · rintro ⟨hgap, hspells, hspan, hnext, hall, hspans, hmerges⟩
      refine ⟨?_, placed_cons_span hspan hspans, ?_⟩
      · intro item hitem
        rcases List.mem_cons.mp hitem with rfl | hitem
        · exact ⟨hgap, hspells⟩
        · exact hall item hitem
      · intro before item next after h
        cases before with
        | nil =>
          obtain ⟨rfl, rfl⟩ := List.cons.inj h
          exact hnext next rfl
        | cons y before =>
          obtain ⟨rfl, hrest⟩ := List.cons.inj h
          exact hmerges before item next after hrest
    · rintro ⟨hall, hspans, hmerges⟩
      obtain ⟨hgap, hspells⟩ := hall (t, gap) (by simp)
      refine ⟨hgap, hspells, hspans [] (t, gap) items rfl, ?_, ?_, ?_, ?_⟩
      · intro next hnext
        cases items with
        | nil => cases hnext
        | cons y items =>
          obtain rfl := Option.some.inj hnext
          exact hmerges [] (t, gap) y items rfl
      · intro item hitem
        exact hall item (List.mem_cons_of_mem _ hitem)
      · intro before item after h
        rw [hspans ((t, gap) :: before) item after (by simp [h])]
        simp only [spread_cons, List.length_append, String.length_toList, Span.mk.injEq]
        omega
      · intro before item next after h
        exact hmerges ((t, gap) :: before) item next after (by simp [h])

/-- The characters after the first `start` ones of a text are tokens placed after a gap, and an end
    token. -/
def PlacedFrom (letter : Char → Bool) (start : Nat) (cs : List Char) (tokens : List Token) : Prop :=
  ∃ gap items, tokens = items.map Prod.fst ++ [ending (start + cs.length)] ∧
    cs = gap ++ spread items ∧ Spaces gap ∧ Placed letter (start + gap.length) items

theorem spacedOut_iff_placedFrom (source : List Char) (tokens : List Token) :
    SpacedOut letter source tokens ↔ PlacedFrom letter 0 source tokens := by
  unfold SpacedOut PlacedFrom
  simp only [placed_iff, List.length_append, Span.ext_iff, Nat.zero_add]
  rfl

end Placed

/-! ## Characters -/

/-- Checks a property of some characters one by one. -/
theorem forall_mem_of_all {p : Char → Prop} [DecidablePred p] {cs : List Char}
    (h : cs.all (fun c => decide (p c)) = true) : ∀ c ∈ cs, p c := by
  simpa using h

theorem mem_digits_iff (c : Char) : c ∈ "0123456789".toList ↔ c.isDigit = true := by
  constructor
  · intro h
    have hall : ∀ c ∈ "0123456789".toList, c.isDigit = true := forall_mem_of_all (by decide)
    exact hall c h
  · intro h
    have hall : ∀ n < 58, 48 ≤ n → Char.ofNat n ∈ "0123456789".toList := by decide
    simp only [Char.isDigit, Bool.and_eq_true, decide_eq_true_eq] at h
    have hc := hall c.toNat (Nat.lt_succ_of_le h.2) h.1
    rwa [Char.ofNat_toNat] at hc

theorem mem_spacing_iff (c : Char) : c ∈ " \t\n\r".toList ↔ isSpacing c = true := by
  simp [isSpacing, or_assoc]

theorem markKind?_isSome_iff (c : Char) : (markKind? c).isSome ↔ c ∈ "();=+-*/%".toList := by
  constructor
  · intro h
    unfold markKind? at h
    split at h <;> first | decide | cases h
  · intro h
    have hall : ∀ c ∈ "();=+-*/%".toList, (markKind? c).isSome := forall_mem_of_all (by decide)
    exact hall c h

theorem markKind?_eq_none {c : Char} (h : c ∉ "();=+-*/%".toList) : markKind? c = none := by
  rwa [← markKind?_isSome_iff, Bool.not_eq_true, Option.isSome_eq_false_iff,
    Option.isNone_iff_eq_none] at h

theorem not_isDigit_of_isSpacing {c : Char} (h : isSpacing c = true) : c.isDigit = false := by
  have hall : ∀ c ∈ " \t\n\r".toList, c.isDigit = false := forall_mem_of_all (by decide)
  exact hall c ((mem_spacing_iff c).mpr h)

theorem markKind?_of_isSpacing {c : Char} (h : isSpacing c = true) : markKind? c = none := by
  have hall : ∀ c ∈ " \t\n\r".toList, markKind? c = none := forall_mem_of_all (by decide)
  exact hall c ((mem_spacing_iff c).mpr h)

theorem markKind?_of_isDigit {c : Char} (h : c.isDigit = true) : markKind? c = none := by
  have hall : ∀ c ∈ "0123456789".toList, markKind? c = none := forall_mem_of_all (by decide)
  exact hall c ((mem_digits_iff c).mpr h)

theorem not_isSpacing_of_isDigit {c : Char} (h : c.isDigit = true) : isSpacing c = false := by
  have hall : ∀ c ∈ "0123456789".toList, isSpacing c = false := forall_mem_of_all (by decide)
  exact hall c ((mem_digits_iff c).mpr h)

namespace Alphabet

variable {letter : Char → Bool} (ha : Alphabet letter) {c : Char}

include ha

theorem markKind?_of_letter (h : letter c = true) : markKind? c = none := by
  apply markKind?_eq_none
  intro hmem
  rw [ha.mark c hmem] at h
  cases h

theorem not_isSpacing_of_letter (h : letter c = true) : isSpacing c = false := by
  rw [Bool.eq_false_iff]
  intro hc
  rw [ha.spacing c ((mem_spacing_iff c).mpr hc)] at h
  cases h

theorem not_isDigit_of_letter (h : letter c = true) : c.isDigit = false := by
  rw [Bool.eq_false_iff]
  intro hc
  rw [ha.digit c ((mem_digits_iff c).mpr hc)] at h
  cases h

end Alphabet

/-! ## Lexemes -/

/-- The lexemes that scanning can find, one case for each way a token is made. -/
inductive Lexeme (letter : Char → Bool) : Kind → List Char → Prop where
  | mark {c : Char} {k : Kind} (hk : markKind? c = some k) : Lexeme letter k [c]
  | number {c : Char} {v : List Char} (hc : c.isDigit = true) (hv : ∀ d ∈ v, d.isDigit = true) :
    Lexeme letter .number (c :: v)
  | word {c : Char} {v : List Char} (hc : letter c = true) (hv : ∀ d ∈ v, letter d = true) :
    Lexeme letter (wordKind (String.ofList (c :: v))) (c :: v)

/-- The characters that prolong the text of a kind. -/
def Kind.prolong (letter : Char → Bool) : Kind → Char → Bool
  | .number => Char.isDigit
  | .identifier | .letWord | .constWord => letter
  | _ => fun _ => false

theorem wordKind_isWord (word : String) : (wordKind word).IsWord := by
  unfold wordKind Kind.IsWord
  split
  · exact .inr (.inl rfl)
  · split
    · exact .inr (.inr rfl)
    · exact .inl rfl

section Lexeme

variable {letter : Char → Bool} {k l : Kind} {c : Char} {v : List Char}

theorem Kind.IsWord.prolong_eq (h : k.IsWord) (letter : Char → Bool) :
    k.prolong letter = letter := by
  obtain rfl | rfl | rfl := h <;> rfl

theorem Kind.IsWord.ne_number (h : k.IsWord) : k ≠ .number := by
  rintro rfl
  obtain h | h | h := h <;> cases h

theorem kind_of_markKind? (h : markKind? c = some k) : k ≠ .number ∧ ¬k.IsWord := by
  have hall : ∀ c ∈ "();=+-*/%".toList, ∀ k ∈ markKind? c,
      k ≠ .number ∧ k ≠ .identifier ∧ k ≠ .letWord ∧ k ≠ .constWord := forall_mem_of_all (by decide)
  have hmem := (markKind?_isSome_iff c).mp (Option.isSome_of_eq_some h)
  obtain ⟨hnumber, hname, hlet, hconst⟩ := hall c hmem k h
  refine ⟨hnumber, ?_⟩
  rintro (hk | hk | hk)
  · exact hname hk
  · exact hlet hk
  · exact hconst hk

theorem Kind.prolong_iff : k.prolong letter c = true ↔
    (k = .number ∧ c.isDigit = true) ∨ (k.IsWord ∧ letter c = true) := by
  cases k <;> simp [Kind.prolong, Kind.IsWord]

/-- Marks are not prolonged. -/
theorem prolong_of_markKind? {d : Char} (h : markKind? c = some k) :
    k.prolong letter d = false := by
  obtain ⟨hnumber, hword⟩ := kind_of_markKind? h
  rw [Bool.eq_false_iff, Ne, Kind.prolong_iff]
  rintro (⟨hk, -⟩ | ⟨hk, -⟩)
  · exact hnumber hk
  · exact hword hk

theorem wordKind_spells (hne : v ≠ []) (hv : ∀ d ∈ v, letter d = true) :
    (wordKind (String.ofList v)).Spells letter v := by
  unfold wordKind
  simp only [String.ofList_eq]
  by_cases hlet : v = "let".toList
  · rw [if_pos hlet]
    exact hlet
  · rw [if_neg hlet]
    by_cases hconst : v = "const".toList
    · rw [if_pos hconst]
      exact hconst
    · rw [if_neg hconst]
      exact ⟨hne, hv, hlet, hconst⟩

theorem markKind?_spells (h : markKind? c = some k) : k.Spells letter [c] := by
  unfold markKind? at h
  split at h <;> cases h
  -- The first four marks are the texts of their kinds, the others are operators.
  iterate 4 exact rfl
  all_goals exact ⟨_, by decide, rfl⟩

theorem Alphabet.lexeme_of_isWord (ha : Alphabet letter) (hk : k.IsWord)
    (h : k.Spells letter v) : Lexeme letter k v := by
  obtain rfl | rfl | rfl := hk
  · obtain ⟨hne, hletters, hlet, hconst⟩ := h
    obtain ⟨c, v, rfl⟩ := List.exists_cons_of_ne_nil hne
    have hkind : wordKind (String.ofList (c :: v)) = .identifier := by
      unfold wordKind
      rw [if_neg (mt String.ofList_eq.mp hlet), if_neg (mt String.ofList_eq.mp hconst)]
    rw [List.forall_mem_cons] at hletters
    exact hkind ▸ .word hletters.1 hletters.2
  · obtain rfl := h
    exact .word (c := 'l') (v := ['e', 't']) (ha.keyword _ (by decide))
      fun d hd => ha.keyword d (List.mem_append_left _ (List.mem_cons_of_mem _ hd))
  · obtain rfl := h
    exact .word (c := 'c') (v := ['o', 'n', 's', 't']) (ha.keyword _ (by decide))
      fun d hd => ha.keyword d (List.mem_append_right _ (List.mem_cons_of_mem _ hd))

/-- The texts of a kind are its lexemes. -/
theorem spells_iff_lexeme (ha : Alphabet letter) : k.Spells letter v ↔ Lexeme letter k v := by
  constructor
  · intro h
    cases k with
    | openParen | closeParen | semicolon | equals => exact h ▸ .mark rfl
    | operator =>
      obtain ⟨c, hc, rfl⟩ := h
      have hall : ∀ c ∈ "+-*/%".toList, markKind? c = some .operator :=
        forall_mem_of_all (by decide)
      exact .mark (hall c hc)
    | number =>
      obtain ⟨hne, hdigits⟩ := h
      obtain ⟨c, v, rfl⟩ := List.exists_cons_of_ne_nil hne
      simp only [mem_digits_iff, List.forall_mem_cons] at hdigits
      exact .number hdigits.1 hdigits.2
    | letWord => exact ha.lexeme_of_isWord (.inr (.inl rfl)) h
    | constWord => exact ha.lexeme_of_isWord (.inr (.inr rfl)) h
    | identifier => exact ha.lexeme_of_isWord (.inl rfl) h
    | endOfFile => cases h
  · intro h
    cases h with
    | mark hk => exact markKind?_spells hk
    | number hc hv =>
      refine ⟨List.cons_ne_nil _ _, ?_⟩
      simp only [mem_digits_iff]
      exact List.forall_mem_cons.mpr ⟨hc, hv⟩
    | word hc hv => exact wordKind_spells (List.cons_ne_nil _ _) (List.forall_mem_cons.mpr ⟨hc, hv⟩)

/-- The first character of a lexeme tells numbers and words from the rest. -/
theorem Lexeme.first_iff (ha : Alphabet letter) (h : Lexeme letter k (c :: v)) :
    (c.isDigit = true ↔ k = .number) ∧ (letter c = true ↔ k.IsWord) := by
  cases h with
  | mark hk =>
    obtain ⟨hnumber, hword⟩ := kind_of_markKind? hk
    refine ⟨⟨fun h => ?_, fun h => absurd h hnumber⟩, ⟨fun h => ?_, fun h => absurd h hword⟩⟩
    · rw [markKind?_of_isDigit h] at hk
      cases hk
    · rw [ha.markKind?_of_letter h] at hk
      cases hk
  | number hc =>
    refine ⟨iff_of_true hc rfl, iff_of_false ?_ fun h => h.ne_number rfl⟩
    intro h
    rw [ha.not_isDigit_of_letter h] at hc
    cases hc
  | word hc =>
    have hword := wordKind_isWord (String.ofList (c :: v))
    refine ⟨iff_of_false ?_ hword.ne_number, iff_of_true hc hword⟩
    rw [ha.not_isDigit_of_letter hc]
    exact Bool.false_ne_true

/-- A lexeme prolongs the one before it just if their kinds run together. -/
theorem Lexeme.prolong_iff_merges (ha : Alphabet letter) (h : Lexeme letter l (c :: v)) :
    k.prolong letter c = true ↔ k.Merges l := by
  obtain ⟨hdigit, hletter⟩ := h.first_iff ha
  rw [Kind.prolong_iff, hdigit, hletter]
  exact Iff.rfl

theorem Lexeme.ne_nil (h : Lexeme letter k v) : v ≠ [] := by
  cases h <;> exact List.cons_ne_nil _ _

theorem Alphabet.prolong_of_isSpacing (ha : Alphabet letter) (h : isSpacing c = true) :
    k.prolong letter c = false := by
  rw [Bool.eq_false_iff]
  intro hk
  obtain ⟨-, hc⟩ | ⟨-, hc⟩ := Kind.prolong_iff.mp hk
  · rw [not_isDigit_of_isSpacing h] at hc
    cases hc
  · rw [ha.spacing c ((mem_spacing_iff c).mpr h)] at hc
    cases hc

end Lexeme

/-! ## Scanning -/

/-- A run of characters goes as far as the next one that is not of its class. -/
theorem takeWhile_dropWhile_append {p : Char → Bool} {v cs : List Char} (hv : ∀ d ∈ v, p d = true)
    (hcs : ∀ d ∈ cs.head?, p d = false) :
    (v ++ cs).takeWhile p = v ∧ (v ++ cs).dropWhile p = cs := by
  rw [List.takeWhile_append_of_pos hv, List.dropWhile_append_of_pos hv]
  cases cs with
  | nil => simp
  | cons d cs =>
    have hd := hcs d rfl
    simp [hd]

section Scan

variable {letter : Char → Bool}

/-- Scanning takes a whole lexeme if the next character does not prolong it. -/
theorem scanFrom_lexeme (ha : Alphabet letter) {k : Kind} {v cs : List Char}
    (h : Lexeme letter k v) (hnext : ∀ d ∈ cs.head?, k.prolong letter d = false) (start : Nat) :
    scanFrom letter start (v ++ cs) =
      (scanFrom letter (start + v.length) cs).cons (ofLexeme k v start) := by
  cases h with
  | mark hk =>
    rw [List.cons_append, scanFrom, hk]
    rfl
  | number hc hv =>
    obtain ⟨htake, hdrop⟩ := takeWhile_dropWhile_append hv hnext
    rw [List.cons_append, scanFrom, markKind?_of_isDigit hc]
    simp only [not_isSpacing_of_isDigit hc, Bool.false_eq_true, if_false, hc, if_true, htake, hdrop]
  | @word c v hc hv =>
    rw [(wordKind_isWord _).prolong_eq] at hnext
    obtain ⟨htake, hdrop⟩ := takeWhile_dropWhile_append hv hnext
    rw [List.cons_append, scanFrom, ha.markKind?_of_letter hc]
    simp only [ha.not_isSpacing_of_letter hc, ha.not_isDigit_of_letter hc, Bool.false_eq_true,
      if_false, hc, if_true, htake, hdrop]

/-- Scanning skips spaces. -/
theorem scanFrom_spaces {gap : List Char} (h : Spaces gap) (start : Nat) (cs : List Char) :
    scanFrom letter start (gap ++ cs) = scanFrom letter (start + gap.length) cs := by
  induction gap generalizing start with
  | nil => rfl
  | cons c gap ih =>
    have hc : isSpacing c = true := (mem_spacing_iff c).mp (h c (by simp))
    rw [List.cons_append, scanFrom, markKind?_of_isSpacing hc]
    simp only [hc, if_true]
    rw [ih (fun d hd => h d (List.mem_cons_of_mem c hd)), List.length_cons]
    congr 1
    omega

/-- After a placed token stands no character that would prolong it, if a space stands after the last
    of the tokens that follow. -/
theorem Placed.prolong_eq_false (ha : Alphabet letter) {k : Kind} {gap : List Char}
    {items : List (Token × List Char)} {start : Nat} {after : List Char} (hgap : Spaces gap)
    (hnext : ∀ next ∈ items.head?, k.Merges next.1.kind → gap ≠ [])
    (h : Placed letter start items) (hafter : ∀ d ∈ after.head?, isSpacing d = true) :
    ∀ d ∈ (gap ++ (spread items ++ after)).head?, k.prolong letter d = false := by
  intro d hd
  cases gap with
  | cons c gap =>
    obtain rfl := Option.some.inj hd
    exact ha.prolong_of_isSpacing ((mem_spacing_iff c).mp (hgap c (by simp)))
  | nil =>
    cases items with
    | nil => exact ha.prolong_of_isSpacing (hafter d hd)
    | cons item items =>
      obtain ⟨t, gap⟩ := item
      have hlex := (spells_iff_lexeme ha).mp h.2.1
      obtain ⟨c, v, hv⟩ := List.exists_cons_of_ne_nil hlex.ne_nil
      rw [List.nil_append, spread_cons, hv] at hd
      obtain rfl := Option.some.inj hd
      rw [hv] at hlex
      rw [Bool.eq_false_iff, Ne, hlex.prolong_iff_merges ha]
      intro hmerges
      exact hnext (t, gap) rfl hmerges rfl

theorem ofLexeme_eq {t : Token} {start : Nat} (h : t.span = ⟨start, start + t.text.length⟩) :
    ofLexeme t.kind t.text.toList start = t := by
  unfold ofLexeme
  rw [String.ofList_toList, String.length_toList, ← h]

/-- Scanning placed tokens gives them back, and goes on behind the space after them. -/
theorem scanFrom_spread_append (ha : Alphabet letter) {start : Nat}
    {items : List (Token × List Char)} {after : List Char} (h : Placed letter start items)
    (hafter : ∀ d ∈ after.head?, isSpacing d = true) :
    scanFrom letter start (spread items ++ after) =
      ⟨items.map Prod.fst ++ (scanFrom letter (start + (spread items).length) after).tokens,
        (scanFrom letter (start + (spread items).length) after).fault⟩ := by
  induction items generalizing start with
  | nil => rfl
  | cons item items ih =>
    obtain ⟨t, gap⟩ := item
    obtain ⟨hgap, hspells, hspan, hnext, hrest⟩ := h
    have hlex := (spells_iff_lexeme ha).mp hspells
    have hstop := hrest.prolong_eq_false ha hgap hnext hafter
    rw [spread_cons, List.append_assoc, List.append_assoc, scanFrom_lexeme ha hlex hstop,
      scanFrom_spaces hgap, String.length_toList, ih hrest, ofLexeme_eq hspan]
    simp only [Scanned.cons, List.map_cons, List.cons_append, List.length_append,
      String.length_toList, Nat.add_assoc]

/-- Scanning placed tokens gives them back. -/
theorem scanFrom_spread (ha : Alphabet letter) {start : Nat} {items : List (Token × List Char)}
    (h : Placed letter start items) :
    scanFrom letter start (spread items) =
      ⟨items.map Prod.fst ++ [ending (start + (spread items).length)], none⟩ := by
  have hend : ∀ d ∈ ([] : List Char).head?, isSpacing d = true := by simp
  have hscan := scanFrom_spread_append ha h hend
  rwa [List.append_nil, scanFrom] at hscan

theorem scanFrom_of_placedFrom (ha : Alphabet letter) {start : Nat} {cs : List Char}
    {tokens : List Token} (h : PlacedFrom letter start cs tokens) :
    scanFrom letter start cs = ⟨tokens, none⟩ := by
  obtain ⟨gap, items, rfl, rfl, hgap, hitems⟩ := h
  rw [scanFrom_spaces hgap, scanFrom_spread ha hitems, List.length_append, Nat.add_assoc]

theorem PlacedFrom.nil (start : Nat) : PlacedFrom letter start [] [ending start] :=
  ⟨[], [], rfl, rfl, by simp [Spaces], trivial⟩

theorem PlacedFrom.space {start : Nat} {c : Char} {cs : List Char} {tokens : List Token}
    (hc : isSpacing c = true) (h : PlacedFrom letter (start + 1) cs tokens) :
    PlacedFrom letter start (c :: cs) tokens := by
  obtain ⟨gap, items, rfl, rfl, hgap, hitems⟩ := h
  refine ⟨c :: gap, items, ?_, rfl, ?_, ?_⟩
  · rw [List.length_cons, Nat.add_right_comm, Nat.add_assoc]
  · exact List.forall_mem_cons.mpr ⟨(mem_spacing_iff c).mpr hc, hgap⟩
  · rwa [List.length_cons, ← Nat.add_assoc, Nat.add_right_comm]

/-- A lexeme in front of a spaced out text, which must not begin with a character that prolongs
    the lexeme. -/
theorem PlacedFrom.lexeme (ha : Alphabet letter) {start : Nat} {k : Kind} {v cs : List Char}
    {tokens : List Token} (hlex : Lexeme letter k v)
    (hnext : ∀ d ∈ cs.head?, k.prolong letter d = false)
    (h : PlacedFrom letter (start + v.length) cs tokens) :
    PlacedFrom letter start (v ++ cs) (ofLexeme k v start :: tokens) := by
  obtain ⟨gap, items, rfl, rfl, hgap, hitems⟩ := h
  refine ⟨[], (ofLexeme k v start, gap) :: items, ?_, ?_, by simp [Spaces], hgap, ?_, ?_, ?_, ?_⟩
  · simp only [List.map_cons, List.cons_append, List.length_append, Nat.add_assoc]
  · simp [ofLexeme]
  · simpa [ofLexeme, spells_iff_lexeme ha] using hlex
  · simp [ofLexeme]
  · rintro ⟨t, after⟩ ht hmerges rfl
    obtain ⟨items, rfl⟩ := List.head?_eq_some_iff.mp ht
    have hlex' := (spells_iff_lexeme ha).mp hitems.2.1
    obtain ⟨c, w, hw⟩ := List.exists_cons_of_ne_nil hlex'.ne_nil
    rw [hw] at hlex'
    have hc : k.prolong letter c = true := (hlex'.prolong_iff_merges ha).mpr hmerges
    rw [hnext c (by simp [hw])] at hc
    cases hc
  · simpa [ofLexeme] using hitems

theorem scanned_cons_eq {t : Token} {s : Scanned} {tokens : List Token}
    (h : s.cons t = ⟨tokens, none⟩) : ∃ rest, tokens = t :: rest ∧ s = ⟨rest, none⟩ := by
  obtain ⟨rest, fault⟩ := s
  obtain ⟨rfl, rfl⟩ := Scanned.mk.inj h
  exact ⟨rest, rfl, rfl⟩

theorem head?_dropWhile_eq_false (p : Char → Bool) (cs : List Char) :
    ∀ d ∈ (cs.dropWhile p).head?, p d = false := by
  intro d hd
  have h := List.head?_dropWhile_not p cs
  rw [Option.mem_def.mp hd] at h
  exact h

/-- A text that scans is spaced out. -/
theorem placedFrom_of_scanFrom (ha : Alphabet letter) {start : Nat} {cs : List Char}
    {tokens : List Token} (h : scanFrom letter start cs = ⟨tokens, none⟩) :
    PlacedFrom letter start cs tokens := by
  fun_induction scanFrom letter start cs generalizing tokens with
  | case1 start =>
    obtain ⟨rfl, -⟩ := Scanned.mk.inj h
    exact .nil start
  | case2 start c rest kind hk ih =>
    obtain ⟨tokens, rfl, hrest⟩ := scanned_cons_eq h
    exact .lexeme ha (.mark hk) (fun d _ => prolong_of_markKind? hk) (ih hrest)
  | case3 start c rest hk hc ih => exact .space hc (ih h)
  | case4 start c rest hk hspacing hc lexeme =>
    rename_i ih
    obtain ⟨tokens, rfl, hrest⟩ := scanned_cons_eq h
    have hlex : Lexeme letter .number lexeme :=
      .number hc (List.all_eq_true.mp List.all_takeWhile)
    have hnext := head?_dropWhile_eq_false Char.isDigit rest
    have hplaced := PlacedFrom.lexeme ha hlex hnext (ih hrest)
    rwa [List.cons_append, List.takeWhile_append_dropWhile] at hplaced
  | case5 start c rest hk hspacing hdigit hc lexeme =>
    rename_i ih
    obtain ⟨tokens, rfl, hrest⟩ := scanned_cons_eq h
    have hlex : Lexeme letter (wordKind (String.ofList lexeme)) lexeme :=
      .word hc (List.all_eq_true.mp List.all_takeWhile)
    have hnext : ∀ d ∈ (rest.dropWhile letter).head?,
        (wordKind (String.ofList lexeme)).prolong letter d = false := by
      rw [(wordKind_isWord _).prolong_eq letter]
      exact head?_dropWhile_eq_false letter rest
    have hplaced := PlacedFrom.lexeme ha hlex hnext (ih hrest)
    rwa [List.cons_append, List.takeWhile_append_dropWhile] at hplaced
  | case6 start c rest => cases (Scanned.mk.inj h).2

theorem scanFrom_eq_iff (ha : Alphabet letter) (cs : List Char) (tokens : List Token) :
    scanFrom letter 0 cs = ⟨tokens, none⟩ ↔ SpacedOut letter cs tokens := by
  rw [spacedOut_iff_placedFrom]
  exact ⟨placedFrom_of_scanFrom ha, scanFrom_of_placedFrom ha⟩

end Scan

theorem alphabet_isCased : Alphabet Text.isCased where
  keyword := forall_mem_of_all (by decide)
  digit := forall_mem_of_all (by decide)
  mark := forall_mem_of_all (by decide)
  spacing := forall_mem_of_all (by decide)

theorem ofSource_eq_ok_iff (source : String) (tokens : List Token) :
    ofSource source = .ok tokens ↔ scan source = ⟨tokens, none⟩ := by
  unfold ofSource
  obtain ⟨found, fault⟩ := scan source
  cases fault <;> simp

theorem ofSource_eq_error_iff (source : String) (fault : Fault) :
    ofSource source = .error fault ↔ ∃ tokens, scan source = ⟨tokens, some fault⟩ := by
  unfold ofSource
  obtain ⟨found, fault?⟩ := scan source
  cases fault? <;> simp

/-! ## Order -/

/-- Tokens that stand one after the other. -/
def Ordered (tokens : List Token) : Prop :=
  (∀ t ∈ tokens, t.span.start ≤ t.span.stop) ∧
    tokens.Pairwise fun a b => a.span.stop ≤ b.span.start

/-- Placed tokens lie within their text, one after the other. -/
theorem Placed.ordered {letter : Char → Bool} {start : Nat} {items : List (Token × List Char)}
    (h : Placed letter start items) :
    (∀ t ∈ items.map Prod.fst, start ≤ t.span.start ∧ t.span.start ≤ t.span.stop ∧
      t.span.stop ≤ start + (spread items).length) ∧
    (items.map Prod.fst).Pairwise fun a b => a.span.stop ≤ b.span.start := by
  induction items generalizing start with
  | nil => simp
  | cons item items ih =>
    obtain ⟨t, gap⟩ := item
    obtain ⟨-, -, hspan, -, hrest⟩ := h
    obtain ⟨hwithin, hpairs⟩ := ih hrest
    have hlength : (spread ((t, gap) :: items)).length =
        t.text.length + (gap.length + (spread items).length) := by
      rw [spread_cons, List.length_append, List.length_append, String.length_toList]
    have hstart : t.span.start = start := congrArg Span.start hspan
    have hstop : t.span.stop = start + t.text.length := congrArg Span.stop hspan
    simp only [hlength, List.map_cons, List.forall_mem_cons, List.pairwise_cons]
    refine ⟨⟨by omega, fun u hu => ?_⟩, fun u hu => ?_, hpairs⟩
    · have hu := hwithin u hu
      omega
    · have hu := hwithin u hu
      omega

/-- The tokens of a source text stand one after the other. -/
theorem ordered_of_ofSource {source : String} {tokens : List Token}
    (h : ofSource source = .ok tokens) : Ordered tokens := by
  rw [ofSource_eq_ok_iff] at h
  obtain ⟨gap, items, rfl, hsource, -, hplaced⟩ := placedFrom_of_scanFrom alphabet_isCased h
  obtain ⟨hwithin, hpairs⟩ := hplaced.ordered
  have hlength := congrArg List.length hsource
  rw [List.length_append] at hlength
  refine ⟨fun t ht => ?_, List.pairwise_append.mpr ⟨hpairs, List.pairwise_singleton _ _, ?_⟩⟩
  · rcases List.mem_append.mp ht with ht | ht
    · exact (hwithin t ht).2.1
    · rw [List.mem_singleton.mp ht]
      exact Nat.le_refl _
  · intro t ht u hu
    have hstop := (hwithin t ht).2.2
    rw [List.mem_singleton.mp hu]
    show t.span.stop ≤ 0 + source.toList.length
    omega

/-! ## Source texts -/

/-- The tokens of a source text are those it spaces out. Of the letters this needs no more than that
    they are an alphabet. -/
theorem ofSource_iff_spacedOut (source : String) (tokens : List Token) :
    (ofSource source = .ok tokens ↔ SpacedOut Text.isCased source.toList tokens) ∧
    ∀ letter, Alphabet letter →
      (scanFrom letter 0 source.toList = ⟨tokens, none⟩ ↔
        SpacedOut letter source.toList tokens) := by
  constructor
  · rw [ofSource_eq_ok_iff]
    exact scanFrom_eq_iff alphabet_isCased source.toList tokens
  · intro letter ha
    exact scanFrom_eq_iff ha source.toList tokens

theorem spacedOut_let_x : SpacedOut Text.isCased "let x7;".toList
    [⟨.letWord, "let", ⟨0, 3⟩⟩, ⟨.identifier, "x", ⟨4, 5⟩⟩, ⟨.number, "7", ⟨5, 6⟩⟩,
      ⟨.semicolon, ";", ⟨6, 7⟩⟩, ⟨.endOfFile, "EndOfFile", ⟨7, 7⟩⟩] :=
  ((ofSource_iff_spacedOut "let x7;" _).2 Text.isCased alphabet_isCased).mp (by decide +kernel)

end Quill.Token
