import Quill.Proofs.Blame

/-!
# Foreign characters

Scanning fails exactly on the texts that have a foreign character, and fails at the first one. No
run of digits or letters takes such a character in, and nothing behind it is looked at.

* `Token.foreign_iff`: the characters that are not foreign, one by one.
* `Token.exists_scanFrom_eq`: scanning comes to the first foreign character, whatever follows it.
* `Token.fails_at_first_foreign`: where scanning a source text fails, and with which message.
-/

namespace Quill.Token

section Characters

variable {letter : Char → Bool} {c : Char}

instance : Decidable (Foreign letter c) :=
  inferInstanceAs (Decidable (_ ∧ _ ∧ _ ∧ _))

theorem markKind?_eq_none_iff (c : Char) : markKind? c = none ↔ c ∉ "();=+-*/%".toList := by
  rw [← markKind?_isSome_iff, Option.not_isSome_iff_eq_none]

/-- Foreign are all characters but the marks, the spaces, the digits and the letters. -/
theorem foreign_iff :
    Foreign letter c ↔ c ∉ "();=+-*/% \t\n\r0123456789".toList ∧ letter c = false := by
  have hlist : "();=+-*/% \t\n\r0123456789".toList =
      "();=+-*/%".toList ++ (" \t\n\r".toList ++ "0123456789".toList) := by decide
  have hspacing : isSpacing c = false ↔ c ∉ " \t\n\r".toList := by
    rw [mem_spacing_iff, Bool.not_eq_true]
  have hdigit : c.isDigit = false ↔ c ∉ "0123456789".toList := by
    rw [mem_digits_iff, Bool.not_eq_true]
  unfold Foreign
  rw [hlist, List.mem_append, List.mem_append, not_or, not_or, markKind?_eq_none_iff, hspacing,
    hdigit, and_assoc, and_assoc]

end Characters

/-! ## Scanning up to a foreign character -/

/-- A run of characters does not get past one that is not of its class. -/
theorem takeWhile_dropWhile_append_cons {p : Char → Bool} {c : Char} (hc : p c = false)
    (cs after : List Char) :
    (cs ++ c :: after).takeWhile p = cs.takeWhile p ∧
      (cs ++ c :: after).dropWhile p = cs.dropWhile p ++ c :: after := by
  have hsplit : cs ++ c :: after = cs.takeWhile p ++ (cs.dropWhile p ++ c :: after) := by
    rw [← List.append_assoc, List.takeWhile_append_dropWhile]
  rw [hsplit]
  refine takeWhile_dropWhile_append (List.all_eq_true.mp List.all_takeWhile) ?_
  intro d hd
  cases hdrop : cs.dropWhile p with
  | nil =>
    rw [hdrop] at hd
    obtain rfl : c = d := Option.some.inj hd
    exact hc
  | cons e rest =>
    rw [hdrop] at hd
    exact head?_dropWhile_eq_false p cs d (by rw [hdrop]; exact hd)

/-- A character and the run behind it are followed by what the run leaves. -/
theorem length_run (p : Char → Bool) (d : Char) (cs : List Char) :
    (d :: cs.takeWhile p).length + (cs.dropWhile p).length = (d :: cs).length := by
  rw [← List.length_append, List.cons_append, List.takeWhile_append_dropWhile]

section Scan

variable {letter : Char → Bool} {c : Char}

/-- Scanning stops at a foreign character right away. -/
theorem scanFrom_foreign (hc : Foreign letter c) (start : Nat) (after : List Char) :
    scanFrom letter start (c :: after) = ⟨[], some (.foreignCharacter c start)⟩ := by
  obtain ⟨hmark, hspacing, hdigit, hletter⟩ := hc
  rw [scanFrom, hmark]
  simp only [hspacing, hdigit, hletter, Bool.false_eq_true, if_false]

/-- Scanning comes to the first foreign character and stops there, whatever follows it. -/
theorem exists_scanFrom_eq (hc : Foreign letter c) (start : Nat) {before : List Char}
    (hbefore : ∀ d ∈ before, ¬Foreign letter d) :
    ∃ tokens, ∀ after, scanFrom letter start (before ++ c :: after) =
      ⟨tokens, some (.foreignCharacter c (start + before.length))⟩ := by
  obtain ⟨-, -, hcdigit, hcletter⟩ := id hc
  -- the cases are those of scanning what stands before the character
  fun_induction scanFrom letter start before with
  | case1 start => exact ⟨[], scanFrom_foreign hc start⟩
  | case2 start d rest kind hkind ih =>
    obtain ⟨tokens, htokens⟩ := ih fun e he => hbefore e (List.mem_cons_of_mem d he)
    refine ⟨ofLexeme kind [d] start :: tokens, fun after => ?_⟩
    rw [List.cons_append, scanFrom, hkind]
    simp only [htokens, Scanned.cons, List.length_cons, Nat.add_assoc, Nat.add_comm 1]
  | case3 start d rest hkind hspacing ih =>
    obtain ⟨tokens, htokens⟩ := ih fun e he => hbefore e (List.mem_cons_of_mem d he)
    refine ⟨tokens, fun after => ?_⟩
    rw [List.cons_append, scanFrom, hkind]
    simp only [hspacing, if_true, htokens, List.length_cons, Nat.add_assoc, Nat.add_comm 1]
  | case4 start d rest hkind hspacing hdigit lexeme ih =>
    have hrest : ∀ e ∈ rest.dropWhile Char.isDigit, ¬Foreign letter e := fun e he =>
      hbefore e (List.mem_cons_of_mem d ((List.dropWhile_suffix _).mem he))
    obtain ⟨tokens, htokens⟩ := ih hrest
    refine ⟨ofLexeme .number lexeme start :: tokens, fun after => ?_⟩
    obtain ⟨htake, hdrop⟩ := takeWhile_dropWhile_append_cons hcdigit rest after
    rw [List.cons_append, scanFrom, hkind]
    simp only [hspacing, hdigit, Bool.false_eq_true, if_false, if_true, htake, hdrop]
    rw [htokens, Nat.add_assoc, length_run]
    rfl
  | case5 start d rest hkind hspacing hdigit hletter lexeme ih =>
    have hrest : ∀ e ∈ rest.dropWhile letter, ¬Foreign letter e := fun e he =>
      hbefore e (List.mem_cons_of_mem d ((List.dropWhile_suffix _).mem he))
    obtain ⟨tokens, htokens⟩ := ih hrest
    refine ⟨ofLexeme (wordKind (String.ofList lexeme)) lexeme start :: tokens, fun after => ?_⟩
    obtain ⟨htake, hdrop⟩ := takeWhile_dropWhile_append_cons hcletter rest after
    rw [List.cons_append, scanFrom, hkind]
    simp only [hspacing, hdigit, hletter, Bool.false_eq_true, if_false, if_true, htake, hdrop]
    rw [htokens, Nat.add_assoc, length_run]
    rfl
  | case6 start d rest hkind hspacing hdigit hletter =>
    have hforeign : Foreign letter d := ⟨hkind, by simpa using hspacing, by simpa using hdigit,
      by simpa using hletter⟩
    exact absurd hforeign (hbefore d List.mem_cons_self)

/-- Among some characters one of which is foreign there is a first one. -/
theorem exists_first_foreign {cs : List Char} (h : ∃ c ∈ cs, Foreign letter c) :
    ∃ before c after, cs = before ++ c :: after ∧ (∀ d ∈ before, ¬Foreign letter d) ∧
      Foreign letter c := by
  have hsome : (cs.find? fun c => decide (Foreign letter c)).isSome = true := by
    simpa using h
  obtain ⟨c, hfind⟩ := Option.isSome_iff_exists.mp hsome
  obtain ⟨hc, before, after, hcs, hbefore⟩ := List.find?_eq_some_iff_append.mp hfind
  exact ⟨before, c, after, hcs, by simpa using hbefore, by simpa using hc⟩

end Scan

/-! ## Source texts -/

/-- The fault of a source text is about its first foreign character, and so it is for every other
    text that begins like it up to that character. -/
theorem ofSource_of_first_foreign {before after : List Char} {c : Char}
    (hbefore : ∀ d ∈ before, ¬Foreign Text.isCased d) (hc : Foreign Text.isCased c)
    {source : String} (hsource : source.toList = before ++ c :: after) :
    ofSource source = .error (.foreignCharacter c before.length) ∧
      ∀ source' : String, before ++ [c] <+: source'.toList → scan source' = scan source := by
  obtain ⟨tokens, htokens⟩ := exists_scanFrom_eq hc 0 hbefore
  have hscan : scan source = ⟨tokens, some (.foreignCharacter c before.length)⟩ := by
    rw [scan, hsource, htokens, Nat.zero_add]
  refine ⟨(ofSource_eq_error_iff _ _).mpr ⟨tokens, hscan⟩, ?_⟩
  rintro source' ⟨rest, hrest⟩
  rw [hscan, scan, ← hrest, List.append_assoc, List.singleton_append, htokens, Nat.zero_add]

/-- Scanning a source text fails exactly if the text has a character that is no mark, no space, no
    digit and no cased letter. The first such character is named in the message with its place, and
    the outcome, the tokens before the character included, is that of every text that begins in this
    way. -/
theorem fails_at_first_foreign (source : String) :
    (∀ c, Foreign Text.isCased c ↔
      c ∉ "();=+-*/% \t\n\r0123456789".toList ∧ Text.isCased c = false) ∧
    ((∃ fault, ofSource source = .error fault) ↔ ∃ c ∈ source.toList, Foreign Text.isCased c) ∧
    ∀ before c after, source.toList = before ++ c :: after →
      (∀ d ∈ before, ¬Foreign Text.isCased d) → Foreign Text.isCased c →
        (∃ fault, ofSource source = .error fault ∧ fault.problem =
          ⟨.lexical, ⟨before.length, before.length + 1⟩, "Unrecognized character '" ++ c.toString ++
            "' at position " ++ toString before.length, none⟩) ∧
        ∀ source' : String, before ++ [c] <+: source'.toList → scan source' = scan source := by
  refine ⟨fun c => foreign_iff, ⟨?_, ?_⟩, ?_⟩
  · rintro ⟨fault, hfault⟩
    obtain ⟨tokens, hscan⟩ := (ofSource_eq_error_iff _ _).mp hfault
    obtain ⟨before, c, after, hsource, -, hc⟩ :=
      exists_foreign_of_scan (congrArg Scanned.fault hscan)
    exact ⟨c, by simp [hsource], hc⟩
  · intro hforeign
    obtain ⟨before, c, after, hsource, hbefore, hc⟩ := exists_first_foreign hforeign
    exact ⟨_, (ofSource_of_first_foreign hbefore hc hsource).1⟩
  · intro before c after hsource hbefore hc
    obtain ⟨hfault, hsame⟩ := ofSource_of_first_foreign hbefore hc hsource
    exact ⟨⟨_, hfault, rfl⟩, hsame⟩

/-- A NUL in the middle of a text is not its end, and the character behind it is not looked at. -/
theorem nul_is_first_foreign :
    (∀ d ∈ "let x".toList, ¬Foreign Text.isCased d) ∧ Foreign Text.isCased '\x00' ∧
      (∃ fault, ofSource "let x\x00@" = .error fault ∧ fault.problem =
        ⟨.lexical, ⟨5, 6⟩, "Unrecognized character '\x00' at position 5", none⟩) ∧
      scan "let x\x00 = 1" = scan "let x\x00@" := by
  have hbefore : ∀ d ∈ "let x".toList, ¬Foreign Text.isCased d := forall_mem_of_all (by decide)
  have hnul : Foreign Text.isCased '\x00' := by decide
  obtain ⟨-, -, hfirst⟩ := fails_at_first_foreign "let x\x00@"
  obtain ⟨⟨fault, hfault, hproblem⟩, hsame⟩ := hfirst "let x".toList '\x00' ['@'] rfl hbefore hnul
  exact ⟨hbefore, hnul, ⟨fault, hfault, hproblem⟩, hsame _ ⟨" = 1".toList, rfl⟩⟩

end Quill.Token
