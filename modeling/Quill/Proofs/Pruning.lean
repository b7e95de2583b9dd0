import Quill.Proofs.Joining
import Quill.Proofs.Viable

/-!
# Idle lines

A line that is blank or that is no program leaves no trace in a dialogue: without it every other
line has the answer and the heap that it has with it, and the dialogue ends in the same way. What
follows a line that asks to leave leaves no trace either.

* `Idle`: a line that is blank or no program.
* `converse_prune`: a dialogue without some idle lines.
* `converse_append_leaves`: a dialogue up to the first line that asks to leave.
* `idle_lines_leave_no_trace`: the statements about both.
-/

namespace Quill.Dialogue

/-! ## Deletion -/

/-- The items of a list except those at the deleted indices. -/
def prune {α : Type} (deleted : Nat → Bool) : List α → List α
  | [] => []
  | item :: rest =>
    if deleted 0 then prune (fun i => deleted (i + 1)) rest
    else item :: prune (fun i => deleted (i + 1)) rest

section Prune

variable {α : Type} {deleted : Nat → Bool}

theorem prune_cons_of_deleted (h : deleted 0 = true) (item : α) (rest : List α) :
    prune deleted (item :: rest) = prune (fun i => deleted (i + 1)) rest := by
  rw [prune, if_pos h]

theorem prune_cons_of_kept (h : ¬deleted 0 = true) (item : α) (rest : List α) :
    prune deleted (item :: rest) = item :: prune (fun i => deleted (i + 1)) rest := by
  rw [prune, if_neg h]

end Prune

/-! ## Idle lines -/

/-- Whether a line is blank or no program: its text is empty, cannot be scanned or cannot be
    read. -/
def Idle : Option String → Prop
  | none => False
  | some line => textOf line = "" ∨ ∃ fault, Program.ofSource (textOf line) = .error fault

variable (report : Reporter)

/-- What is no program is answered without touching the heap. -/
theorem heap_reply_of_error {text : String} {fault : Fault}
    (hfault : Program.ofSource text = .error fault) (listing : Listing) (h : Heap) :
    (reply report listing h text).heap = h := by
  have hverdict := Script.verdict_execute listing text 0 h
  rw [hfault] at hverdict
  rw [heap_reply]
  exact congrArg Prod.snd hverdict

theorem Idle.heap_reply {line : String} (hidle : Idle (some line)) (listing : Listing) (h : Heap) :
    (reply report listing h (textOf line)).heap = h := by
  rcases hidle with hblank | ⟨fault, hfault⟩
  · rw [reply, if_pos hblank]
  · exact heap_reply_of_error report hfault listing h

/-- A name alone is a program. -/
theorem ofSource_of_name {text : String} {word : Token} {stop : Nat}
    (hscan : Token.ofSource text = .ok [word, Token.ending stop])
    (hword : word.kind = .identifier) :
    Program.ofSource text = .ok [.expression (.name word.text word.span) word.span] := by
  refine (Program.ofSource_eq_ok_iff _ _).mpr ⟨_, [.express (.sum (.chain (.chain
    (.name ⟨word, hword⟩) .nil) .nil)) none], hscan, ?_, ?_, rfl⟩
  · have hne : ∀ t ∈ [word], t.kind ≠ .endOfFile := by simp [hword]
    exact (Token.beforeEnd_append_cons hne rfl).symm
  · intro s hs
    rw [List.mem_singleton.mp hs]
    exact Sentence.fits_express.mpr (.inl rfl)

/-- What asks to leave could also be read as a name. -/
theorem exists_ofSource_of_leaves {text : String} (h : leaves text = true) :
    ∃ p, Program.ofSource text = .ok p := by
  unfold leaves at h
  rw [Bool.or_eq_true, decide_eq_true_iff, decide_eq_true_iff] at h
  rcases h with rfl | rfl
  · have hscan : Token.ofSource "exit" = .ok [⟨.identifier, "exit", ⟨0, 4⟩⟩, Token.ending 4] :=
      (Token.ofSource_eq_ok_iff _ _).mpr (by decide +kernel)
    exact ⟨_, ofSource_of_name hscan rfl⟩
  · have hscan : Token.ofSource "quit" = .ok [⟨.identifier, "quit", ⟨0, 4⟩⟩, Token.ending 4] :=
      (Token.ofSource_eq_ok_iff _ _).mpr (by decide +kernel)
    exact ⟨_, ofSource_of_name hscan rfl⟩

theorem Idle.not_leaves {line : String} (hidle : Idle (some line)) :
    ¬leaves (textOf line) = true := by
  intro hleaves
  rcases hidle with hblank | ⟨fault, hfault⟩
  · rw [hblank] at hleaves
    exact absurd hleaves (by decide)
  · obtain ⟨p, hp⟩ := exists_ofSource_of_leaves hleaves
    rw [hp] at hfault
    cases hfault

/-! ## Dialogues -/

section Converse

variable (listing : Listing) (h : Heap)

theorem converse_of_leaves {line : String} (hleaves : leaves (textOf line) = true)
    (rest : List (Option String)) :
    converse report listing h (some line :: rest) = ⟨[], .farewell⟩ := by
  rw [converse, if_pos hleaves]

theorem converse_of_not_leaves {line : String} (hleaves : ¬leaves (textOf line) = true)
    (rest : List (Option String)) :
    converse report listing h (some line :: rest) =
      ⟨reply report listing h (textOf line) ::
          (converse report listing (reply report listing h (textOf line)).heap rest).replies,
        (converse report listing (reply report listing h (textOf line)).heap rest).ending⟩ := by
  rw [converse, if_neg hleaves]

/-- Without some of its idle lines a dialogue gives the other lines their answers, and ends in the
    same way. -/
theorem converse_prune (lines : List (Option String)) (deleted : Nat → Bool)
    (hidle : ∀ i line, lines[i]? = some line → deleted i = true → Idle line) :
    converse report listing h (prune deleted lines) =
      ⟨prune deleted (converse report listing h lines).replies,
        (converse report listing h lines).ending⟩ := by
  induction lines generalizing h deleted with
  | nil => rfl
  | cons line rest ih =>
    have hrest : ∀ i line, rest[i]? = some line → deleted (i + 1) = true → Idle line :=
      fun i => hidle (i + 1)
    have hfirst : deleted 0 = true → Idle line := hidle 0 line rfl
    match line with
    | none =>
      rw [prune_cons_of_kept hfirst]
      rfl
    | some line =>
      by_cases hleaves : leaves (textOf line) = true
      · have hkept : ¬deleted 0 = true := fun hdeleted => (hfirst hdeleted).not_leaves hleaves
        rw [prune_cons_of_kept hkept, converse_of_leaves _ _ _ hleaves,
          converse_of_leaves _ _ _ hleaves]
        rfl
      · rw [converse_of_not_leaves _ _ _ hleaves rest]
        dsimp only
        by_cases hdeleted : deleted 0 = true
        · -- the heap is what it was, so the rest of the dialogue starts from the same one
          rw [prune_cons_of_deleted hdeleted, prune_cons_of_deleted hdeleted,
            (hfirst hdeleted).heap_reply]
          exact ih h _ hrest
        · rw [prune_cons_of_kept hdeleted, prune_cons_of_kept hdeleted,
            converse_of_not_leaves _ _ _ hleaves]
          rw [ih _ _ hrest]

/-- A dialogue ignores what comes after a line that asks to leave. -/
theorem converse_append_leaves {line : String} (hleaves : leaves (textOf line) = true)
    (before after : List (Option String)) :
    converse report listing h (before ++ some line :: after) =
      converse report listing h (before ++ [some line]) := by
  induction before generalizing h with
  | nil =>
    rw [List.nil_append, List.nil_append, converse_of_leaves _ _ _ hleaves,
      converse_of_leaves _ _ _ hleaves]
  | cons first before ih =>
    rw [List.cons_append, List.cons_append]
    match first with
    | none => rfl
    | some first =>
      by_cases hfirst : leaves (textOf first) = true
      · rw [converse_of_leaves _ _ _ hfirst, converse_of_leaves _ _ _ hfirst]
      · rw [converse_of_not_leaves _ _ _ hfirst, converse_of_not_leaves _ _ _ hfirst, ih]

end Converse

/-- Whatever set of idle lines is deleted from a dialogue, the lines that remain have the answers
    and leave the heaps that they had, and the dialogue ends in the same way; and no line after one
    that asks to leave has any effect. -/
theorem idle_lines_leave_no_trace (listing : Listing) (h : Heap)
    (lines : List (Option String)) :
    (∀ deleted : Nat → Bool,
      (∀ i line, lines[i]? = some line → deleted i = true → Idle line) →
        (converse report listing h (prune deleted lines)).replies =
            prune deleted (converse report listing h lines).replies ∧
          (converse report listing h (prune deleted lines)).ending =
            (converse report listing h lines).ending) ∧
      ∀ before line after, lines = before ++ some line :: after → leaves (textOf line) = true →
        converse report listing h lines = converse report listing h (before ++ [some line]) := by
  constructor
  · intro deleted hidle
    rw [converse_prune report listing h lines deleted hidle]
    exact ⟨rfl, rfl⟩
  · rintro before line after rfl hleaves
    exact converse_append_leaves report listing h hleaves before after

theorem ofSource_const_y : ∃ fault, Program.ofSource "const y;" = .error fault := by
  have hscan : Token.ofSource "const y;" = .ok [⟨.constWord, "const", ⟨0, 5⟩⟩,
      ⟨.identifier, "y", ⟨6, 7⟩⟩, ⟨.semicolon, ";", ⟨7, 8⟩⟩, Token.ending 8] :=
    (Token.ofSource_eq_ok_iff _ _).mpr (by decide +kernel)
  have hread := (StuckProgram.here (.noValue ⟨⟨.constWord, "const", ⟨0, 5⟩⟩, rfl⟩
    ⟨⟨.identifier, "y", ⟨6, 7⟩⟩, rfl⟩ ⟨⟨.semicolon, ";", ⟨7, 8⟩⟩, rfl⟩)).ofTokens_eq_error
      [Token.ending 8]
  exact ⟨_, by rw [Program.ofSource, hscan]; exact hread⟩

theorem ofSource_x_hash : ∃ fault, Program.ofSource "x = #" = .error fault := by
  have hscan : Token.ofSource "x = #" = .error (.foreignCharacter '#' 4) :=
    (Token.ofSource_eq_error_iff _ _).mpr ⟨[⟨.identifier, "x", ⟨0, 1⟩⟩, ⟨.equals, "=", ⟨2, 3⟩⟩],
      by decide +kernel⟩
  exact ⟨_, by rw [Program.ofSource, hscan]; rfl⟩

/-- A dialogue with a line that cannot be read, a blank one and one that cannot be scanned, and a
    line after the one that asks to leave. -/
def interrupted : List (Option String) :=
  [some "let x;\n", some "const y;\n", some " \t\n", some "x = #\r\n", some "x = 1\n",
    some "quit\n", some "x = 2"]

theorem interrupted_leaves_no_trace :
    (converse Problem.report ⟨true, true⟩ .initial
        [some "let x;\n", some "x = 1\n", some "quit\n", some "x = 2"]).replies =
      prune (fun i => 1 ≤ i && i ≤ 3)
        (converse Problem.report ⟨true, true⟩ .initial interrupted).replies ∧
    converse Problem.report ⟨true, true⟩ .initial interrupted =
      converse Problem.report ⟨true, true⟩ .initial (interrupted.take 6) := by
  obtain ⟨hprune, hleaves⟩ :=
    idle_lines_leave_no_trace Problem.report ⟨true, true⟩ .initial interrupted
  constructor
  · refine (hprune (fun i => 1 ≤ i && i ≤ 3) ?_).1
    intro i line hline hdeleted
    obtain ⟨hlow, hhigh⟩ : 1 ≤ i ∧ i ≤ 3 := by simpa using hdeleted
    obtain rfl | rfl | rfl : i = 1 ∨ i = 2 ∨ i = 3 := by omega
    · obtain rfl : some "const y;\n" = line := Option.some.inj hline
      have htext : textOf "const y;\n" = "const y;" := by decide +kernel
      exact .inr (by rw [htext]; exact ofSource_const_y)
    · obtain rfl : some " \t\n" = line := Option.some.inj hline
      exact .inl (by decide +kernel)
    · obtain rfl : some "x = #\r\n" = line := Option.some.inj hline
      have htext : textOf "x = #\r\n" = "x = #" := by decide +kernel
      exact .inr (by rw [htext]; exact ofSource_x_hash)
  · exact hleaves (interrupted.take 5) "quit\n" [some "x = 2"] rfl (by decide +kernel)

end Quill.Dialogue
