import Quill.Proofs.Guarded

/-!
# Balanced readings

What guarded reading says about reading. Strict guards stop nothing where the tokens end in an end
token, and every reading keeps that token and counts its levels right. Loose guards stop nothing
anywhere if one expression more is allowed inside others than there are levels left, and this bound
is reached.

* `Reader.balanced`: readers that come back to the level they began at keep the last token.
* `Cursor.readings_balanced`: phrases, statements and programs under strict guards.
* `Guarded.expression_opened`: parentheses that call for one expression more than is allowed.
* `Phrase.expression_nesting_bounded`: how many expressions stand inside one another.
-/

namespace Quill

/-! ## Balance -/

/-- How a reading may end that began at a cursor whose tokens end in `last`: on success at the same
    level and with fewer tokens, on failure not above that level. In either case it leaves a suffix
    of the tokens, and `last` is still there. -/
structure Reading.Balanced {α : Type} (c : Cursor) (last : Token) (r : Reading α) : Prop where
  succeeds : ∀ a rest, r = .ok a rest →
    rest.depth = c.depth ∧ rest.queue.length < c.queue.length
  fails : ∀ e rest, r = .error e rest → c.depth ≤ rest.depth
  suffix : r.rest.queue <:+ c.queue
  getLast? : r.rest.queue.getLast? = some last

/-- The last token is never taken if it is an end token. -/
theorem Cursor.Onward.getLast? {c rest : Cursor} {last : Token} (h : c.Onward rest)
    (hlast : c.queue.getLast? = some last) (hend : last.kind = .endOfFile) :
    rest.queue.getLast? = some last := by
  obtain ⟨taken, hqueue, hkind⟩ := h.exists_taken
  rw [hqueue, List.getLast?_append] at hlast
  cases hrest : rest.queue.getLast? with
  | none =>
    rw [hrest, Option.none_or] at hlast
    exact absurd hend (hkind last (List.mem_of_getLast? hlast))
  | some t =>
    rw [hrest, Option.some_or] at hlast
    exact hlast

theorem Phrase.consumes_reader (inner : Reader Expr) (rank : Rank) :
    Reader.Consumes (reader inner rank) := by
  have hoperand := consumes_operand inner
  cases rank with
  | operand => exact hoperand
  | chain level =>
    cases level with
    | multiplicative => exact consumes_chain hoperand _
    | additive => exact consumes_chain (consumes_chain hoperand _) _
  | expression => exact consumes_assignment inner

/-- A reader that comes back to the level it began at, and takes a token to succeed, is balanced. -/
theorem Reader.balanced {α : Type} {p : Reader α} (hlevels : Reader.Levels 0 0 p)
    (hconsumes : Reader.Consumes p) {c : Cursor} {last : Token}
    (hlast : c.queue.getLast? = some last) (hend : last.kind = .endOfFile) :
    (p.run c).Balanced c last := by
  have hlands := hlevels c c (.refl c)
  refine ⟨fun a rest hrun => ⟨(hlands.below hrun).depth_eq, hconsumes c a rest hrun⟩,
    fun e rest hrun => ?_, hlands.onward.suffix, hlands.onward.getLast? hlast hend⟩
  have hdepth := hlands.depth_le
  rwa [hrun, Reading.rest_error] at hdepth

/-- Reading from a cursor whose tokens end in an end token never misses a token and never gives back
    a level that it has not entered, whatever phrase it reads and at whatever depth it begins:
    strict guards stop nothing. Every phrase and every statement is read in a balanced way. Programs
    too are read under strict guards, so their loops end, and any tokens make a cursor for that. -/
theorem Cursor.readings_balanced (c : Cursor) (last : Token)
    (hlast : c.queue.getLast? = some last) (hend : last.kind = .endOfFile) :
    (∀ rank, let reader := Phrase.reader Phrase.expression rank
      Guarded.phrase true (Guarded.expression true (maxDepth + 1)) rank c =
          .ok (reader.run c) ∧
        (reader.run c).Balanced c last) ∧
      (Guarded.statement true (maxDepth + 1) c = .ok (Phrase.statement.run c) ∧
        (Phrase.statement.run c).Balanced c last) ∧
      Guarded.program true (maxDepth + 1) c = .ok c.readProgram ∧
      ∀ tokens, Guarded.program true (maxDepth + 1) (.ofTokens tokens) =
        .ok (Cursor.ofTokens tokens).readProgram := by
  have hsafe (d : Cursor) (hclosed : Closed d.queue) : Guarded.Safe true 0 d.queue.length d :=
    ⟨fun _ => hclosed, Nat.zero_le _, Nat.le_refl _⟩
  have hc := hsafe c ⟨last, List.mem_of_getLast? hlast, hend⟩
  have hlimit : 0 < maxDepth + 1 := Nat.succ_pos _
  have hdeep : maxDepth < 0 + (maxDepth + 1) := by omega
  refine ⟨fun rank => ⟨?_, ?_⟩, ⟨?_, ?_⟩, ?_, fun tokens => ?_⟩
  · have hinner : Guarded.AgreesInside true 0 c.queue.length
        (Guarded.expression true (maxDepth + 1)) Phrase.expression :=
      (Guarded.agrees_expression hlimit hdeep).inside
    exact Guarded.agrees_phrase hinner (fun _ => Phrase.levels_expression) rank c hc
  · have hlevels := Phrase.levels_reader (fun _ => Phrase.levels_expression) rank 0
    exact Reader.balanced hlevels (Phrase.consumes_reader _ rank) hlast hend
  · exact Guarded.agrees_statement hlimit hdeep c hc
  · exact Reader.balanced Phrase.levels_statement Phrase.consumes_statement hlast hend
  · exact Guarded.program_eq hlimit hdeep hc
  · exact Guarded.program_eq hlimit hdeep (hsafe _ (Cursor.closed_ofTokens tokens))

/-- Three levels down, a parenthesis is opened around a name and the tokens end. -/
def unclosedGroup : Cursor :=
  ⟨[⟨.openParen, "(", ⟨0, 1⟩⟩, ⟨.identifier, "x", ⟨1, 2⟩⟩, .ending 2], .ending 2, 3, rfl⟩

/-- The group is refused four levels down, with all but the end token taken. -/
theorem unclosedGroup_balanced :
    unclosedGroup.queue.getLast? = some (.ending 2) ∧ (Token.ending 2).kind = .endOfFile ∧
      Phrase.statement.run unclosedGroup =
        .error (.unexpected .groupEnd (.ending 2)) ⟨[.ending 2], .ending 2, 4, rfl⟩ := by
  have hguarded : Guarded.statement true (maxDepth + 1) unclosedGroup =
      .ok (.error (.unexpected .groupEnd (.ending 2)) ⟨[.ending 2], .ending 2, 4, rfl⟩) := rfl
  obtain ⟨-, ⟨hstatement, -⟩, -⟩ := unclosedGroup.readings_balanced (.ending 2) rfl rfl
  exact ⟨rfl, rfl, Except.ok.inj (hstatement.symm.trans hguarded)⟩

/-! ## Expressions inside one another -/

theorem Guarded.bind_of_ok {α β : Type} {w : Guarded α} {c rest : Cursor} {a : α}
    (h : w c = .ok (.ok a rest)) (v : α → Guarded β) : (w >>= v) c = v a rest := by
  show Guarded.bind w v c = _
  rw [Guarded.bind, h]

/-- A breach ends a reading. -/
theorem Guarded.bind_breach {α β : Type} {w : Guarded α} {c : Cursor} {breach : Breach}
    (h : w c = .error breach) (v : α → Guarded β) : (w >>= v) c = .error breach := by
  show Guarded.bind w v c = _
  rw [Guarded.bind, h]

/-- So many opening parentheses, some levels down. -/
def Cursor.opened (parens depth : Nat) : Cursor :=
  ⟨List.replicate parens ⟨.openParen, "(", ⟨0, 1⟩⟩ ++ [.ending 1], .ending 1, depth, rfl⟩

/-- Parentheses that are within the deepest level hold one expression more than there are of
    them. -/
theorem Guarded.expression_opened {parens depth : Nat} (h : depth + parens ≤ maxDepth) :
    Guarded.expression false parens (.opened parens depth) = .error .tooNested := by
  induction parens generalizing depth with
  | zero => rfl
  | succ parens ih =>
    have hinner := @ih (depth + 1) (by omega)
    have henter : free (Reader.enter ⟨0, 1⟩) (.opened parens depth) =
        .ok (.ok () (.opened parens (depth + 1))) :=
      congrArg Except.ok (if_neg (by simp only [Cursor.opened]; omega))
    have hoperand : Guarded.operand false (Guarded.expression false parens)
        (.opened (parens + 1) depth) = .error .tooNested := by
      calc Guarded.operand false (Guarded.expression false parens) (.opened (parens + 1) depth)
          = operatorThen false (closeGroup false (Guarded.expression false parens))
              (.opened (parens + 1) depth) := rfl
        _ = (do free (Reader.enter ⟨0, 1⟩); closeGroup false (Guarded.expression false parens))
              (.opened parens depth) := rfl
        _ = closeGroup false (Guarded.expression false parens) (.opened parens (depth + 1)) :=
          bind_of_ok henter _
        _ = .error .tooNested := bind_breach hinner _
    exact bind_breach (bind_breach (bind_breach hoperand _) _) _

/-- Reading an expression calls for no more than `maxDepth - c.depth + 1` expressions inside one
    another, itself included: with that many allowed and no more, it does to every cursor what it
    does with no bound at all. With one fewer allowed there are cursors at every depth that it
    does not get through. -/
theorem Phrase.expression_nesting_bounded :
    expression = assignment expression ∧
      (∀ c : Cursor, Guarded.expression false (maxDepth - c.depth + 1) c =
        .ok (expression.run c)) ∧
      ∀ depth, ∃ c : Cursor, c.depth = depth ∧
        Guarded.expression false (maxDepth - depth) c = .error .tooNested := by
  refine ⟨expression_eq_assignment, fun c => ?_, fun depth => ?_⟩
  · have hsafe : Guarded.Safe false c.depth c.queue.length c :=
      ⟨nofun, Nat.le_refl _, Nat.le_refl _⟩
    exact Guarded.agrees_expression (Nat.succ_pos _) (by omega) c hsafe
  · refine ⟨.opened (maxDepth - depth) depth, rfl, ?_⟩
    rcases Nat.le_total depth maxDepth with h | h
    · exact Guarded.expression_opened (by omega)
    · rw [Nat.sub_eq_zero_of_le h]
      rfl

end Quill
