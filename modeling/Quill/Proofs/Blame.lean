import Quill.Diagnostic
import Quill.Proofs.Placement
import Quill.Proofs.Printing
import Quill.Proofs.Refusal
import Quill.Proofs.Viable

/-!
# What faults point at

The span of a fault lies within the source, and what stands there is what the fault is about: the
character that cannot be scanned, the token at which reading stops, or the operation that is
refused.

* `Token.exists_foreign_of_scan`: scanning stops at a character that starts no token.
* `Token.Faulty.aimed`, `Fault.aimed_of_valueMissing`: faults of reading point at tokens.
* `Program.FailsAt.locates`: faults of evaluation point at the operation that is refused.
* `Script.faults_point_at_their_text`: the statement about all faults.
-/

namespace Quill

/-! ## Operations -/

/-- What stands in the span of a fault when an operation is refused: a name that is looked up, an
    assignment from its name on, a declaration from its word to its semicolon, and all of what
    cannot be assigned to, from one of its leaves to another. -/
def Attempt.Shows (text : List Char) : Attempt → Prop
  | .lookup symbol => text = symbol.toList
  | .assignment symbol => ∃ rest, text = symbol.toList ++ rest
  | .declaration _ constant =>
    ∃ between, text = (Statement.opener constant).toList ++ between ++ ";".toList
  | .target e => Expr.Framed e.leaves text

/-- A fault points at an operation that is written in a text. -/
structure Attempt.Locates (cs : List Char) (attempt : Attempt) (fault : Fault) : Prop where
  within : fault.problem.span.Within cs.length
  shows : attempt.Shows (fault.problem.span.slice cs)

section Operations

variable {cs : List Char} {c : Nat} {h : Heap} {attempt : Attempt} {fault : Fault}

theorem Expr.FailsAt.locates {e : Expr} (hfails : e.FailsAt c h attempt fault)
    (he : e.Written cs) : attempt.Locates cs fault := by
  induction hfails with
  | lookup => exact ⟨he.1, he.2⟩
  | left _ ih => exact ih he.1
  | right _ _ ih => exact ih he.2.1
  | value _ ih => exact ih he.2.1
  | @assignment symbol place =>
    have hwithin := he.within
    obtain ⟨htarget, hvalue, hle, rfl⟩ := he
    obtain ⟨between, hslice⟩ := htarget.slice_hull hvalue hle
    have hname : (Expr.name symbol place).span.slice cs = symbol.toList := htarget.2
    rw [hname, List.append_assoc] at hslice
    exact ⟨hwithin, _, hslice⟩
  | target => exact ⟨he.1.within, he.1.framed⟩

theorem Statement.FailsAt.locates {st : Statement} (hfails : st.FailsAt c h attempt fault)
    (hst : st.Written cs) : attempt.Locates cs fault := by
  cases hfails with
  | expression he => exact he.locates hst
  | value he => exact he.locates (hst.1 _ rfl)
  | declaration => exact ⟨hst.2.1, hst.2.2⟩

/-- Faults of evaluation point at the operation that is refused. -/
theorem Program.FailsAt.locates {p : Program} (hfails : p.FailsAt c h attempt fault)
    (hp : ∀ st ∈ p, st.Written cs) : attempt.Locates cs fault := by
  induction hfails with
  | here hst => exact hst.locates (hp _ List.mem_cons_self)
  | later _ _ ih => exact ih fun st hst => hp st (List.mem_cons_of_mem _ hst)

end Operations

/-! ## Faults -/

namespace Script

/-- Reading a source stops at a token with a fault. -/
def StopsAt (source : String) (t : Token) (fault : Fault) : Prop :=
  ∃ taken rest, Token.ofSource source = .ok (taken ++ t :: rest) ∧ StuckProgram 0 taken t fault

/-- Running a source in scope `c` of a heap fails because an operation is refused. -/
def RefusedAt (source : String) (c : Nat) (h : Heap) (attempt : Attempt) (fault : Fault) : Prop :=
  ∃ p, Program.ofSource source = .ok p ∧ p.FailsAt c h attempt fault

end Script

/-- A character that starts no token. -/
def Token.Foreign (letter : Char → Bool) (c : Char) : Prop :=
  markKind? c = none ∧ isSpacing c = false ∧ c.isDigit = false ∧ letter c = false

namespace Fault

/-- The token that was found in the place of another is the end of the source. -/
def AtEnd : Fault → Prop
  | .unexpected _ found | .noOperand found => found.kind = .endOfFile
  | _ => False

open Script in
/-- A text is what a fault of a source is about. -/
def PointsAt (source : String) (c : Nat) (h : Heap) (text : List Char) (fault : Fault) : Prop :=
  match fault with
  | .foreignCharacter character _ =>
    Token.Foreign Text.isCased character ∧ text = [character]
  | .unexpected _ found | .noOperand found =>
    -- an end token has a text, but nothing of it stands in the source
    StopsAt source found fault ∧ (found.kind ≠ .endOfFile → text = found.text.toList)
  | .tooDeep _ =>
    ∃ t, StopsAt source t fault ∧
      (t.kind = .openParen ∨ t.kind = .equals ∨ t.kind = .operator) ∧ text = t.text.toList
  | .valueMissing _ _ => ∃ between, text = "const".toList ++ between ++ ";".toList
  -- the digits of a source can always be read
  | .badNumber _ _ => False
  | .binding _ _ | .badTarget _ =>
    (∃ attempt, RefusedAt source c h attempt fault) ∧
      ∀ attempt, RefusedAt source c h attempt fault → attempt.Raises fault ∧ attempt.Shows text

/-- A fault points at a text within its source, or at the end of the source if it is found there. -/
structure Aimed (source : String) (c : Nat) (h : Heap) (fault : Fault) : Prop where
  span : (fault.AtEnd ∧ fault.problem.span = .point source.length) ∨
    (¬fault.AtEnd ∧ fault.problem.span.Within source.length)
  points : fault.PointsAt source c h (fault.problem.span.slice source.toList)

end Fault

/-! ## Scanning -/

/-- A fault is about a foreign character of a text that begins at an offset. -/
def Fault.IsForeign (letter : Char → Bool) (start : Nat) (cs : List Char) (fault : Fault) : Prop :=
  ∃ before character after, cs = before ++ character :: after ∧
    fault = .foreignCharacter character (start + before.length) ∧ Token.Foreign letter character

theorem Fault.IsForeign.append {letter : Char → Bool} {start : Nat} {cs : List Char}
    {fault : Fault} (v : List Char) (hforeign : fault.IsForeign letter (start + v.length) cs) :
    fault.IsForeign letter start (v ++ cs) := by
  obtain ⟨before, character, after, rfl, rfl, hcharacter⟩ := hforeign
  refine ⟨v ++ before, character, after, (List.append_assoc _ _ _).symm, ?_, hcharacter⟩
  rw [List.length_append, Nat.add_assoc]

/-- Scanning stops at a character that starts no token. -/
theorem Token.exists_foreign_of_scan {letter : Char → Bool} {start : Nat} {cs : List Char}
    {fault : Fault} (hscan : (scanFrom letter start cs).fault = some fault) :
    fault.IsForeign letter start cs := by
  fun_induction scanFrom letter start cs with
  | case1 => cases hscan
  | case2 start character rest kind hkind ih => exact (ih hscan).append [character]
  | case3 start character rest hkind hspacing ih => exact (ih hscan).append [character]
  | case4 start character rest hkind hspacing hdigit lexeme ih =>
    have hforeign := Fault.IsForeign.append lexeme (ih hscan)
    rwa [List.cons_append, List.takeWhile_append_dropWhile] at hforeign
  | case5 start character rest hkind hspacing hdigit hletter lexeme ih =>
    have hforeign := Fault.IsForeign.append lexeme (ih hscan)
    rwa [List.cons_append, List.takeWhile_append_dropWhile] at hforeign
  | case6 start character rest hkind hspacing hdigit hletter =>
    obtain rfl : Fault.foreignCharacter character start = fault := Option.some.inj hscan
    refine ⟨[], character, rest, rfl, rfl, hkind, ?_, ?_, ?_⟩
    · simpa using hspacing
    · simpa using hdigit
    · simpa using hletter

theorem Fault.aimed_of_scan {source : String} {c : Nat} {h : Heap} {fault : Fault}
    (hscan : Token.ofSource source = .error fault) : fault.Aimed source c h := by
  obtain ⟨tokens, hfault⟩ := (Token.ofSource_eq_error_iff _ _).mp hscan
  obtain ⟨before, character, after, hsource, rfl, hforeign⟩ :=
    Token.exists_foreign_of_scan (congrArg Token.Scanned.fault hfault)
  rw [Nat.zero_add]
  constructor
  · have hlength := congrArg List.length hsource
    rw [String.length_toList, List.length_append, List.length_cons] at hlength
    exact .inr ⟨not_false, show before.length < before.length + 1 by omega,
      show before.length + 1 ≤ source.length by omega⟩
  · refine ⟨hforeign, ?_⟩
    rw [hsource]
    exact Span.slice_append before [character] after

/-! ## Reading -/

section Reading

variable {source : String} {c : Nat} {h : Heap} {fault : Fault} {taken rest : List Token}
  {t : Token}

/-- A token of a source is its end or stands in it. -/
theorem Token.eq_ending_or_stands {tokens : List Token} (hscan : Token.ofSource source = .ok tokens)
    (ht : t ∈ tokens) : t = Token.ending source.length ∨ t.Stands source.toList := by
  obtain ⟨row, rfl, -, hrow⟩ := Token.exists_row_of_ofSource hscan
  rcases List.mem_append.mp ht with ht | ht
  · exact .inr (hrow.stands_of_mem ht)
  · exact .inl (List.mem_singleton.mp ht)

theorem Token.stands_of_kind {tokens : List Token} {kind : Token.Kind}
    (hscan : Token.ofSource source = .ok tokens) (ht : t ∈ tokens) (hk : t.kind = kind)
    (hne : kind ≠ .endOfFile) : t.Stands source.toList := by
  rcases Token.eq_ending_or_stands hscan ht with rfl | hstands
  · exact absurd hk.symm hne
  · exact hstands

theorem Token.Stands.within_source (hstands : t.Stands source.toList) :
    t.span.Within source.length := by
  rw [← String.length_toList]
  exact hstands.within

/-- A fault about a found token points at it. -/
theorem Fault.aimed_of_found (hscan : Token.ofSource source = .ok (taken ++ t :: rest))
    (hstuck : StuckProgram 0 taken t fault)
    (hfound : fault = .noOperand t ∨ ∃ wanted, fault = .unexpected wanted t) :
    fault.Aimed source c h := by
  have hspan : (fault.AtEnd ↔ t.kind = .endOfFile) ∧ fault.problem.span = t.span := by
    rcases hfound with rfl | ⟨wanted, rfl⟩
    · exact ⟨Iff.rfl, rfl⟩
    · exact ⟨Iff.rfl, rfl⟩
  have hmem : t ∈ taken ++ t :: rest := by simp
  have ht := Token.eq_ending_or_stands hscan hmem
  constructor
  · rw [hspan.1, hspan.2]
    rcases ht with rfl | hstands
    · exact .inl ⟨rfl, rfl⟩
    · exact .inr ⟨hstands.kind_ne, hstands.within_source⟩
  · rw [hspan.2]
    have htext : t.kind ≠ .endOfFile → t.span.slice source.toList = t.text.toList := by
      intro hk
      exact (ht.resolve_left fun hending => hk (by rw [hending]; rfl)).slice_eq
    have hstops : Script.StopsAt source t fault := ⟨taken, rest, hscan, hstuck⟩
    rcases hfound with rfl | ⟨wanted, rfl⟩
    · exact ⟨hstops, htext⟩
    · exact ⟨hstops, htext⟩

/-- A fault about a token points at it. -/
theorem Token.Faulty.aimed (hfaulty : t.Faulty fault)
    (hscan : Token.ofSource source = .ok (taken ++ t :: rest))
    (hstuck : StuckProgram 0 taken t fault) : fault.Aimed source c h := by
  have hmem : t ∈ taken ++ t :: rest := by simp
  cases hfaulty with
  | noOperand => exact Fault.aimed_of_found hscan hstuck (.inl rfl)
  | unexpected wanted => exact Fault.aimed_of_found hscan hstuck (.inr ⟨wanted, rfl⟩)
  | badNumber hk hread =>
    have hspells := (Token.stands_of_kind hscan hmem hk (by decide)).spells
    rw [hk] at hspells
    obtain ⟨x, hx⟩ := Number.exists_read?_eq_some hspells
    rw [hx] at hread
    cases hread
  | tooDeep hk =>
    have hstands : t.Stands source.toList := by
      rcases hk with hk | hk | hk
      · exact Token.stands_of_kind hscan hmem hk (by decide)
      · exact Token.stands_of_kind hscan hmem hk (by decide)
      · exact Token.stands_of_kind hscan hmem hk (by decide)
    exact ⟨.inr ⟨not_false, hstands.within_source⟩, t, ⟨taken, rest, hscan, hstuck⟩, hk,
      hstands.slice_eq⟩

/-- A fault about a constant without a value points at its declaration. -/
theorem Fault.aimed_of_valueMissing {tokens : List Token} {k : Nat}
    (hscan : Token.ofSource source = .ok tokens) (ht : tokens[k]? = some t)
    (hmissing : ValueMissing tokens k t fault) : fault.Aimed source c h := by
  obtain ⟨hsemicolon, i, word, name, rfl, hword, hconst, -, -, rfl⟩ := hmissing
  have hw := Token.stands_of_kind hscan (List.mem_of_getElem? hword) hconst (by decide)
  have hs := Token.stands_of_kind hscan (List.mem_of_getElem? ht) hsemicolon (by decide)
  have hle := (Token.ordered_of_ofSource hscan).stop_le_start (by omega) hword ht
  obtain ⟨hwithin, hslice⟩ : (word.span.hull t.span).Encloses source.toList "const" ";" :=
    hw.encloses_declaration true hs hle hconst hsemicolon
  rw [String.length_toList] at hwithin
  exact ⟨.inr ⟨not_false, hwithin⟩, hslice⟩

theorem Fault.aimed_of_read {tokens : List Token} (hscan : Token.ofSource source = .ok tokens)
    (hread : Program.ofTokens tokens = .error fault) : fault.Aimed source c h := by
  obtain ⟨taken, t, rest, rfl, hstuck⟩ :=
    StuckProgram.of_ofTokens_eq_error (Closed.of_ofSource hscan) hread
  rcases hstuck.faulty rest with hfaulty | hmissing
  · exact hfaulty.aimed hscan hstuck
  · exact Fault.aimed_of_valueMissing hscan (by simp) hmissing

end Reading

/-! ## Running -/

section Running

variable {source : String} {c : Nat} {h : Heap} {attempt : Attempt} {fault : Fault}

theorem Script.RefusedAt.locates (hrefused : RefusedAt source c h attempt fault) :
    attempt.Locates source.toList fault := by
  obtain ⟨p, hread, hfails⟩ := hrefused
  exact hfails.locates (Program.written_of_ofSource hread)

theorem Script.RefusedAt.raises (hc : c < h.scopes.length)
    (hrefused : RefusedAt source c h attempt fault) : attempt.Raises fault := by
  obtain ⟨p, -, hfails⟩ := hrefused
  exact hfails.raises hc

/-- Operations are refused with faults of evaluation. -/
theorem Attempt.Raises.eq_binding_or_eq_badTarget (hraises : attempt.Raises fault) :
    (∃ cause span, fault = .binding cause span) ∨ ∃ span, fault = .badTarget span := by
  match attempt, hraises with
  | .lookup symbol, ⟨span, hfault⟩ => exact .inl ⟨_, span, hfault⟩
  | .assignment symbol, ⟨span, .inl hfault⟩ => exact .inl ⟨_, span, hfault⟩
  | .assignment symbol, ⟨span, .inr hfault⟩ => exact .inl ⟨_, span, hfault⟩
  | .declaration symbol constant, ⟨span, hfault⟩ => exact .inl ⟨_, span, hfault⟩
  | .target e, hfault => exact .inr ⟨_, hfault⟩

/-- A fault of evaluation points at what is refused. -/
theorem Fault.aimed_of_refused (hc : c < h.scopes.length)
    (hrefused : Script.RefusedAt source c h attempt fault) : fault.Aimed source c h := by
  have hwithin := hrefused.locates.within
  rw [String.length_toList] at hwithin
  have hshows : ∀ attempt, Script.RefusedAt source c h attempt fault →
      attempt.Raises fault ∧ attempt.Shows (fault.problem.span.slice source.toList) :=
    fun _ hr => ⟨hr.raises hc, hr.locates.shows⟩
  rcases (hrefused.raises hc).eq_binding_or_eq_badTarget with ⟨cause, span, rfl⟩ | ⟨span, rfl⟩
  · exact ⟨.inr ⟨not_false, hwithin⟩, ⟨attempt, hrefused⟩, hshows⟩
  · exact ⟨.inr ⟨not_false, hwithin⟩, ⟨attempt, hrefused⟩, hshows⟩

end Running

/-! ## All faults -/

/-- Clamping leaves a problem alone whose span lies within its source. -/
theorem Problem.clamped_eq_self {p : Problem} {source : String} (hle : p.span.start ≤ p.span.stop)
    (hstop : p.span.stop ≤ source.length) : p.clamped source = p := by
  obtain ⟨category, ⟨start, stop⟩, message, help⟩ := p
  have hstart : min start source.length = start := Nat.min_eq_left (Nat.le_trans hle hstop)
  have hmax : max stop start = stop := Nat.max_eq_left hle
  have hmin : min stop source.length = stop := Nat.min_eq_left hstop
  unfold clamped
  dsimp only
  rw [hstart, hmax, hmin]

namespace Script

/-- Every fault of executing a text points somewhere in it. -/
theorem aimed_of_execute {listing : Listing} {source : String} {c : Nat} {h : Heap} {fault : Fault}
    (hc : c < h.scopes.length) (hfault : (execute listing source c h).result = .error fault) :
    fault.Aimed source c h := by
  have hverdict := congrArg Prod.fst (verdict_execute listing source c h)
  dsimp only [Outcome.verdict] at hverdict
  rw [hfault] at hverdict
  cases hread : Program.ofSource source with
  | ok p =>
    rw [hread] at hverdict
    obtain ⟨attempt, hfails⟩ := (p.evalFrom_eq_error_iff .null h fault).mp hverdict.symm
    exact Fault.aimed_of_refused hc ⟨p, hread, hfails⟩
  | error fault' =>
    rw [hread] at hverdict
    obtain rfl : fault = fault' := Except.error.inj hverdict
    unfold Program.ofSource at hread
    cases hscan : Token.ofSource source with
    | error fault' =>
      rw [hscan] at hread
      obtain rfl : fault' = fault := Except.error.inj hread
      exact Fault.aimed_of_scan hscan
    | ok tokens =>
      rw [hscan] at hread
      exact Fault.aimed_of_read hscan hread

/-- When executing a text in a scope of a heap fails, the span of the fault lies within the text, so
    that clamping it changes nothing. It is empty only if the fault is found at the end of the text,
    and then it is that end. What stands in it is what the fault is about. -/
theorem faults_point_at_their_text (listing : Listing) (source : String) (c : Nat) (h : Heap)
    (fault : Fault) (hc : c < h.scopes.length)
    (hfault : (execute listing source c h).result = .error fault) :
    (fault.problem.span.start ≤ fault.problem.span.stop ∧
      fault.problem.span.stop ≤ source.length) ∧
    fault.problem.clamped source = fault.problem ∧
    (fault.AtEnd → fault.problem.span = ⟨source.length, source.length⟩) ∧
    (¬fault.AtEnd → fault.problem.span.start < fault.problem.span.stop) ∧
    fault.PointsAt source c h (fault.problem.span.slice source.toList) := by
  obtain ⟨hspan, hpoints⟩ := aimed_of_execute hc hfault
  have hbounds : fault.problem.span.start ≤ fault.problem.span.stop ∧
      fault.problem.span.stop ≤ source.length := by
    rcases hspan with ⟨-, hend⟩ | ⟨-, hwithin⟩
    · rw [hend]
      exact ⟨Nat.le_refl _, Nat.le_refl _⟩
    · exact ⟨Nat.le_of_lt hwithin.start_lt, hwithin.stop_le⟩
  refine ⟨hbounds, Problem.clamped_eq_self hbounds.1 hbounds.2, ?_, ?_, hpoints⟩
  · intro hatEnd
    rcases hspan with ⟨-, hend⟩ | ⟨hnot, -⟩
    · exact hend
    · exact absurd hatEnd hnot
  · intro hnot
    rcases hspan with ⟨hatEnd, -⟩ | ⟨-, hwithin⟩
    · exact absurd hatEnd hnot
    · exact hwithin.start_lt

theorem ofSource_true_is_null : Program.ofSource "true = null" =
    .ok [.expression (.assign (.name "true" ⟨0, 4⟩) (.name "null" ⟨7, 11⟩) ⟨0, 11⟩) ⟨0, 11⟩] := by
  have hscan : Token.ofSource "true = null" = .ok [⟨.identifier, "true", ⟨0, 4⟩⟩,
      ⟨.equals, "=", ⟨5, 6⟩⟩, ⟨.identifier, "null", ⟨7, 11⟩⟩, Token.ending 11] :=
    (Token.ofSource_eq_ok_iff _ _).mpr (by decide +kernel)
  refine (Program.ofSource_eq_ok_iff _ _).mpr ⟨_, [.express (.assign
    (.chain (.chain (.name ⟨⟨.identifier, "true", ⟨0, 4⟩⟩, rfl⟩) .nil) .nil)
    ⟨⟨.equals, "=", ⟨5, 6⟩⟩, rfl⟩
    (.sum (.chain (.chain (.name ⟨⟨.identifier, "null", ⟨7, 11⟩⟩, rfl⟩) .nil) .nil))) none], hscan,
    rfl, ?_, rfl⟩
  intro s hs
  rw [List.mem_singleton.mp hs]
  exact Sentence.fits_express.mpr (.inr (by decide))

/-- Assigning to a constant fails, and the fault points at the assignment. -/
theorem true_is_null_points_at_assignment :
    0 < Heap.initial.scopes.length ∧
      (execute ⟨false, false⟩ "true = null" 0 .initial).result =
        .error (.binding (.constant "true") ⟨0, 11⟩) ∧
      (Fault.binding (.constant "true") ⟨0, 11⟩).PointsAt "true = null" 0 .initial
        "true = null".toList := by
  have hc : 0 < Heap.initial.scopes.length := by decide
  have hvalue : ((Expr.name "null" ⟨7, 11⟩).eval 0 .initial).result = .ok .null := by
    rw [Expr.eval, Heap.lookup]
    rfl
  have hassign : (Heap.initial.assign 0 "true" .null).result = .error (.constant "true") := by
    rw [Heap.assign]
    rfl
  have hfault : (execute ⟨false, false⟩ "true = null" 0 .initial).result =
      .error (.binding (.constant "true") ⟨0, 11⟩) := by
    have hresult : (execute ⟨false, false⟩ "true = null" 0 .initial).result = _ :=
      congrArg Prod.fst (verdict_of_ok ofSource_true_is_null ⟨false, false⟩ 0 .initial)
    rw [hresult]
    exact (Program.evalFrom_eq_error_iff _ _ _ _).mpr
      ⟨_, .here (.expression (.assignment hvalue hassign))⟩
  obtain ⟨-, -, -, -, hpoints⟩ := faults_point_at_their_text _ _ _ _ _ hc hfault
  have hslice : Span.slice ⟨0, 11⟩ "true = null".toList = "true = null".toList := by decide
  refine ⟨hc, hfault, ?_⟩
  rw [← hslice]
  exact hpoints

end Script

end Quill
