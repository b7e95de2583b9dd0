import Quill.Diagnostic
import Quill.Dialogue
import Quill.Proofs.Effects
import Quill.Proofs.Shifting

/-!
# Joined texts

Two texts with a gap between them run as they do one after the other. So a dialogue and a script of
the same lines agree up to the first line that fails.

* `Program.mapError_evalFrom_shift`: a program further on runs as it does where it is, except that
  its problems are further on.
* `Script.verdict_joined`: a text that reads as two others runs as these do in turn.
* `Dialogue.replies_eq`: the answers of a dialogue, each in the heap that the texts before it left.
* `joined_texts_run_in_turn`: the statements about texts and dialogues.
-/

namespace Quill

/-! ## Runs further on -/

/-- A problem further on. -/
def Problem.shift (k : Nat) (p : Problem) : Problem := { p with span := p.span.shift k }

section Shift

variable (k c : Nat)

theorem Expr.mapError_eval_shift (e : Expr) (h : Heap) :
    ((e.shift k).eval c h).mapError Fault.problem =
      (e.eval c h).mapError fun fault => fault.problem.shift k := by
  fun_induction Expr.eval c e h with
  | case1 => rfl
  | case2 symbol span h =>
    rw [Expr.shift, Expr.eval]
    unfold Outcome.mapError
    cases h.lookup c symbol <;> rfl
  | case3 left op right span h ihleft ihright =>
    have hcombine : ∀ a b h, (op.combine a b h).mapError Fault.problem =
        (op.combine a b h).mapError fun fault => fault.problem.shift k := by
      intro a b h
      unfold Operator.combine
      split <;> rfl
    rw [Expr.shift, Expr.eval, Outcome.mapError_andThen, Outcome.mapError_andThen, ihleft]
    simp only [Outcome.mapError_andThen, ihright, hcombine]
  | case4 symbol _ value span h ih =>
    rw [Expr.shift, Expr.shift, Expr.eval, Outcome.mapError_andThen, Outcome.mapError_andThen, ih]
    simp only [Outcome.mapError_mapError]
    rfl
  | case5 target value span h hname =>
    cases target with
    | name symbol span => exact (hname symbol span rfl).elim
    | assign | binary | number => rfl

theorem Statement.mapError_eval_shift (st : Statement) (h : Heap) :
    ((st.shift k).eval c h).mapError Fault.problem =
      (st.eval c h).mapError fun fault => fault.problem.shift k := by
  match st with
  | .expression e _ => exact e.mapError_eval_shift k c h
  | .declare name constant value span =>
    have hdeclare : ∀ (v : Value) (h : Heap), ((h.declare c name v constant).mapError
          (Fault.binding · (span.shift k))).mapError Fault.problem =
        ((h.declare c name v constant).mapError (Fault.binding · span)).mapError
          fun fault => fault.problem.shift k := by
      intro v h
      rw [Outcome.mapError_mapError, Outcome.mapError_mapError]
      rfl
    cases value with
    | none =>
      rw [Statement.shift, Option.map_none, Statement.eval, Statement.eval,
        Outcome.mapError_andThen, Outcome.mapError_andThen]
      simp only [hdeclare]
      rfl
    | some e =>
      rw [Statement.shift, Option.map_some, Statement.eval, Statement.eval,
        Outcome.mapError_andThen, Outcome.mapError_andThen, e.mapError_eval_shift]
      simp only [hdeclare]

/-- A program further on runs as it does where it is, except that its problems are further on. -/
theorem Program.mapError_evalFrom_shift (p : Program) (last : Value) (h : Heap) :
    (evalFrom c (p.map (Statement.shift k)) last h).mapError Fault.problem =
      (p.evalFrom c last h).mapError fun fault => fault.problem.shift k := by
  induction p generalizing last h with
  | nil => rfl
  | cons st p ih =>
    rw [List.map_cons, evalFrom, evalFrom, Outcome.mapError_andThen, Outcome.mapError_andThen,
      st.mapError_eval_shift]
    simp only [ih]

end Shift

/-- The value before a program counts only if the program has no statement. -/
theorem Program.evalFrom_eq (p : Program) (c : Nat) (last : Value) (h : Heap) :
    p.evalFrom c last h = (p.evalFrom c .null h).andThen fun v h =>
      .done (if p.isEmpty then last else v) h := by
  cases p with
  | nil => rfl
  | cons st p => exact (Outcome.andThen_done _).symm

theorem Program.mapError_evalFrom_joined (p₁ p₂ : Program) (k c : Nat) (h : Heap) :
    (evalFrom c (p₁ ++ p₂.map (Statement.shift k)) .null h).mapError Fault.problem =
      ((p₁.evalFrom c .null h).mapError Fault.problem).andThen fun v h =>
        ((p₂.evalFrom c .null h).mapError fun fault => fault.problem.shift k).andThen fun v' h =>
          .done (if p₂.isEmpty then v else v') h := by
  rw [evalFrom_append, Outcome.mapError_andThen]
  congr 1
  funext v h
  rw [mapError_evalFrom_shift, p₂.evalFrom_eq c v, Outcome.mapError_andThen]
  rfl

/-! ## Texts in turn -/

namespace Script

/-- Whether a text is a program with a statement. -/
def hasStatement (source : String) : Bool :=
  match Program.ofSource source with
  | .ok (_ :: _) => true
  | _ => false

theorem hasStatement_eq {source : String} {p : Program} (h : Program.ofSource source = .ok p) :
    hasStatement source = !p.isEmpty := by
  rw [hasStatement, h]
  cases p <;> rfl

/-- Executes a text and, if that succeeded, another one in the heap it left. The problems of the
    second are told `k` characters further on. The value is that of the second, unless it has no
    statement. -/
def inTurn (listing : Listing) (k : Nat) (source₁ source₂ : String) (c : Nat) (h : Heap) :
    Except Problem Value × Heap :=
  let first := execute listing source₁ c h
  match first.result with
  | .error fault => (.error fault.problem, first.heap)
  | .ok v =>
    let second := execute listing source₂ c first.heap
    match second.result with
    | .error fault => (.error (fault.problem.shift k), second.heap)
    | .ok v' => (.ok (if hasStatement source₂ then v' else v), second.heap)

section InTurn

variable {listing : Listing} {source₁ : String} {c : Nat} {h : Heap}

theorem inTurn_of_error {fault : Fault} (k : Nat) (source₂ : String)
    (h₁ : (execute listing source₁ c h).result = .error fault) :
    inTurn listing k source₁ source₂ c h =
      (.error fault.problem, (execute listing source₁ c h).heap) := by
  unfold inTurn
  dsimp only
  rw [h₁]

theorem heap_inTurn_of_ok {v : Value} (k : Nat) (source₂ : String)
    (h₁ : (execute listing source₁ c h).result = .ok v) :
    (inTurn listing k source₁ source₂ c h).2 =
      (execute listing source₂ c (execute listing source₁ c h).heap).heap := by
  unfold inTurn
  dsimp only
  rw [h₁]
  dsimp only
  split <;> rfl

end InTurn

/-- A text that reads as two others, the second of them further on, runs as these do in turn. -/
theorem verdict_joined {source source₁ source₂ : String} {k : Nat} {p₁ p₂ : Program}
    (h₁ : Program.ofSource source₁ = .ok p₁) (h₂ : Program.ofSource source₂ = .ok p₂)
    (hsource : Program.ofSource source = .ok (p₁ ++ p₂.map (Statement.shift k)))
    (listing : Listing) (c : Nat) (h : Heap) :
    ((execute listing source c h).mapError Fault.problem).verdict =
      inTurn listing k source₁ source₂ c h := by
  obtain ⟨hresult₁, hheap₁⟩ := Prod.mk.inj (verdict_of_ok h₁ listing c h)
  obtain ⟨hresult₂, hheap₂⟩ :=
    Prod.mk.inj (verdict_of_ok h₂ listing c (p₁.evalFrom c .null h).heap)
  rw [Outcome.verdict_mapError, verdict_of_ok hsource, ← Outcome.verdict_mapError,
    Program.mapError_evalFrom_joined, Outcome.verdict_andThen]
  unfold inTurn
  dsimp only
  rw [hresult₁, hheap₁, hresult₂, hheap₂, hasStatement_eq h₂]
  dsimp only [Outcome.mapError]
  cases (p₁.evalFrom c .null h).result with
  | error fault => rfl
  | ok v =>
    dsimp only [Except.mapError]
    rw [Outcome.verdict_andThen]
    cases (p₂.evalFrom c .null (p₁.evalFrom c .null h).heap).result with
    | error fault => rfl
    | ok v' => cases p₂ <;> rfl

end Script

/-! ## Texts line by line -/

/-- The script that has each of some texts on lines of its own. -/
def Script.ofTexts (gap : Gap) (texts : List String) : String :=
  texts.foldl (fun script text => script ++ text ++ gap.text) ""

namespace Script

variable (gap : Gap)

theorem ofTexts_concat (texts : List String) (text : String) :
    ofTexts gap (texts ++ [text]) = ofTexts gap texts ++ text ++ gap.text := by
  rw [ofTexts, List.foldl_append]
  rfl

theorem leads_ofTexts {texts : List String}
    (h : ∀ text ∈ texts, ∃ p, Program.ofSource text = .ok p) :
    ∃ p, Program.Leads (ofTexts gap texts) p := by
  -- the induction is over the texts that are still to come, whatever stands before them
  suffices hfold : ∀ source p, Program.Leads source p →
      ∃ p', Program.Leads (texts.foldl (fun script text => script ++ text ++ gap.text) source) p' by
    exact hfold "" [] Program.leads_empty
  induction texts with
  | nil => exact fun source p hleads => ⟨p, hleads⟩
  | cons text texts ih =>
    intro source p hleads
    obtain ⟨p', hp'⟩ := h text List.mem_cons_self
    exact ih (fun t ht => h t (List.mem_cons_of_mem _ ht)) _ _ (hleads.append gap hp')

theorem verdict_ofTexts_concat {texts : List String} {text : String}
    (h : ∀ text' ∈ texts ++ [text], ∃ p, Program.ofSource text' = .ok p) (listing : Listing)
    (c : Nat) (heap : Heap) :
    ((execute listing (ofTexts gap (texts ++ [text])) c heap).mapError Fault.problem).verdict =
      inTurn listing (ofTexts gap texts).length (ofTexts gap texts) text c heap := by
  obtain ⟨p, hp⟩ := leads_ofTexts gap fun text' hmem => h text' (List.mem_append_left _ hmem)
  obtain ⟨p', hp'⟩ := h text (List.mem_append_right _ List.mem_cons_self)
  rw [ofTexts_concat]
  exact verdict_joined hp.ofSource hp' (hp.append gap hp').ofSource listing c heap

end Script

/-! ## Dialogues -/

namespace Text

theorem isBlank_of_mem_spacing {c : Char} (h : c ∈ " \t\n\r".toList) : isBlank c = true := by
  have hall : ∀ c ∈ " \t\n\r".toList, isBlank c = true := Token.forall_mem_of_all (by decide)
  exact hall c h

/-- What trimming leaves begins with a character that is not blank. -/
theorem not_isBlank_head_trim (cs : List Char) : ∀ d ∈ (trim cs).head?, isBlank d = false := by
  intro d hd
  have hsuffix := List.dropWhile_suffix isBlank (l := (cs.dropWhile isBlank).reverse)
  have htrim : trim cs <+: cs.dropWhile isBlank := by
    have hreverse := List.reverse_prefix.mpr hsuffix
    rwa [List.reverse_reverse] at hreverse
  obtain ⟨rest, hrest⟩ := htrim
  refine Token.head?_dropWhile_eq_false isBlank cs d ?_
  rw [← hrest, List.head?_append, Option.mem_def.mp hd]
  rfl

end Text

namespace Dialogue

/-- The texts of the lines that a dialogue answers. -/
def heard : List (Option String) → List String
  | [] => []
  | none :: _ => []
  | some line :: rest => if leaves (textOf line) then [] else textOf line :: heard rest

variable (report : Reporter)

/-- The heap after some texts have been answered. -/
def heapAfter (listing : Listing) (h : Heap) (texts : List String) : Heap :=
  texts.foldl (fun h text => (reply report listing h text).heap) h

theorem heapAfter_concat (listing : Listing) (h : Heap) (texts : List String) (text : String) :
    heapAfter report listing h (texts ++ [text]) =
      (reply report listing (heapAfter report listing h texts) text).heap := by
  rw [heapAfter, List.foldl_append]
  rfl

/-- Each text is answered in the heap that the texts before it left. -/
theorem replies_eq (listing : Listing) (h : Heap) (lines : List (Option String)) (n : Nat) :
    (converse report listing h lines).replies[n]? =
      (heard lines)[n]?.map fun text =>
        reply report listing (heapAfter report listing h ((heard lines).take n)) text := by
  induction lines generalizing h n with
  | nil => rfl
  | cons line rest ih =>
    match line with
    | none => rfl
    | some line =>
      unfold converse heard
      by_cases hleaves : leaves (textOf line) = true
      · rw [if_pos hleaves, if_pos hleaves]
        rfl
      · rw [if_neg hleaves, if_neg hleaves]
        cases n with
        | zero => rfl
        | succ n => exact ih _ n

theorem exists_textOf_of_mem_heard {lines : List (Option String)} {text : String}
    (h : text ∈ heard lines) : ∃ line, text = textOf line := by
  induction lines with
  | nil => cases h
  | cons line rest ih =>
    match line with
    | none => cases h
    | some line =>
      unfold heard at h
      split at h
      · cases h
      · rcases List.mem_cons.mp h with rfl | h
        · exact ⟨line, rfl⟩
        · exact ih h

/-- A text is answered in the heap that executing it leaves. -/
theorem heap_reply (listing : Listing) (h : Heap) (text : String) :
    (reply report listing h text).heap = (Script.execute listing text 0 h).heap := by
  unfold reply
  by_cases htext : text = ""
  · rw [if_pos htext, htext]
    exact (congrArg Prod.snd (Script.verdict_of_ok Program.ofSource_empty listing 0 h)).symm
  · rw [if_neg htext]
    dsimp only
    split <;> rfl

/-- The text of a line has a statement unless it is empty. -/
theorem hasStatement_textOf {line : String} {p : Program}
    (h : Program.ofSource (textOf line) = .ok p) :
    Script.hasStatement (textOf line) = true ↔ textOf line ≠ "" := by
  rw [Script.hasStatement_eq h, Bool.not_eq_true', List.isEmpty_eq_false_iff]
  constructor
  · intro hp hempty
    rw [hempty, Program.ofSource_empty] at h
    exact hp (Except.ok.inj h).symm
  · rintro htext rfl
    -- such a text would begin with a space, which trimming removes
    have hspaces := (Program.ofSource_eq_nil_iff _).mp h
    have hlist : (textOf line).toList = Text.trim line.toList := String.toList_ofList
    obtain ⟨c, cs, hcs⟩ := List.exists_cons_of_ne_nil (mt String.toList_eq_nil_iff.mp htext)
    have hblank := Text.isBlank_of_mem_spacing (hspaces c (by rw [hcs]; exact List.mem_cons_self))
    have hnot := Text.not_isBlank_head_trim line.toList c (by rw [← hlist, hcs]; rfl)
    rw [hblank] at hnot
    cases hnot

section Agreement

variable (listing : Listing) (gap : Gap) (h : Heap) (lines : List (Option String))

/-- The script of the first `n` texts of a dialogue, executed in the heap where it starts. -/
def scripted (n : Nat) : Script.Execution :=
  Script.execute listing (Script.ofTexts gap ((heard lines).take n)) 0 h

/-- How a dialogue and scripts of its texts agree at the text number `n`. -/
structure AgreesAt (n : Nat) (text : String) : Prop where
  /-- The script with the text is the one without it and the text in turn. -/
  script : ((scripted listing gap h lines (n + 1)).mapError Fault.problem).verdict =
    Script.inTurn listing (Script.ofTexts gap ((heard lines).take n)).length
      (Script.ofTexts gap ((heard lines).take n)) text 0 h
  /-- The text has a value of its own unless it is empty. -/
  value : Script.hasStatement text = true ↔ text ≠ ""
  /-- If the script without the text succeeds, then the dialogue answers the text in the heap of
      that script and leaves the heap of the script with it. -/
  answer : ∀ v, (scripted listing gap h lines n).result = .ok v →
    (converse report listing h lines).replies[n]? =
        some (reply report listing (scripted listing gap h lines n).heap text) ∧
      (reply report listing (scripted listing gap h lines n).heap text).heap =
        (scripted listing gap h lines (n + 1)).heap

variable {lines} (hlines : ∀ text ∈ heard lines, ∃ p, Program.ofSource text = .ok p)

theorem take_heard_succ {n : Nat} {text : String} (hn : (heard lines)[n]? = some text) :
    (heard lines).take (n + 1) = (heard lines).take n ++ [text] := by
  rw [List.take_add_one, hn]
  rfl

include hlines

theorem verdict_scripted_succ {n : Nat} {text : String} (hn : (heard lines)[n]? = some text) :
    ((scripted listing gap h lines (n + 1)).mapError Fault.problem).verdict =
      Script.inTurn listing (Script.ofTexts gap ((heard lines).take n)).length
        (Script.ofTexts gap ((heard lines).take n)) text 0 h := by
  rw [scripted, take_heard_succ hn]
  refine Script.verdict_ofTexts_concat gap (fun text' hmem => ?_) listing 0 h
  rw [← take_heard_succ hn] at hmem
  exact hlines text' (List.mem_of_mem_take hmem)

/-- As long as the script succeeds, it leaves the heap that the dialogue has by then. -/
theorem heapAfter_eq_scripted {n : Nat} {v : Value}
    (hok : (scripted listing gap h lines n).result = .ok v) :
    heapAfter report listing h ((heard lines).take n) = (scripted listing gap h lines n).heap := by
  induction n generalizing v with
  | zero =>
    have hverdict := Script.verdict_of_ok Program.ofSource_empty listing 0 h
    exact (congrArg Prod.snd hverdict).symm
  | succ n ih =>
    cases hn : (heard lines)[n]? with
    | none =>
      have htake : (heard lines).take (n + 1) = (heard lines).take n := by
        rw [List.take_add_one, hn]
        exact List.append_nil _
      rw [scripted, htake] at hok ⊢
      exact ih hok
    | some text =>
      have hverdict := verdict_scripted_succ listing gap h hlines hn
      cases hbefore : (scripted listing gap h lines n).result with
      | error fault =>
        rw [Script.inTurn_of_error _ text hbefore, Outcome.verdict_mapError, Outcome.verdict,
          hok] at hverdict
        cases congrArg Prod.fst hverdict
      | ok v₁ =>
        have hheap := congrArg Prod.snd hverdict
        rw [Script.heap_inTurn_of_ok _ text hbefore] at hheap
        rw [take_heard_succ hn, heapAfter_concat, heap_reply, ih hbefore]
        exact hheap.symm

theorem agreesAt {n : Nat} {text : String} (hn : (heard lines)[n]? = some text) :
    AgreesAt report listing gap h lines n text := by
  have hmem := List.mem_of_getElem? hn
  obtain ⟨p, hp⟩ := hlines text hmem
  obtain ⟨line, rfl⟩ := exists_textOf_of_mem_heard hmem
  have hverdict := verdict_scripted_succ listing gap h hlines hn
  refine ⟨hverdict, hasStatement_textOf hp, ?_⟩
  intro v hok
  constructor
  · rw [replies_eq, hn, ← heapAfter_eq_scripted report listing gap h hlines hok]
    rfl
  · have hheap := congrArg Prod.snd hverdict
    rw [Script.heap_inTurn_of_ok _ _ hok] at hheap
    rw [heap_reply]
    exact hheap.symm

end Agreement

end Dialogue

/-- Texts with a gap between them read as one program after the other, and run one after the other.
    So a dialogue whose lines are programs agrees at each line with the script of the lines, as long
    as no line before has failed. -/
theorem joined_texts_run_in_turn (report : Reporter) (listing : Listing) (gap : Gap) :
    (∀ (source₁ source₂ : String) (p₁ p₂ : Program), Program.ofSource source₁ = .ok p₁ →
      Program.ofSource source₂ = .ok p₂ →
        Program.ofSource (source₁ ++ gap.text ++ source₂) =
            .ok (p₁ ++ p₂.map (Statement.shift (source₁.length + gap.text.length))) ∧
          ∀ c h, ((Script.execute listing (source₁ ++ gap.text ++ source₂) c h).mapError
              Fault.problem).verdict =
            Script.inTurn listing (source₁.length + gap.text.length) source₁ source₂ c h) ∧
      ∀ (h : Heap) (lines : List (Option String)),
        (∀ text ∈ Dialogue.heard lines, ∃ p, Program.ofSource text = .ok p) →
          ∀ n text, (Dialogue.heard lines)[n]? = some text →
            Dialogue.AgreesAt report listing gap h lines n text := by
  constructor
  · intro source₁ source₂ p₁ p₂ h₁ h₂
    have hjoined := Program.ofSource_append gap h₁ h₂
    exact ⟨hjoined, fun c h => Script.verdict_joined h₁ h₂ hjoined listing c h⟩
  · intro h lines hlines n text hn
    exact Dialogue.agreesAt report listing gap h hlines hn

/-- The end of a line. -/
def Gap.newline : Gap := ⟨"\n", Token.forall_mem_of_all (by decide), by decide⟩

theorem Program.ofSource_let_x :
    Program.ofSource "let x;" = .ok [.declare "x" false none ⟨0, 6⟩] := by
  have hscan : Token.ofSource "let x;" = .ok [⟨.letWord, "let", ⟨0, 3⟩⟩,
      ⟨.identifier, "x", ⟨4, 5⟩⟩, ⟨.semicolon, ";", ⟨5, 6⟩⟩, Token.ending 6] :=
    (Token.ofSource_eq_ok_iff _ _).mpr (by decide +kernel)
  refine (Program.ofSource_eq_ok_iff _ _).mpr ⟨_, [.declare ⟨⟨.letWord, "let", ⟨0, 3⟩⟩, rfl⟩
    ⟨⟨.identifier, "x", ⟨4, 5⟩⟩, rfl⟩ ⟨⟨.semicolon, ";", ⟨5, 6⟩⟩, rfl⟩], hscan, rfl, ?_, rfl⟩
  intro s hs
  rw [List.mem_singleton.mp hs]
  exact Sentence.fits_declare

/-- The second of two equal declarations fails, in one text and on lines of a dialogue alike. -/
theorem let_x_twice_in_turn :
    Program.ofSource "let x;" = .ok [.declare "x" false none ⟨0, 6⟩] ∧
      Program.ofSource "let x;\nlet x;" =
        .ok [.declare "x" false none ⟨0, 6⟩, .declare "x" false none ⟨7, 13⟩] ∧
      ((Script.execute ⟨false, false⟩ "let x;\nlet x;" 0 .initial).mapError Fault.problem).verdict =
        Script.inTurn ⟨false, false⟩ 7 "let x;" "let x;" 0 .initial ∧
      Dialogue.heard [some " let x;\n", some "let x;\r\n"] = ["let x;", "let x;"] ∧
      Dialogue.AgreesAt Problem.report ⟨false, false⟩ .newline .initial
        [some " let x;\n", some "let x;\r\n"] 1 "let x;" := by
  have hheard : Dialogue.heard [some " let x;\n", some "let x;\r\n"] = ["let x;", "let x;"] := by
    decide +kernel
  obtain ⟨htexts, hdialogue⟩ := joined_texts_run_in_turn Problem.report ⟨false, false⟩ .newline
  obtain ⟨hjoined, hrun⟩ := htexts _ _ _ _ Program.ofSource_let_x Program.ofSource_let_x
  refine ⟨Program.ofSource_let_x, hjoined, hrun 0 .initial, hheard, ?_⟩
  refine hdialogue .initial _ ?_ 1 _ (by rw [hheard]; rfl)
  intro text hmem
  rw [hheard] at hmem
  obtain rfl : text = "let x;" := by simpa using hmem
  exact ⟨_, Program.ofSource_let_x⟩

end Quill
