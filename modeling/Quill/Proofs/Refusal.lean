import Quill.Proofs.Effects

/-!
# Where evaluation fails

`FailsAt` says which operation of a run is refused and with which fault, as a grammar of broken off
evaluations: what is evaluated before the operation succeeds, and nothing after it is looked at.

* `Expr.eval_eq_error_iff`, `Statement.eval_eq_error_iff`, `Program.evalFrom_eq_error_iff`:
  evaluation fails just where an operation is refused.
* `Program.FailsAt.raises`: the faults that each operation is refused with.
-/

namespace Quill

/-- An operation that evaluation can be refused. -/
inductive Attempt where
  /-- The value of a name is looked up. -/
  | lookup (symbol : String)
  /-- A name is given another value. -/
  | assignment (symbol : String)
  /-- A name is declared. -/
  | declaration (symbol : String) (constant : Bool)
  /-- Something that is no name is assigned to. -/
  | target (e : Expr)

/-- Evaluating an expression in scope `c` of a heap fails because an operation is refused. -/
inductive Expr.FailsAt (c : Nat) : Expr → Heap → Attempt → Fault → Prop
  | lookup {symbol : String} {span : Span} {h : Heap} {cause : NameFault}
      (hlookup : h.lookup c symbol = .error cause) :
      FailsAt c (.name symbol span) h (.lookup symbol) (.binding cause span)
  | left {left right : Expr} {op : Operator} {span : Span} {h : Heap} {attempt : Attempt}
      {fault : Fault} (hleft : FailsAt c left h attempt fault) :
      FailsAt c (.binary left op right span) h attempt fault
  | right {left right : Expr} {op : Operator} {span : Span} {h : Heap} {a : Value}
      {attempt : Attempt} {fault : Fault} (hleft : (left.eval c h).result = .ok a)
      (hright : FailsAt c right (left.eval c h).heap attempt fault) :
      FailsAt c (.binary left op right span) h attempt fault
  | value {symbol : String} {place : Span} {value : Expr} {span : Span} {h : Heap}
      {attempt : Attempt} {fault : Fault} (hvalue : FailsAt c value h attempt fault) :
      FailsAt c (.assign (.name symbol place) value span) h attempt fault
  | assignment {symbol : String} {place : Span} {value : Expr} {span : Span} {h : Heap} {v : Value}
      {cause : NameFault} (hvalue : (value.eval c h).result = .ok v)
      (hassign : ((value.eval c h).heap.assign c symbol v).result = .error cause) :
      FailsAt c (.assign (.name symbol place) value span) h (.assignment symbol)
        (.binding cause span)
  | target {target value : Expr} {span : Span} {h : Heap}
      (htarget : ∀ symbol place, target ≠ .name symbol place) :
      FailsAt c (.assign target value span) h (.target target) (.badTarget target.span)

/-- The value that a declaration starts with. -/
def Statement.initial (c : Nat) (value : Option Expr) (h : Heap) : Outcome Fault Value :=
  match value with
  | some e => e.eval c h
  | none => .done .null h

/-- Executing a statement fails because an operation is refused. -/
inductive Statement.FailsAt (c : Nat) : Statement → Heap → Attempt → Fault → Prop
  | expression {e : Expr} {span : Span} {h : Heap} {attempt : Attempt} {fault : Fault}
      (he : e.FailsAt c h attempt fault) :
      FailsAt c (.expression e span) h attempt fault
  | value {name : String} {constant : Bool} {e : Expr} {span : Span} {h : Heap}
      {attempt : Attempt} {fault : Fault} (he : e.FailsAt c h attempt fault) :
      FailsAt c (.declare name constant (some e) span) h attempt fault
  | declaration {name : String} {constant : Bool} {value : Option Expr} {span : Span} {h : Heap}
      {v : Value} {cause : NameFault} (hvalue : (Statement.initial c value h).result = .ok v)
      (hdeclare : ((Statement.initial c value h).heap.declare c name v constant).result =
        .error cause) :
      FailsAt c (.declare name constant value span) h (.declaration name constant)
        (.binding cause span)

/-- Executing a program fails because an operation is refused. -/
inductive Program.FailsAt (c : Nat) : Program → Heap → Attempt → Fault → Prop
  | here {st : Statement} {p : Program} {h : Heap} {attempt : Attempt} {fault : Fault}
      (hst : st.FailsAt c h attempt fault) : FailsAt c (st :: p) h attempt fault
  | later {st : Statement} {p : Program} {h : Heap} {v : Value} {attempt : Attempt} {fault : Fault}
      (hst : (st.eval c h).result = .ok v)
      (hp : FailsAt c p (st.eval c h).heap attempt fault) : FailsAt c (st :: p) h attempt fault

section Evaluation

variable {c : Nat}

/-- Operators refuse nothing. -/
theorem Operator.exists_combine_eq (op : Operator) (left right : Value) (h : Heap) :
    ∃ v, (op.combine left right h).result = .ok v := by
  unfold combine
  split
  · exact ⟨_, rfl⟩
  · exact ⟨_, rfl⟩

theorem Expr.exists_failsAt {e : Expr} {h : Heap} {fault : Fault}
    (hfault : (e.eval c h).result = .error fault) : ∃ attempt, e.FailsAt c h attempt fault := by
  fun_induction Expr.eval c e h with
  | case1 => cases hfault
  | case2 symbol span h =>
    cases hlookup : h.lookup c symbol with
    | ok v =>
      rw [hlookup] at hfault
      cases hfault
    | error cause =>
      rw [hlookup] at hfault
      obtain rfl : Fault.binding cause span = fault := Except.error.inj hfault
      exact ⟨_, .lookup hlookup⟩
  | case3 left op right span h ihleft ihright =>
    rw [Outcome.result_andThen_eq_error_iff] at hfault
    rcases hfault with hleft | ⟨a, hleft, hrest⟩
    · obtain ⟨attempt, hattempt⟩ := ihleft hleft
      exact ⟨attempt, .left hattempt⟩
    · rw [Outcome.result_andThen_eq_error_iff] at hrest
      rcases hrest with hright | ⟨b, -, hcombine⟩
      · obtain ⟨attempt, hattempt⟩ := ihright _ hright
        exact ⟨attempt, .right hleft hattempt⟩
      · obtain ⟨v, hv⟩ := op.exists_combine_eq a b (right.eval c (left.eval c h).heap).heap
        rw [hv] at hcombine
        cases hcombine
  | case4 symbol place value span h ih =>
    rw [Outcome.result_andThen_eq_error_iff] at hfault
    rcases hfault with hvalue | ⟨v, hvalue, hassign⟩
    · obtain ⟨attempt, hattempt⟩ := ih hvalue
      exact ⟨attempt, .value hattempt⟩
    · obtain ⟨cause, hcause, rfl⟩ := (Outcome.result_mapError_eq_error_iff _ _ _).mp hassign
      exact ⟨_, .assignment hvalue hcause⟩
  | case5 target value span h htarget =>
    obtain rfl : Fault.badTarget target.span = fault := Except.error.inj hfault
    exact ⟨_, .target htarget⟩

/-- Evaluating an expression fails just where an operation is refused. -/
theorem Expr.eval_eq_error_iff (e : Expr) (h : Heap) (fault : Fault) :
    (e.eval c h).result = .error fault ↔ ∃ attempt, e.FailsAt c h attempt fault := by
  constructor
  · exact Expr.exists_failsAt
  · rintro ⟨attempt, hattempt⟩
    induction hattempt with
    | lookup hlookup =>
      rw [Expr.eval, hlookup]
      rfl
    | left _ ih => exact (Outcome.result_andThen_eq_error_iff _ _ _).mpr (.inl ih)
    | right hleft _ ih =>
      refine (Outcome.result_andThen_eq_error_iff _ _ _).mpr (.inr ⟨_, hleft, ?_⟩)
      exact (Outcome.result_andThen_eq_error_iff _ _ _).mpr (.inl ih)
    | value _ ih => exact (Outcome.result_andThen_eq_error_iff _ _ _).mpr (.inl ih)
    | assignment hvalue hassign =>
      refine (Outcome.result_andThen_eq_error_iff _ _ _).mpr (.inr ⟨_, hvalue, ?_⟩)
      exact (Outcome.result_mapError_eq_error_iff _ _ _).mpr ⟨_, hassign, rfl⟩
    | target htarget =>
      rw [Expr.eval]
      · rfl
      · exact htarget

theorem Statement.eval_declare (name : String) (constant : Bool) (value : Option Expr)
    (span : Span) (h : Heap) :
    (Statement.declare name constant value span).eval c h =
      (Statement.initial c value h).andThen fun v h =>
        (h.declare c name v constant).mapError (.binding · span) := rfl

/-- Executing a statement fails just where an operation is refused. -/
theorem Statement.eval_eq_error_iff (st : Statement) (h : Heap) (fault : Fault) :
    (st.eval c h).result = .error fault ↔ ∃ attempt, st.FailsAt c h attempt fault := by
  constructor
  · intro hfault
    match st with
    | .expression e span =>
      obtain ⟨attempt, hattempt⟩ := (e.eval_eq_error_iff h fault).mp hfault
      exact ⟨attempt, .expression hattempt⟩
    | .declare name constant value span =>
      rw [Statement.eval_declare, Outcome.result_andThen_eq_error_iff] at hfault
      rcases hfault with hvalue | ⟨v, hvalue, hdeclare⟩
      · match value with
        | none => cases hvalue
        | some e =>
          obtain ⟨attempt, hattempt⟩ := (e.eval_eq_error_iff h fault).mp hvalue
          exact ⟨attempt, .value hattempt⟩
      · obtain ⟨cause, hcause, rfl⟩ := (Outcome.result_mapError_eq_error_iff _ _ _).mp hdeclare
        exact ⟨_, .declaration hvalue hcause⟩
  · rintro ⟨attempt, hattempt⟩
    cases hattempt with
    | expression he => exact (Expr.eval_eq_error_iff _ _ _).mpr ⟨attempt, he⟩
    | value he =>
      rw [Statement.eval_declare, Outcome.result_andThen_eq_error_iff]
      exact .inl ((Expr.eval_eq_error_iff _ _ _).mpr ⟨attempt, he⟩)
    | declaration hvalue hdeclare =>
      rw [Statement.eval_declare, Outcome.result_andThen_eq_error_iff]
      refine .inr ⟨_, hvalue, ?_⟩
      exact (Outcome.result_mapError_eq_error_iff _ _ _).mpr ⟨_, hdeclare, rfl⟩

/-- Executing a program fails just where an operation is refused. -/
theorem Program.evalFrom_eq_error_iff (p : Program) (last : Value) (h : Heap) (fault : Fault) :
    (p.evalFrom c last h).result = .error fault ↔ ∃ attempt, p.FailsAt c h attempt fault := by
  induction p generalizing last h with
  | nil =>
    constructor
    · intro hfault
      cases hfault
    · rintro ⟨attempt, hattempt⟩
      cases hattempt
  | cons st p ih =>
    rw [evalFrom, Outcome.result_andThen_eq_error_iff, st.eval_eq_error_iff]
    constructor
    · rintro (⟨attempt, hst⟩ | ⟨v, hst, hrest⟩)
      · exact ⟨attempt, .here hst⟩
      · obtain ⟨attempt, hattempt⟩ := (ih _ _).mp hrest
        exact ⟨attempt, .later hst hattempt⟩
    · rintro ⟨attempt, hattempt⟩
      cases hattempt with
      | here hst => exact .inl ⟨attempt, hst⟩
      | later hst hrest => exact .inr ⟨_, hst, (ih _ _).mpr ⟨attempt, hrest⟩⟩

end Evaluation

/-! ## Reasons -/

/-- The faults that an operation in a scope that exists can be refused with. -/
def Attempt.Raises (fault : Fault) : Attempt → Prop
  | .lookup symbol => ∃ span, fault = .binding (.undefined symbol) span
  | .assignment symbol =>
    ∃ span, fault = .binding (.undefined symbol) span ∨ fault = .binding (.constant symbol) span
  | .declaration symbol _ => ∃ span, fault = .binding (.alreadyDeclared symbol) span
  | .target e => fault = .badTarget e.span

namespace Heap

variable {h : Heap} {c : Nat} {name : String} {cause : NameFault}

theorem eq_undefined_of_lookup (hlookup : h.lookup c name = .error cause) :
    cause = .undefined name := by
  rw [lookup_eq] at hlookup
  cases howner : h.owner? c name with
  | some owner =>
    rw [howner] at hlookup
    cases hlookup
  | none =>
    rw [howner] at hlookup
    exact (Except.error.inj hlookup).symm

theorem eq_of_assign {value : Value} (hassign : (h.assign c name value).result = .error cause) :
    cause = .undefined name ∨ cause = .constant name := by
  rw [assign_eq] at hassign
  cases howner : h.owner? c name with
  | some owner =>
    rw [howner] at hassign
    dsimp only at hassign
    split at hassign
    · exact .inr (Except.error.inj hassign).symm
    · cases hassign
  | none =>
    rw [howner] at hassign
    exact .inl (Except.error.inj hassign).symm

theorem eq_alreadyDeclared_of_declare {value : Value} {constant : Bool} (hc : c < h.scopes.length)
    (hdeclare : (h.declare c name value constant).result = .error cause) :
    cause = .alreadyDeclared name := by
  unfold declare at hdeclare
  rw [List.getElem?_eq_getElem hc] at hdeclare
  dsimp only at hdeclare
  split at hdeclare
  · exact (Except.error.inj hdeclare).symm
  · cases hdeclare

end Heap

section Reasons

variable {c : Nat} {h : Heap} {attempt : Attempt} {fault : Fault}

theorem Expr.FailsAt.raises {e : Expr} (hfails : e.FailsAt c h attempt fault) :
    attempt.Raises fault := by
  induction hfails with
  | lookup hlookup => exact ⟨_, by rw [Heap.eq_undefined_of_lookup hlookup]⟩
  | left _ ih => exact ih
  | right _ _ ih => exact ih
  | value _ ih => exact ih
  | @assignment symbol place value span h v cause hvalue hassign =>
    refine ⟨span, ?_⟩
    rcases Heap.eq_of_assign hassign with rfl | rfl
    · exact .inl rfl
    · exact .inr rfl
  | target => rfl

theorem Statement.length_initial (value : Option Expr) (h : Heap) :
    (Statement.initial c value h).heap.scopes.length = h.scopes.length := by
  cases value with
  | none => rfl
  | some e => exact Heap.length_eq_of_changes (e.changes h)

theorem Statement.FailsAt.raises {st : Statement} (hc : c < h.scopes.length)
    (hfails : st.FailsAt c h attempt fault) : attempt.Raises fault := by
  cases hfails with
  | expression he => exact he.raises
  | value he => exact he.raises
  | @declaration name constant value span _ v cause hvalue hdeclare =>
    have hlength : (Statement.initial c value h).heap.scopes.length = h.scopes.length :=
      Statement.length_initial value h
    have hcause := Heap.eq_alreadyDeclared_of_declare (by omega) hdeclare
    exact ⟨span, by rw [hcause]⟩

theorem Program.FailsAt.raises {p : Program} (hc : c < h.scopes.length)
    (hfails : p.FailsAt c h attempt fault) : attempt.Raises fault := by
  induction hfails with
  | here hst => exact hst.raises hc
  | @later st p h v attempt fault hst hp ih =>
    have hlength : (st.eval c h).heap.scopes.length = h.scopes.length :=
      Heap.length_eq_of_changes (st.changes h)
    exact ih (by omega)

end Reasons

end Quill
