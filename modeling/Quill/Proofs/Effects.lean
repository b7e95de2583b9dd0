import Mathlib.Logic.Relation
import Quill.Proofs.Resolution
import Quill.Script

/-!
# Effects

What running a program does to a heap. Each of its parts goes on from the heap that the part before
left, up to the first fault, and all that a part can do is to change single bindings.

* `Program.evalFrom_append`: running two programs one after the other is running one program.
* `Program.changes`: a run changes one binding after another, whether it fails or not.
* `Script.verdict_execute`: a text has the result and the heap of its program.
-/

namespace Quill

/-! ## Outcomes -/

namespace Outcome

variable {ε ε' α β γ : Type}

/-- An outcome without its journal. -/
def verdict (o : Outcome ε α) : Except ε α × Heap := (o.result, o.heap)

variable (o : Outcome ε α) (f : α → Heap → Outcome ε β)

theorem andThen_of_ok {a : α} (h : o.result = .ok a) :
    o.andThen f =
      ⟨(f a o.heap).result, (f a o.heap).heap, o.journal ++ (f a o.heap).journal⟩ := by
  unfold andThen
  rw [h]

theorem andThen_of_error {e : ε} (h : o.result = .error e) :
    o.andThen f = ⟨.error e, o.heap, o.journal⟩ := by
  unfold andThen
  rw [h]

theorem done_andThen (a : α) (h : Heap) : (done a h).andThen f = f a h := rfl

theorem andThen_done : (o.andThen fun a h => done a h) = o := by
  cases ho : o.result with
  | error e => rw [andThen_of_error _ _ ho, ← ho]
  | ok a =>
    rw [andThen_of_ok _ _ ho]
    show (⟨.ok a, o.heap, o.journal ++ []⟩ : Outcome ε α) = o
    rw [List.append_nil, ← ho]

theorem verdict_andThen :
    (o.andThen f).verdict =
      match o.result with
      | .ok a => (f a o.heap).verdict
      | .error e => (.error e, o.heap) := by
  unfold andThen verdict
  cases o.result <;> rfl

theorem andThen_assoc (g : β → Heap → Outcome ε γ) :
    (o.andThen f).andThen g = o.andThen fun a h => (f a h).andThen g := by
  cases ho : o.result with
  | error e =>
    rw [andThen_of_error _ _ ho, andThen_of_error _ _ ho]
    rfl
  | ok a =>
    rw [andThen_of_ok _ _ ho, andThen_of_ok _ _ ho]
    cases hf : (f a o.heap).result with
    | error e =>
      rw [andThen_of_error _ _ rfl, andThen_of_error _ _ hf]
    | ok b =>
      rw [andThen_of_ok _ _ rfl, andThen_of_ok _ _ hf]
      dsimp only
      rw [List.append_assoc]

/-- Two parts fail if the first does, or if it succeeds and the second fails. -/
theorem result_andThen_eq_error_iff (e : ε) :
    (o.andThen f).result = .error e ↔
      o.result = .error e ∨ ∃ a, o.result = .ok a ∧ (f a o.heap).result = .error e := by
  cases ho : o.result with
  | error e' =>
    rw [andThen_of_error _ _ ho]
    simp
  | ok a =>
    rw [andThen_of_ok _ _ ho]
    simp

/-- Restating the causes of failure at the end is restating them all along. -/
theorem mapError_andThen (m : ε → ε') :
    (o.andThen f).mapError m = (o.mapError m).andThen fun a h => (f a h).mapError m := by
  unfold andThen mapError
  cases o.result <;> rfl

theorem result_mapError_eq_error_iff (m : ε → ε') (e : ε') :
    (o.mapError m).result = .error e ↔ ∃ cause, o.result = .error cause ∧ m cause = e := by
  unfold mapError
  cases o.result with
  | error cause =>
    constructor
    · intro he
      exact ⟨cause, rfl, Except.error.inj he⟩
    · rintro ⟨cause', hcause, rfl⟩
      rw [Except.error.inj hcause]
      rfl
  | ok a =>
    constructor
    · intro he
      cases he
    · rintro ⟨cause, hcause, -⟩
      cases hcause

theorem verdict_mapError (m : ε → ε') :
    (o.mapError m).verdict = (o.verdict.1.mapError m, o.verdict.2) := rfl

theorem mapError_mapError {ε'' : Type} (m : ε → ε') (n : ε' → ε'') :
    (o.mapError m).mapError n = o.mapError (n ∘ m) := by
  unfold mapError
  cases o.result <;> rfl

end Outcome

/-! ## Runs one after the other -/

theorem Program.evalFrom_append (c : Nat) (p q : Program) (last : Value) (h : Heap) :
    Program.evalFrom c (p ++ q) last h =
      (p.evalFrom c last h).andThen fun v h => q.evalFrom c v h := by
  induction p generalizing last h with
  | nil => rw [List.nil_append, evalFrom, Outcome.done_andThen]
  | cons statement p ih =>
    rw [List.cons_append, evalFrom, evalFrom, Outcome.andThen_assoc]
    simp only [ih]

/-! ## Changes of a heap -/

open Relation (ReflTransGen)

section Changes

variable {c : Nat}

/-- What holds between the heaps before and after each of two parts holds of both together, if the
    relation is transitive. -/
theorem Outcome.related_andThen {ε α β : Type} {R : Heap → Heap → Prop} {o : Outcome ε α}
    {f : α → Heap → Outcome ε β} {h : Heap}
    (htrans : ∀ {h₁ h₂ h₃}, R h₁ h₂ → R h₂ h₃ → R h₁ h₃) (ho : R h o.heap)
    (hf : ∀ a h, R h (f a h).heap) : R h (o.andThen f).heap := by
  cases hresult : o.result with
  | error e =>
    rw [andThen_of_error _ _ hresult]
    exact ho
  | ok a =>
    rw [andThen_of_ok _ _ hresult]
    exact htrans ho (hf a o.heap)

/-- Changes by the parts of a run are changes by the run. -/
theorem Outcome.changes_andThen {ε α β : Type} {o : Outcome ε α} {f : α → Heap → Outcome ε β}
    {h : Heap} (ho : ReflTransGen (Heap.Change · c) h o.heap)
    (hf : ∀ a h, ReflTransGen (Heap.Change · c) h (f a h).heap) :
    ReflTransGen (Heap.Change · c) h (o.andThen f).heap :=
  related_andThen .trans ho hf

/-- Changes neither add nor remove scopes. -/
theorem Heap.length_eq_of_changes {h h' : Heap}
    (hchanges : ReflTransGen (Heap.Change · c) h h') : h'.scopes.length = h.scopes.length := by
  induction hchanges with
  | refl => rfl
  | tail _ hchange ih =>
    rw [← ih]
    cases hchange with
    | assigned => exact List.length_modify _ _ _
    | declared => exact List.length_modify _ _ _

theorem Heap.changes_assign (h : Heap) (c : Nat) (name : String) (value : Value) :
    ReflTransGen (Heap.Change · c) h (h.assign c name value).heap := by
  obtain ⟨e, he⟩ | ⟨-, hchange⟩ := h.assign_cases c name value
  · rw [he]
    exact .refl
  · exact .single hchange

theorem Heap.changes_declare (h : Heap) (c : Nat) (name : String) (value : Value)
    (constant : Bool) :
    ReflTransGen (Heap.Change · c) h (h.declare c name value constant).heap := by
  obtain ⟨e, he⟩ | ⟨-, hchange⟩ := h.declare_cases c name value constant
  · rw [he]
    exact .refl
  · exact .single hchange

theorem Operator.heap_combine (op : Operator) (left right : Value) (h : Heap) :
    (op.combine left right h).heap = h := by
  unfold combine
  split <;> rfl

theorem Expr.changes (e : Expr) (h : Heap) :
    ReflTransGen (Heap.Change · c) h (e.eval c h).heap := by
  fun_induction Expr.eval c e h with
  | case1 => exact .refl
  | case2 => exact .refl
  | case3 left op right span h ihleft ihright =>
    refine Outcome.changes_andThen ihleft fun a h => ?_
    refine Outcome.changes_andThen (ihright h) fun b h => ?_
    rw [op.heap_combine]
  | case4 symbol _ value span h ih =>
    exact Outcome.changes_andThen ih fun v h => h.changes_assign c symbol v
  | case5 => exact .refl

theorem Statement.changes (st : Statement) (h : Heap) :
    ReflTransGen (Heap.Change · c) h (st.eval c h).heap := by
  match st with
  | .expression e _ => exact e.changes h
  | .declare name constant (some e) span =>
    exact Outcome.changes_andThen (e.changes h) fun v h => h.changes_declare c name v constant
  | .declare name constant none span => exact h.changes_declare c name .null constant

theorem Program.changes (p : Program) (last : Value) (h : Heap) :
    ReflTransGen (Heap.Change · c) h (p.evalFrom c last h).heap := by
  induction p generalizing last h with
  | nil => exact .refl
  | cons st p ih => exact Outcome.changes_andThen (st.changes h) ih

end Changes

/-! ## Texts -/

namespace Script

/-- A text that is no program fails and changes nothing; any other has the result and the heap of
    its program. -/
theorem verdict_execute (listing : Listing) (source : String) (c : Nat) (h : Heap) :
    (execute listing source c h).verdict =
      Outcome.verdict (match Program.ofSource source with
        | .error fault => .fail fault h
        | .ok p => p.evalFrom c .null h) := by
  unfold execute Program.ofSource Token.ofSource
  match Token.scan source with
  | ⟨tokens, some fault⟩ => rfl
  | ⟨tokens, none⟩ =>
    dsimp only [Except.bind]
    unfold executeTokens
    cases Program.ofTokens tokens <;> rfl

theorem verdict_of_ok {source : String} {p : Program} (hp : Program.ofSource source = .ok p)
    (listing : Listing) (c : Nat) (h : Heap) :
    (execute listing source c h).verdict = (p.evalFrom c .null h).verdict := by
  rw [verdict_execute, hp]

theorem changes_execute (listing : Listing) (source : String) (c : Nat) (h : Heap) :
    ReflTransGen (Heap.Change · c) h (execute listing source c h).heap := by
  have hverdict := congrArg Prod.snd (verdict_execute listing source c h)
  dsimp only [Outcome.verdict] at hverdict
  rw [hverdict]
  cases Program.ofSource source with
  | error fault => exact .refl
  | ok p => exact p.changes .null h

end Script

end Quill
