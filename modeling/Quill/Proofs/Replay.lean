import Quill.Proofs.Effects

/-!
# Replaying the journal

The journal of a run notes down every change of a binding as it is made. Read as a list of updates
it can be replayed on the heap that the run began with: every update is granted again, and the heap
at the end is the one that the run left, also where a fault stopped it. What a run asks for can be
listed besides, and the journal has of it exactly what was granted.

* `Update.ask_cases`: an update that is refused leaves no trace, and one that is granted leaves one
  record.
* `Outcome.Journals.andThen`: faithful journals of two parts make up one of both.
* `Expr.journals_eval`, `Statement.journals_eval`: the parts of a program.
* `Program.journal_replays`: every program in every heap.
-/

namespace Quill

/-! ## Updates -/

/-- A change of a binding: its name and value, and whether it is for good if it is new. -/
inductive Update where
  | declare (name : String) (value : Value) (constant : Bool)
  | assign (name : String) (value : Value)
deriving DecidableEq

/-- The update that a record notes down, if it is the record of one. -/
def Record.update? : Record → Option Update
  | .declared name value constant => some (.declare name value constant)
  | .assigned name value => some (.assign name value)
  | _ => none

/-- The updates that a journal notes down, in order. -/
def Record.updates (journal : List Record) : List Update := journal.filterMap update?

theorem Record.updates_append (journal more : List Record) :
    updates (journal ++ more) = updates journal ++ updates more :=
  List.filterMap_append

namespace Update

/-- Makes an update from scope `c`. A declaration binds a name that this scope is free to bind; an
    assignment is made in the nearest scope that binds the name, unless it is constant there. -/
def redo (c : Nat) (h : Heap) : Update → Option Heap
  | .declare name value constant =>
    match h.scopes[c]?, h.binding? c name with
    | some _, none => some (h.modify c (·.bind name ⟨value, constant⟩))
    | _, _ => none
  | .assign name value =>
    match h.owner? c name with
    | some (o, b) => if b.constant then none else some (h.modify o (·.rebind name value))
    | none => none

/-- Makes updates one after the other, if none of them is refused. -/
def replay (c : Nat) (h : Heap) (updates : List Update) : Option Heap :=
  updates.foldlM (redo c) h

@[simp] theorem replay_nil (c : Nat) (h : Heap) : replay c h [] = some h := rfl

@[simp] theorem replay_singleton (c : Nat) (h : Heap) (u : Update) :
    replay c h [u] = redo c h u := by
  simp [replay]

theorem replay_append {c : Nat} {h h' : Heap} {updates : List Update}
    (hreplay : replay c h updates = some h') (more : List Update) :
    replay c h (updates ++ more) = replay c h' more := by
  unfold replay at hreplay ⊢
  rw [List.foldlM_append, hreplay]
  rfl

/-- Asks for an update in scope `c`. -/
def ask (c : Nat) (h : Heap) : Update → Outcome NameFault Value
  | .declare name value constant => h.declare c name value constant
  | .assign name value => h.assign c name value

/-- The record of an update. -/
def record : Update → Record
  | .declare name value constant => .declared name value constant
  | .assign name value => .assigned name value

@[simp] theorem update?_record (u : Update) : u.record.update? = some u := by
  cases u <;> rfl

/-- An update is refused and leaves neither a change nor a record, or it is granted and leaves the
    heap in which it has been made and one record. -/
theorem ask_cases (c : Nat) (h : Heap) (u : Update) :
    (redo c h u = none ∧ ∃ e, ask c h u = .fail e h) ∨
      ∃ v h', redo c h u = some h' ∧ ask c h u = ⟨.ok v, h', [u.record]⟩ := by
  cases u with
  | declare name value constant =>
    simp only [redo, ask, Heap.declare, Heap.binding?]
    cases h.scopes[c]? with
    | none => exact .inl ⟨rfl, _, rfl⟩
    | some s =>
      dsimp only [Option.bind_some]
      cases s.find? name with
      | some b => exact .inl ⟨rfl, _, rfl⟩
      | none => exact .inr ⟨value, _, rfl, rfl⟩
  | assign name value =>
    simp only [redo, ask, Heap.assign_eq]
    cases h.owner? c name with
    | none => exact .inl ⟨rfl, _, rfl⟩
    | some found =>
      obtain ⟨o, b⟩ := found
      dsimp only
      by_cases hconstant : b.constant = true
      · exact .inl ⟨if_pos hconstant, _, if_pos hconstant⟩
      · exact .inr ⟨value, _, if_neg hconstant, if_neg hconstant⟩

end Update

/-! ## Requests -/

/-- What is asked for after a part of a run, if that has not failed. -/
def Outcome.next {ε α : Type} (o : Outcome ε α) (f : α → Heap → List Update) : List Update :=
  match o.result with
  | .ok a => f a o.heap
  | .error _ => []

/-- The updates that an expression asks for in scope `c`, in order and up to the first fault. -/
def Expr.requests (c : Nat) : Expr → Heap → List Update
  | .number _ _, _ => []
  | .name _ _, _ => []
  | .binary left _ right _, h =>
    left.requests c h ++ (left.eval c h).next fun _ h => right.requests c h
  | .assign (.name symbol _) value _, h =>
    value.requests c h ++ (value.eval c h).next fun v _ => [.assign symbol v]
  | .assign _ _ _, _ => []

/-- The updates that a statement asks for: those of its expression and, for a declaration, the
    declaration itself. -/
def Statement.requests (c : Nat) : Statement → Heap → List Update
  | .expression e _, h => e.requests c h
  | .declare name constant (some e) _, h =>
    e.requests c h ++ (e.eval c h).next fun v _ => [.declare name v constant]
  | .declare name constant none _, _ => [.declare name .null constant]

/-- The updates that a program asks for. -/
def Program.requests (c : Nat) : Program → Heap → List Update
  | [], _ => []
  | statement :: rest, h =>
    statement.requests c h ++ (statement.eval c h).next fun _ h => Program.requests c rest h

/-! ## Faithful journals -/

/-- The journal of an outcome is faithful, if the run began in a heap and asked for some updates. -/
structure Outcome.Journals {ε α : Type} (o : Outcome ε α) (c : Nat) (h : Heap)
    (requests : List Update) : Prop where
  /-- The journal can be replayed and leads to the heap of the outcome. -/
  replay_eq : Update.replay c h (Record.updates o.journal) = some o.heap
  /-- All requests are in the journal in order, apart from a last one that was refused and with
      which the run failed. -/
  exists_refused : ∃ refused : Option Update,
    requests = Record.updates o.journal ++ refused.toList ∧
      ∀ u ∈ refused, Update.redo c o.heap u = none ∧ ∃ e, o.result = .error e

namespace Outcome

variable {ε ε' α β : Type} {c : Nat} {h : Heap}

theorem next_of_ok {o : Outcome ε α} {a : α} (hok : o.result = .ok a)
    (f : α → Heap → List Update) : o.next f = f a o.heap := by
  simp only [next, hok]

theorem next_of_error {o : Outcome ε α} {e : ε} (herror : o.result = .error e)
    (f : α → Heap → List Update) : o.next f = [] := by
  simp only [next, herror]

theorem next_nothing (o : Outcome ε α) : o.next (fun _ _ => []) = [] := by
  unfold next
  split <;> rfl

/-- A part that asks for nothing and changes nothing. -/
theorem journals_of_heap_eq {o : Outcome ε α} (hheap : o.heap = h)
    (hjournal : Record.updates o.journal = []) : o.Journals c h [] := by
  refine ⟨?_, none, ?_, by simp⟩
  · rw [hjournal, hheap, Update.replay_nil]
  · rw [hjournal]
    rfl

theorem Journals.mapError {o : Outcome ε α} {requests : List Update}
    (ho : o.Journals c h requests) (m : ε → ε') : (o.mapError m).Journals c h requests := by
  obtain ⟨refused, hrequests, hrefused⟩ := ho.exists_refused
  refine ⟨ho.replay_eq, refused, hrequests, fun u hu => ?_⟩
  obtain ⟨hredo, e, he⟩ := hrefused u hu
  refine ⟨hredo, m e, ?_⟩
  show o.result.mapError m = _
  rw [he]
  rfl

/-- Where a part has not failed, all it asked for is in its journal. -/
theorem Journals.requests_of_ok {o : Outcome ε α} {requests : List Update} {a : α}
    (ho : o.Journals c h requests) (hok : o.result = .ok a) :
    requests = Record.updates o.journal := by
  obtain ⟨refused, hrequests, hrefused⟩ := ho.exists_refused
  cases refused with
  | none => simpa using hrequests
  | some u =>
    obtain ⟨-, e, he⟩ := hrefused u rfl
    rw [hok] at he
    cases he

/-- Faithful journals of two parts make up one of both. -/
theorem Journals.andThen {o : Outcome ε α} {f : α → Heap → Outcome ε β}
    {requests : List Update} {more : α → Heap → List Update} (ho : o.Journals c h requests)
    (hf : ∀ a h, (f a h).Journals c h (more a h)) :
    (o.andThen f).Journals c h (requests ++ o.next more) := by
  cases hresult : o.result with
  | error e =>
    obtain ⟨refused, hrequests, hrefused⟩ := ho.exists_refused
    rw [andThen_of_error _ _ hresult, next_of_error hresult, List.append_nil]
    exact ⟨ho.replay_eq, refused, hrequests, fun u hu => ⟨(hrefused u hu).1, e, rfl⟩⟩
  | ok a =>
    obtain ⟨hreplay, refused, hmore, hrefused⟩ := hf a o.heap
    rw [andThen_of_ok _ _ hresult, next_of_ok hresult, ho.requests_of_ok hresult]
    refine ⟨?_, refused, ?_, hrefused⟩
    · rw [Record.updates_append, Update.replay_append ho.replay_eq]
      exact hreplay
    · dsimp only
      rw [hmore, Record.updates_append, List.append_assoc]

end Outcome

theorem Update.journals_ask (c : Nat) (h : Heap) (u : Update) : (ask c h u).Journals c h [u] := by
  obtain ⟨hredo, e, hask⟩ | ⟨v, h', hredo, hask⟩ := ask_cases c h u
  · rw [hask]
    refine ⟨rfl, some u, rfl, fun u' hu' => ?_⟩
    obtain rfl := Option.some.inj hu'
    exact ⟨hredo, e, rfl⟩
  · rw [hask]
    have hupdates : Record.updates [u.record] = [u] := by simp [Record.updates]
    refine ⟨?_, none, ?_, by simp⟩
    · rw [hupdates, replay_singleton, hredo]
    · rw [hupdates]
      rfl

/-! ## Runs -/

theorem Operator.journals_combine (op : Operator) (left right : Value) (c : Nat) (h : Heap) :
    (op.combine left right h).Journals c h [] := by
  refine Outcome.journals_of_heap_eq (op.heap_combine left right h) ?_
  unfold combine
  split <;> rfl

theorem Expr.journals_eval (e : Expr) (c : Nat) (h : Heap) :
    (e.eval c h).Journals c h (e.requests c h) := by
  fun_induction Expr.eval c e h with
  | case1 => exact Outcome.journals_of_heap_eq rfl rfl
  | case2 => exact Outcome.journals_of_heap_eq rfl rfl
  | case3 left op right span h ihleft ihright =>
    refine ihleft.andThen fun a h => ?_
    have hboth := (ihright h).andThen fun b h => op.journals_combine a b c h
    rwa [Outcome.next_nothing, List.append_nil] at hboth
  | case4 symbol _ value span h ih =>
    exact ih.andThen fun v h => (Update.journals_ask c h (.assign symbol v)).mapError _
  | case5 target value span h hname =>
    rw [requests]
    · exact Outcome.journals_of_heap_eq rfl rfl
    · exact hname

theorem Statement.journals_eval (st : Statement) (c : Nat) (h : Heap) :
    (st.eval c h).Journals c h (st.requests c h) := by
  match st with
  | .expression e _ => exact e.journals_eval c h
  | .declare name constant (some e) span =>
    exact (e.journals_eval c h).andThen fun v h =>
      (Update.journals_ask c h (.declare name v constant)).mapError _
  | .declare name constant none span =>
    exact (Update.journals_ask c h (.declare name .null constant)).mapError _

theorem Program.journals_evalFrom (p : Program) (c : Nat) (last : Value) (h : Heap) :
    (p.evalFrom c last h).Journals c h (p.requests c h) := by
  induction p generalizing last h with
  | nil => exact Outcome.journals_of_heap_eq rfl rfl
  | cons st p ih => exact (st.journals_eval c h).andThen fun v h => ih v h

/-- The journal of a program, replayed on the heap in which the program began, is granted update by
    update and leads to the heap in which it ended, whether with a value or with a fault. The
    updates that the program asked for are those in the journal, each of them once and in order, and
    after them at most one that was refused and with which the program failed. An update that is
    refused leaves the heap as it was and no record, and one that is granted leaves one record. -/
theorem Program.journal_replays (p : Program) (c : Nat) (h : Heap) :
    let run := p.eval c h
    Update.replay c h (Record.updates run.journal) = some run.heap ∧
      (∃ refused : Option Update,
        p.requests c h = Record.updates run.journal ++ refused.toList ∧
          ∀ u ∈ refused, Update.redo c run.heap u = none ∧ ∃ e, run.result = .error e) ∧
      ∀ (u : Update) (before : Heap),
        (Update.redo c before u = none ∧ ∃ e, u.ask c before = .fail e before) ∨
          ∃ v after, Update.redo c before u = some after ∧
            u.ask c before = ⟨.ok v, after, [u.record]⟩ := by
  intro run
  have hrun := p.journals_evalFrom c .null h
  exact ⟨hrun.replay_eq, hrun.exists_refused, fun u before => u.ask_cases c before⟩

end Quill
