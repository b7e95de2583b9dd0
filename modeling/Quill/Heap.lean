import Quill.Fault
import Quill.Journal

/-!
# Scopes

A scope, an `Environment` of section 4.3 of the specification, binds names to values, some of them
constant, and may have a parent in which names that it does not bind are sought. A heap holds all
scopes of a session, numbered in the order in which they were made. A parent is always older than
its children; a link to a scope that is not older leads nowhere, so every search ends. No scopes are
left out by this: any scopes whose links end can be numbered parents first, and names are found
there as along the links (`Heap.Forest.exists_renumbers`, `Heap.Renumbers.lookup_eq`).

* `Heap.lookup`: the value of the nearest binding of a name.
* `Heap.assign`: changes the nearest binding, unless it is constant.
* `Heap.declare`: adds a binding to a scope that has none of the name.

The last two give an `Outcome`, which has the heap and the records of the change also when the
operation was refused.
-/

namespace Quill

/-- What a name is bound to, and whether that is for good. -/
structure Binding where
  value : Value
  constant : Bool
deriving DecidableEq, Inhabited

/-- Names with their bindings, and the scope around this one. -/
structure Scope where
  bindings : List (String × Binding)
  parent : Option Nat
deriving DecidableEq, Inhabited

namespace Scope

/-- A scope that binds nothing (`new`, and `with_parent` if there is one). -/
def empty (parent : Option Nat) : Scope := ⟨[], parent⟩

/-- The outermost scope of a program, in which the words for truth values and for null are
    constants (`global`). -/
def globals : Scope :=
  ⟨[("true", ⟨.boolean true, true⟩), ("false", ⟨.boolean false, true⟩), ("null", ⟨.null, true⟩)],
    none⟩

/-- What a name is bound to in this scope itself. -/
def find? (s : Scope) (name : String) : Option Binding := s.bindings.lookup name

/-- Adds a binding. -/
def bind (s : Scope) (name : String) (b : Binding) : Scope :=
  { s with bindings := (name, b) :: s.bindings }

/-- Gives a bound name another value. -/
def rebind (s : Scope) (name : String) (value : Value) : Scope :=
  { s with
    bindings := s.bindings.map fun entry =>
      if entry.1 = name then (entry.1, { entry.2 with value := value }) else entry }

end Scope

/-- All scopes, the oldest first. -/
structure Heap where
  scopes : List Scope
deriving DecidableEq, Inhabited

/-- What an operation on a heap comes to: its result, the heap it leaves and the records it wrote,
    the oldest first. Heap and records are there whether it succeeded or not. -/
structure Outcome (ε α : Type) where
  result : Except ε α
  heap : Heap
  journal : List Record

namespace Outcome

variable {ε ε' α β : Type}

/-- Success without a change. -/
def done (a : α) (h : Heap) : Outcome ε α := ⟨.ok a, h, []⟩

/-- Failure without a change. -/
def fail (e : ε) (h : Heap) : Outcome ε α := ⟨.error e, h, []⟩

/-- Goes on with the result and the heap, unless there was a failure. -/
def andThen (o : Outcome ε α) (f : α → Heap → Outcome ε β) : Outcome ε β :=
  match o.result with
  | .ok a =>
    let next := f a o.heap
    ⟨next.result, next.heap, o.journal ++ next.journal⟩
  | .error e => ⟨.error e, o.heap, o.journal⟩

/-- Restates the cause of a failure. -/
def mapError (f : ε → ε') (o : Outcome ε α) : Outcome ε' α :=
  ⟨o.result.mapError f, o.heap, o.journal⟩

end Outcome

namespace Heap

/-- The heap of a fresh program: scope 0 holds the globals. -/
def initial : Heap := ⟨[.globals]⟩

/-- Adds a scope, whose number is that of all scopes before. -/
def add (h : Heap) (s : Scope) : Heap := ⟨h.scopes ++ [s]⟩

/-- Changes one scope. -/
def modify (h : Heap) (c : Nat) (f : Scope → Scope) : Heap := ⟨h.scopes.modify c f⟩

/-- The value of the nearest binding of a name, seen from scope `c` (`lookup_var`). -/
def lookup (h : Heap) (c : Nat) (name : String) : Except NameFault Value :=
  match h.scopes[c]? with
  | none => .error (.undefined name)
  | some s =>
    match s.find? name with
    | some b => .ok b.value
    | none =>
      match s.parent with
      | none => .error (.undefined name)
      | some p => if p < c then h.lookup p name else .error (.undefined name)
termination_by c

/-- Gives the nearest binding of a name, seen from scope `c`, another value (`assign_var`). A
    constant is not passed over: it refuses, whatever the scopes around it bind. -/
def assign (h : Heap) (c : Nat) (name : String) (value : Value) : Outcome NameFault Value :=
  match h.scopes[c]? with
  | none => .fail (.undefined name) h
  | some s =>
    match s.find? name with
    | some b =>
      if b.constant then .fail (.constant name) h
      else ⟨.ok value, h.modify c (·.rebind name value), [.assigned name value]⟩
    | none =>
      match s.parent with
      | none => .fail (.undefined name) h
      | some p => if p < c then h.assign p name value else .fail (.undefined name) h
termination_by c

/-- Binds a name in scope `c` itself, which must not bind it yet (`declare_var`). -/
def declare (h : Heap) (c : Nat) (name : String) (value : Value) (constant : Bool) :
    Outcome NameFault Value :=
  match h.scopes[c]? with
  | none => .fail (.undefined name) h
  | some s =>
    match s.find? name with
    | some _ => .fail (.alreadyDeclared name) h
    | none =>
      ⟨.ok value, h.modify c (·.bind name ⟨value, constant⟩), [.declared name value constant]⟩

end Heap

end Quill
