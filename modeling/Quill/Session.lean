import Quill.Script

/-!
# Sessions

A session works on a heap step by step, in any order, with the operations that the library offers:
it executes texts (`execute`) and trees (`evaluate_program`, `execute_statement`,
`evaluate_expression`), uses names directly (`declare_var`, `assign_var`, `lookup_var`), and makes
scopes (`new`, `global`, `with_parent`). A step that fails leaves the heap as far as it got.
-/

namespace Quill.Session

/-- Where a step is evaluated: in a numbered scope, or in globals of its own that are dropped
    afterwards. -/
inductive Place where
  | scope (c : Nat)
  | fresh
deriving DecidableEq, Repr

/-- A step of a session. -/
inductive Step where
  | execute (source : String) (c : Nat)
  | program (p : Program) (c : Nat)
  | statement (st : Statement) (place : Place)
  | expr (e : Expr) (place : Place)
  | declare (name : String) (value : Value) (constant : Bool) (c : Nat)
  | assign (name : String) (value : Value) (c : Nat)
  | lookup (name : String) (c : Nat)
  | newScope
  | newGlobals
  | newChild (c : Nat)

/-- What a step answers. -/
inductive Answer where
  | value (v : Value)
  | fault (e : Fault)
  | nameFault (e : NameFault)
  | scope (c : Nat)
deriving DecidableEq

/-- The answer to an evaluation. -/
def Answer.ofResult : Except Fault Value → Answer
  | .ok v => .value v
  | .error e => .fault e

/-- The answer to the use of a name. -/
def Answer.ofNameResult : Except NameFault Value → Answer
  | .ok v => .value v
  | .error e => .nameFault e

/-- The answer of an outcome, and its heap. -/
def ofOutcome (o : Outcome Fault Value) : Answer × Heap := (.ofResult o.result, o.heap)

/-- The answer of using a name, and the heap after it. -/
def ofNameOutcome (o : Outcome NameFault Value) : Answer × Heap := (.ofNameResult o.result, o.heap)

/-- Evaluates at a place. -/
def evalAt (place : Place) (f : Nat → Heap → Outcome Fault Value) (h : Heap) : Answer × Heap :=
  match place with
  | .scope c => ofOutcome (f c h)
  | .fresh => (.ofResult (f 0 .initial).result, h)

/-- Adds a scope and answers its number. -/
def addScope (h : Heap) (s : Scope) : Answer × Heap := (.scope h.scopes.length, h.add s)

/-- Takes a step. -/
def step (h : Heap) : Step → Answer × Heap
  | .execute source c => ofOutcome (Script.execute ⟨false, false⟩ source c h).toOutcome
  | .program p c => ofOutcome (p.eval c h)
  | .statement st place => evalAt place (fun c h => st.eval c h) h
  | .expr e place => evalAt place (fun c h => e.eval c h) h
  | .declare name value constant c => ofNameOutcome (h.declare c name value constant)
  | .assign name value c => ofNameOutcome (h.assign c name value)
  | .lookup name c => (.ofNameResult (h.lookup c name), h)
  | .newScope => addScope h (.empty none)
  | .newGlobals => addScope h .globals
  | .newChild c => addScope h (.empty (some c))

/-- Takes steps one after the other, with the answer and the heap after each. -/
def run (h : Heap) : List Step → List (Answer × Heap)
  | [] => []
  | s :: rest =>
    let after := step h s
    after :: run after.2 rest

end Quill.Session
