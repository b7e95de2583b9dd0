import Quill.Heap
import Quill.Program

/-!
# What programs mean

Evaluation runs in one scope of a heap and changes the heap as it goes: operands from left to
right, the value of an assignment before the assignment itself. It stops at the first fault and
keeps the changes made before it. These are the rules of section 4.4 of the specification.
-/

namespace Quill

/-- What an operator makes of two values: a number of two numbers, and null of anything else
    (`evaluate_binary_op`). -/
def Operator.combine (op : Operator) (left right : Value) (h : Heap) : Outcome Fault Value :=
  match left.asNumber?, right.asNumber? with
  | some x, some y => .done (.number (op.apply x y)) h
  | _, _ => ⟨.ok .null, h, [.notNumeric left op right]⟩

/-- Evaluates an expression in scope `c` (`evaluate_expression`, `evaluate_assignment`). An
    assignment to anything but a name is refused before its value is looked at. -/
def Expr.eval (c : Nat) : Expr → Heap → Outcome Fault Value
  | .number x _, h => .done (.number x) h
  | .name symbol span, h => ⟨(h.lookup c symbol).mapError (.binding · span), h, []⟩
  | .binary left op right _, h =>
    (left.eval c h).andThen fun a h =>
      (right.eval c h).andThen fun b h => op.combine a b h
  | .assign (.name symbol _) value span, h =>
    (value.eval c h).andThen fun v h => (h.assign c symbol v).mapError (.binding · span)
  | .assign target _ _, h => .fail (.badTarget target.span) h

/-- Executes a statement in scope `c` (`execute_statement`). A declaration without a value declares
    null. -/
def Statement.eval (c : Nat) : Statement → Heap → Outcome Fault Value
  | .expression e _, h => e.eval c h
  | .declare name constant value span, h =>
    let initial :=
      match value with
      | some e => e.eval c h
      | none => .done .null h
    initial.andThen fun v h => (h.declare c name v constant).mapError (.binding · span)

namespace Program

/-- Executes statements one after the other: the loop of `evaluate_program`. The value is that of
    the last one, or `last` if there is none. -/
def evalFrom (c : Nat) : Program → Value → Heap → Outcome Fault Value
  | [], last, h => .done last h
  | statement :: rest, _, h =>
    (statement.eval c h).andThen fun v h => evalFrom c rest v h

/-- Executes a program (`evaluate_program`). -/
def eval (c : Nat) (p : Program) (h : Heap) : Outcome Fault Value :=
  let run := p.evalFrom c .null h
  ⟨run.result, run.heap, .evaluating p.length :: run.journal⟩

end Program

end Quill
