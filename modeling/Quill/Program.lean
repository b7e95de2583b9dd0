import Quill.Span
import Quill.Value

/-!
# Programs

The trees that texts are read into (section 3 of the specification). Parentheses leave no trace in
them.
-/

namespace Quill

/-- An expression. The target of an assignment may be any expression; evaluation refuses all but
    names. -/
inductive Expr where
  | assign (target value : Expr) (span : Span)
  | binary (left : Expr) (op : Operator) (right : Expr) (span : Span)
  | name (symbol : String) (span : Span)
  | number (value : Float) (span : Span)
deriving DecidableEq, Inhabited

/-- The span of an expression. -/
def Expr.span : Expr → Span
  | .assign _ _ span => span
  | .binary _ _ _ span => span
  | .name _ span => span
  | .number _ span => span

/-- Joins two operands, spanning both (`binary`). -/
def Expr.join (left : Expr) (op : Operator) (right : Expr) : Expr :=
  .binary left op right (left.span.hull right.span)

/-- Assigns to a target, spanning target and value (the end of `parse_assignment_expr`). -/
def Expr.assigned (target value : Expr) : Expr :=
  .assign target value (target.span.hull value.span)

/-- A statement: a declaration, perhaps with an initial value, or an expression on its own. -/
inductive Statement where
  | declare (name : String) (constant : Bool) (value : Option Expr) (span : Span)
  | expression (expr : Expr) (span : Span)
deriving DecidableEq, Inhabited

/-- A program is a sequence of statements. -/
abbrev Program := List Statement

end Quill
