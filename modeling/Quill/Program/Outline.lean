import Quill.Program
import Quill.Text.Quoted

/-!
# Outlines

What `execute` prints of a program when `show_ast` is set: the program laid out with one field a
line, four more spaces of indentation at each level, and a comma after every field. Blocks are given
as lists of lines, so that nesting is `map`ping an indentation over them.
-/

namespace Quill

namespace Outline

/-- Lines one level further in. -/
def indent (lines : List String) : List String := lines.map ("    " ++ ·)

/-- A comma after the last line. -/
def comma : List String → List String
  | [] => []
  | [line] => [line ++ ","]
  | line :: rest => line :: comma rest

/-- A field: its label before the first line of its value, and a comma after the last. -/
def field (label : String) : List String → List String
  | [] => []
  | line :: rest => comma ((label ++ ": " ++ line) :: rest)

/-- A record with a title and fields. -/
def record (title : String) (fields : List (List String)) : List String :=
  (title ++ " \x7b") :: indent fields.flatten ++ ["\x7d"]

/-- The outline of a truth value. -/
def flag (b : Bool) : List String := [Value.boolText b]

/-- The outline of a span. -/
def span (s : Span) : List String :=
  record "Span" [field "start" [toString s.start], field "end" [toString s.stop]]

/-- The outline of a number literal. -/
def literal (x : Float) : List String := [Number.text .literal x]

/-- The outline of an expression. -/
def expr : Expr → List String
  | .assign target value s =>
    record "Assignment" [field "assignee" (expr target), field "value" (expr value),
      field "span" (span s)]
  | .binary left op right s =>
    record "Binary" [field "left" (expr left), field "operator" [op.name],
      field "right" (expr right), field "span" (span s)]
  | .name symbol s =>
    record "Identifier" [field "symbol" [Text.quote symbol], field "span" (span s)]
  | .number value s =>
    record "NumericLiteral" [field "value" (literal value), field "span" (span s)]

/-- The outline of an initial value, if there is one. -/
def initial : Option Expr → List String
  | none => ["None"]
  | some e => "Some(" :: indent (comma (expr e)) ++ [")"]

/-- The outline of a statement. -/
def statement : Statement → List String
  | .declare name constant value s =>
    record "VarDeclaration" [field "identifier" [Text.quote name], field "constant" (flag constant),
      field "value" (initial value), field "span" (span s)]
  | .expression e s =>
    record "Expression" [field "expr" (expr e), field "span" (span s)]

/-- The outline of a program. -/
def program (p : Program) : List String :=
  record "Program"
    [field "body" <|
      if p.isEmpty then ["[]"]
      else "[" :: indent (p.map (fun st => comma (statement st))).flatten ++ ["]"]]

end Outline

/-- The outline of a program as text. -/
def Program.outline (p : Program) : String :=
  String.join ((Outline.program p).map (· ++ "\n"))

end Quill
