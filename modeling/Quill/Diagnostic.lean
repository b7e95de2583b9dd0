import Quill.Fault
import Quill.Text.Blank
import Quill.Text.Width

/-!
# Diagnostics

A problem is drawn against its source: a heading, the place, the lines that hold the first and the
last character of the span, an arrow from the span to the message, and a note with the help.

    Error: Syntax Error: message
       ╭─[name:line:column]
       │
     1 │ source line
       │ ──┬──
       │   ╰──── message
       │
       │ Note: help: advice
    ───╯

Colours are written as escape sequences. The span is first clamped to the source, and lines are
numbered from one. Clamping is the work of `report`; the drawing is that of the library to which
`report` hands the problem. What evaluates texts and holds dialogues takes any `Reporter` in its
place.
-/

namespace Quill

namespace Diagnostic

/-! ## Lines -/

/-- A line of a source, with the offset of its first character. The characters that end it belong
    to it. -/
structure Line where
  start : Nat
  chars : List Char
deriving DecidableEq, Repr, Inhabited

/-- Whether a character ends a line. A carriage return and a line feed after it are one ending. -/
def endsLine (c : Char) : Bool :=
  c = '\n' || c = '\r' || c.toNat = 0x0B || c.toNat = 0x0C || c.toNat = 0x85 ||
    c.toNat = 0x2028 || c.toNat = 0x2029

/-- Cuts the characters after the first `start` ones into lines. `taken` holds what the current
    line has so far, its last character first. -/
def linesFrom (start : Nat) (taken : List Char) : List Char → List Line
  | [] => if taken.isEmpty then [] else [⟨start, taken.reverse⟩]
  | '\r' :: '\n' :: rest =>
    let line := ('\n' :: '\r' :: taken).reverse
    ⟨start, line⟩ :: linesFrom (start + line.length) [] rest
  | c :: rest =>
    if endsLine c then
      let line := (c :: taken).reverse
      ⟨start, line⟩ :: linesFrom (start + line.length) [] rest
    else linesFrom start (c :: taken) rest

/-- The lines of a source. -/
def linesOf (source : List Char) : List Line := linesFrom 0 [] source

/-- The number, from zero, of the line that holds an offset. Offsets past the end belong to the
    last line. -/
def lineIndex (lines : List Line) (offset : Nat) : Nat :=
  (lines.takeWhile fun line => line.start ≤ offset).length - 1

/-- What is drawn of a line: all but the blanks at its end. -/
def Line.drawn (line : Line) : List Char := Text.trimEnd line.chars

/-! ## Strokes -/

/-- A text in a colour. -/
def paint (colour : String) (s : String) : String := "\x1b[" ++ colour ++ "m" ++ s ++ "\x1b[0m"

/-- The colour of frames and line numbers. -/
def frameColour : String := "38;5;246"

/-- The colour of the frame beside lines without a number. -/
def marginColour : String := "38;5;240"

/-- The colour of source text outside the span. -/
def sourceColour : String := "38;5;249"

/-- A text repeated. -/
def times (n : Nat) (s : String) : String := String.join (List.replicate n s)

/-- The title of a category and its colour. -/
def heading : Category → String × String
  | .lexical => ("Lexical Error", "31")
  | .grammatical => ("Syntax Error", "33")
  | .binding => ("Binding Error", "35")
  | .evaluation => ("Evaluation Error", "34")

/-- How many columns a character takes in column `col` of its line. A tab runs to the next multiple
    of four. -/
def cellWidth (c : Char) (col : Nat) : Nat :=
  if c = '\t' then 4 - col % 4
  else if Text.isBlank c then 1
  else Text.width c

/-- What a stroke draws in the first column of a character, and in each further one. -/
structure Stroke where
  first : String
  further : String

/-- An empty stroke. -/
def Stroke.none : Stroke := ⟨" ", " "⟩

/-- A stroke of one colour. -/
def Stroke.painted (colour first further : String) : Stroke :=
  ⟨paint colour first, paint colour further⟩

/-- The widths of the first `count` characters of a line as drawn; past its end they are one. -/
def cellWidths (line : Line) (count : Nat) : List Nat :=
  let cells := line.drawn.zipIdx.map fun (c, col) => cellWidth c col
  cells.take count ++ List.replicate (count - cells.length) 1

/-- Draws a stroke under each of the first `count` characters of a line. -/
def row (line : Line) (count : Nat) (stroke : Nat → Stroke) : String :=
  String.join <| (cellWidths line count).zipIdx.map fun (width, col) =>
    if width = 0 then "" else (stroke col).first ++ times (width - 1) (stroke col).further

/-- What is drawn, and where it points. -/
structure Scene where
  colour : String
  start : Nat
  stop : Nat
  /-- How many digits the largest line number has. -/
  digits : Nat

namespace Scene

/-- Whether an offset lies in the span. -/
def covers (s : Scene) (offset : Nat) : Bool := s.start ≤ offset && offset < s.stop

/-- The text of a line, the span in its colour. A blank is drawn as spaces. -/
def text (s : Scene) (line : Line) : String :=
  String.join (line.drawn.zipIdx.map fun (c, col) =>
    let colour := if s.covers (line.start + col) then s.colour else sourceColour
    if Text.isBlank c then times (cellWidth c col) (paint colour " ")
    else paint colour c.toString) ++ "\n"

/-- The margin of a line with its number. -/
def numbered (s : Scene) (index : Nat) : String :=
  let number := toString (index + 1)
  " " ++ paint frameColour (times (s.digits - number.length) " " ++ number ++ " │") ++ " "

/-- The margin of a line without a number. -/
def margin (s : Scene) (bar : String) : String :=
  " " ++ paint marginColour (times (s.digits + 1) " " ++ bar) ++ " "

/-- A piece of the drawing in the problem's colour. -/
def mark (s : Scene) (piece : String) : String := paint s.colour piece

/-- The stroke that underlines the span and starts the arrow at column `arrow`. -/
def underline (s : Scene) (line : Line) (arrow col : Nat) : Stroke :=
  match s.covers (line.start + col), col == arrow with
  | true, true => .painted s.colour "┬" "─"
  | false, true => .painted s.colour "│" " "
  | true, false => .painted s.colour "─" "─"
  | false, false => .none

/-- The stroke that leads the arrow from column `arrow` to the message. -/
def lead (s : Scene) (arrow col : Nat) : Stroke :=
  if col = arrow then .painted s.colour "╰" "─"
  else if arrow < col then .painted s.colour "─" "─"
  else .none

/-- The drawing of a span within one line. -/
def oneLine (s : Scene) (line : Line) (index : Nat) (message : String) : String :=
  let arrow := (s.start + s.stop) / 2 - line.start
  let count := s.stop - line.start + 2
  s.numbered index ++ s.text line ++
    s.margin "│" ++ row line count (s.underline line arrow) ++ "\n" ++
    s.margin "│" ++ row line count (s.lead arrow) ++ " " ++ message ++ "\n"

/-- The drawing of a span that runs from one line to another. -/
def manyLines (s : Scene) (lines : List Line) (first last : Nat) (message : String) : String :=
  let firstLine := lines.getD first default
  let lastLine := lines.getD last default
  let count := lastLine.chars.length + 2
  s.numbered first ++ s.mark "╭" ++ s.mark "─" ++ s.mark "▶" ++ s.mark " " ++ s.text firstLine ++
    (if first + 1 < last then s.margin "┆" ++ s.mark "┆" ++ "   \n" else "") ++
    s.numbered last ++ s.mark "├" ++ s.mark "─" ++ s.mark "▶" ++ s.mark " " ++ s.text lastLine ++
    s.margin "│" ++ s.mark "│" ++ "   " ++ row lastLine count (fun _ => .none) ++ "\n" ++
    s.margin "│" ++ s.mark "╰" ++ times 3 (s.mark "─") ++
      row lastLine count (fun _ => .painted s.colour "─" "─") ++ " " ++ message ++ "\n"

/-- What stands between margin and note. After a span of many lines there is room for its bar,
    which is drawn on when the span starts where the second line of the source does. -/
def noteIndent (s : Scene) (lines : List Line) (first last : Nat) : String :=
  if first = last then ""
  else if (lines[1]?).map Line.start = some s.start then s.mark "│" ++ "   "
  else "    "

/-- The note with the help. -/
def note (s : Scene) (indent : String) (help : String) : String :=
  s.margin "│" ++ indent ++ "\n" ++
    s.margin "│" ++ indent ++ paint "38;5;115" "Note" ++ ": " ++ paint "36" "help" ++ ": " ++
      help ++ "\n"

end Scene

end Diagnostic

/-- A problem with its span kept within its source (the first lines of `report`). -/
def Problem.clamped (p : Problem) (source : String) : Problem :=
  let start := min p.span.start source.length
  { p with span := ⟨start, min (max p.span.stop start) source.length⟩ }

open Diagnostic in
/-- Draws a problem whose span lies within its source. Without lines there is nothing but the
    heading. -/
def Problem.draw (p : Problem) (source : String) (file : Option String) : String :=
  let (title, colour) := heading p.category
  let lines := linesOf source.toList
  let start := p.span.start
  let stop := p.span.stop
  let head := paint "31" "Error:" ++ " " ++ paint colour title ++ ": " ++ p.message ++ "\n"
  if lines.isEmpty then head
  else
    let first := lineIndex lines start
    let last := lineIndex lines (max (stop - 1) start)
    let scene : Scene := ⟨colour, start, stop, (toString (last + 1)).length⟩
    let firstLine := lines.getD first default
    let gap := times (scene.digits + 2) " "
    let place := file.getD "<repl>" ++ ":" ++ toString (first + 1) ++ ":" ++
      toString (start - firstLine.start + 1)
    let body :=
      if first = last then scene.oneLine firstLine first p.message
      else scene.manyLines lines first last p.message
    let help :=
      match p.help with
      | none => ""
      | some advice => scene.note (scene.noteIndent lines first last) advice
    head ++
      gap ++ paint frameColour "╭" ++ paint frameColour "─" ++ paint frameColour "[" ++ place ++
        paint frameColour "]" ++ "\n" ++
      gap ++ paint frameColour "│" ++ "\n" ++
      body ++ help ++
      paint frameColour (times (scene.digits + 2) "─" ++ "╯") ++ "\n"

/-- Draws a problem against its source (`report`). -/
def Problem.report (p : Problem) (source : String) (file : Option String) : String :=
  (p.clamped source).draw source file

end Quill
