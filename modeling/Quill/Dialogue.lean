import Quill.Script
import Quill.Text.Blank

/-!
# Dialogues

A dialogue reads lines and answers each, all of them in one heap (section 6 of the specification).
Blank lines are passed over, `exit` and `quit` end it, and so does a line that is not valid text.
How a fault is reported is a parameter, of which nothing is asked.
-/

namespace Quill.Dialogue

/-- What is written before the first prompt. -/
def banner : String := "Quill v0.1.0\nType 'exit' or press Ctrl+D to quit\n\n"

/-- What is written before each line is read. -/
def prompt : String := "> "

/-- How a dialogue ends. -/
inductive Ending where
  /-- There are no more lines. -/
  | inputOver
  /-- A line asked for it. -/
  | farewell
  /-- A line was not valid text. -/
  | garbled
deriving DecidableEq, Repr

/-- What is written to the first stream at the end. -/
def Ending.out : Ending → String
  | .inputOver => "\n"
  | .farewell => "Goodbye!\n"
  | .garbled => ""

/-- What is written to the second stream at the end. -/
def Ending.err : Ending → String
  | .garbled => "Error reading input: stream did not contain valid UTF-8\n"
  | _ => ""

/-- What answers a line: what is written to the two streams, and the heap afterwards. -/
structure Reply where
  out : String
  err : String
  heap : Heap

/-- The text of a line, without the blanks around it. -/
def textOf (line : String) : String := String.ofList (Text.trim line.toList)

/-- Whether a text asks to leave. -/
def leaves (text : String) : Bool := text = "exit" || text = "quit"

/-- Answers a text (one round of `start`). An empty one has no answer. -/
def reply (report : Reporter) (listing : Listing) (h : Heap) (text : String) : Reply :=
  if text = "" then ⟨"", "", h⟩
  else
    let execution := Script.execute listing text 0 h
    match execution.result with
    | .ok value => ⟨execution.printed ++ value.text ++ "\n", "", execution.heap⟩
    | .error fault => ⟨execution.printed, report fault.problem text none, execution.heap⟩

/-- The answers to some lines, and how they end the dialogue. -/
structure Conversation where
  replies : List Reply
  ending : Ending

/-- Answers lines until one ends the dialogue or there are no more: the loop of `start`. A line is
    `none` when it is not valid text. -/
def converse (report : Reporter) (listing : Listing) (h : Heap) :
    List (Option String) → Conversation
  | [] => ⟨[], .inputOver⟩
  | none :: _ => ⟨[], .garbled⟩
  | some line :: rest =>
    if leaves (textOf line) then ⟨[], .farewell⟩
    else
      let answer := reply report listing h (textOf line)
      let others := converse report listing answer.heap rest
      ⟨answer :: others.replies, others.ending⟩

/-- What is written to the first stream: each answer, and the ending, after a prompt. -/
def Conversation.out (c : Conversation) : String :=
  banner ++ String.join (c.replies.map fun answer => prompt ++ answer.out) ++ prompt ++
    c.ending.out

/-- What is written to the second stream. -/
def Conversation.err (c : Conversation) : String :=
  String.join (c.replies.map Reply.err) ++ c.ending.err

/-- Cuts bytes after each line feed. `taken` holds what the current line has so far, its last byte
    first. -/
def cutLines (taken : List UInt8) : List UInt8 → List (List UInt8)
  | [] => if taken.isEmpty then [] else [taken.reverse]
  | b :: rest =>
    if b = 10 then (b :: taken).reverse :: cutLines [] rest else cutLines (b :: taken) rest

/-- The text that some bytes encode, if they do. -/
def decode (bytes : List UInt8) : Option String := String.fromUTF8? ⟨bytes.toArray⟩

/-- The lines of an input (as `read_line` cuts them). -/
def linesOf (input : List UInt8) : List (Option String) := (cutLines [] input).map decode

end Quill.Dialogue
