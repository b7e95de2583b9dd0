import Quill.Command.Arguments
import Quill.Command.Files
import Quill.Diagnostic
import Quill.Dialogue

/-!
# The command

Section 6 of the specification, the binary. With a file the command runs it and prints its value;
without one, or when asked to be interactive, it holds a dialogue on its input. It leaves with 0,
with 1 when the file could not be read or run, and with 2 when it was misused.
-/

namespace Quill

/-- Runs a script and draws its fault, if any (`run`). -/
def Script.run (listing : Listing) (source : String) (file : Option String) : Script.Run :=
  runWith Problem.report listing source file

namespace Command

/-- How the command leaves, and what it wrote to the two streams. -/
structure Exit where
  code : Nat
  out : String
  err : String

/-- The usage line. -/
def usage : String := "Usage: quill [OPTIONS] [FILE]\n"

/-- The help text. -/
def help : String :=
  "Interpreter for the Quill expression language\n\n" ++ usage ++
    "\nArguments:\n" ++
    "  [FILE]  The script file to execute\n" ++
    "\nOptions:\n" ++
    "  -i, --interactive  Start in interactive REPL mode\n" ++
    "      --tokens       Print the token stream before evaluating\n" ++
    "      --ast          Print the parsed program before evaluating\n" ++
    "  -h, --help         Print help\n"

/-- What the request asks to be printed. -/
def Request.listing (r : Request) : Listing := ⟨r.tokens, r.outline⟩

/-- The text of a file. -/
def decodeFile (contents : Except ReadFault (List UInt8)) : Except ReadFault String :=
  contents.bind fun bytes =>
    match Dialogue.decode bytes with
    | some source => .ok source
    | none => .error .notText

/-- The exit for a file that could not be read. -/
def unreadable (path reason : String) : Exit :=
  ⟨1, "", "Error reading file '" ++ path ++ "': " ++ reason ++ "\n"⟩

/-- Runs the text of the file at a path. -/
def runSource (listing : Listing) (path source : String) : Exit :=
  let run := Script.run listing source (some path)
  match run.value with
  | some value => ⟨0, run.out ++ value.text ++ "\n", run.err⟩
  | none => ⟨1, run.out, run.err⟩

/-- Runs a file, given what reading it gave (`run_file`). -/
def runFile (listing : Listing) (path : String) (contents : Except ReadFault (List UInt8)) : Exit :=
  match decodeFile contents with
  | .ok source => runSource listing path source
  | .error fault => unreadable path fault.reason

/-- Holds a dialogue on an input (`start`). -/
def runDialogue (listing : Listing) (input : List UInt8) : Exit :=
  let conversation := Dialogue.converse Problem.report listing .initial (Dialogue.linesOf input)
  ⟨0, conversation.out, conversation.err⟩

/-- The file to run, if the request is for one. -/
def Request.script? (r : Request) : Option String := if r.interactive then none else r.file

/-- The whole command on some files and an input (`main`). -/
def run (arguments : List String) (files : Files) (input : List UInt8) : Exit :=
  match Intent.ofArguments arguments with
  | .misuse => ⟨2, "", usage⟩
  | .help => ⟨0, help, ""⟩
  | .run request =>
    match request.script? with
    | some path => runFile request.listing path (files.read path)
    | none => runDialogue request.listing input

end Command

end Quill
