import Quill.Grammar.Phrase
import Quill.Meaning
import Quill.Program.Outline
import Quill.Token.Scan

/-!
# Scripts

A source text is scanned, read and evaluated in one scope of a heap (section 2 of the specification,
the runner). Each stage runs only if the one before succeeded, and what has been printed and noted
down up to a fault stays.
-/

namespace Quill

/-- What is printed on top of evaluating a text (`RunOptions`). -/
structure Listing where
  tokens : Bool
  outline : Bool
deriving DecidableEq, Repr, Inhabited

/-- The program that a text writes (`parse_program`). -/
def Program.ofSource (source : String) : Except Fault Program :=
  (Token.ofSource source).bind Program.ofTokens

/-- One line for each token: its kind and its text. -/
def Token.listing (tokens : List Token) : String :=
  String.join (tokens.map fun t => t.kind.name ++ " " ++ Text.quote t.text ++ "\n")

namespace Script

/-- What executing a text comes to, and what it printed. -/
structure Execution extends Outcome Fault Value where
  printed : String

/-- Executes the program that some tokens make: the second half of `execute`. -/
def executeTokens (listing : Listing) (tokens : List Token) (c : Nat) (h : Heap) : Execution :=
  match Program.ofTokens tokens with
  | .error fault => ⟨.fail fault h, ""⟩
  | .ok program =>
    let run := program.eval c h
    ⟨⟨run.result, run.heap, .parsed program.length :: run.journal⟩,
      if listing.outline then program.outline else ""⟩

/-- Executes a text in scope `c` (`execute`). -/
def execute (listing : Listing) (source : String) (c : Nat) (h : Heap) : Execution :=
  match Token.scan source with
  | ⟨tokens, some fault⟩ => ⟨⟨.error fault, h, Record.ofTokens tokens⟩, ""⟩
  | ⟨tokens, none⟩ =>
    let run := executeTokens listing tokens c h
    ⟨⟨run.result, run.heap, Record.ofTokens tokens ++ .scanned tokens.length :: run.journal⟩,
      (if listing.tokens then Token.listing tokens else "") ++ run.printed⟩

/-- What running a script comes to: its value if it has one, and what it wrote to the two
    streams. -/
structure Run where
  value : Option Value
  out : String
  err : String

/-- Runs a script in a fresh heap and reports its fault, if any, in the given way (`run`). -/
def runWith (report : Reporter) (listing : Listing) (source : String) (file : Option String) :
    Run :=
  let execution := execute listing source 0 .initial
  match execution.result with
  | .ok value => ⟨some value, execution.printed, ""⟩
  | .error fault => ⟨none, execution.printed, report fault.problem source file⟩

end Script

end Quill
