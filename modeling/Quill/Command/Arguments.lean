/-!
# Arguments

A command line names at most one file and sets flags. Arguments are taken from left to right;
asking for help ends that at once, and so does the first misuse: an unknown flag, a flag with a
value, a flag given twice, or a second file. Flags of one letter may stand together behind one
dash, and after `--` nothing is a flag.
-/

namespace Quill.Command

/-- What a command line asks for. -/
structure Request where
  file : Option String
  interactive : Bool
  tokens : Bool
  outline : Bool
deriving DecidableEq, Repr, Inhabited

/-- A command line that asks for nothing. -/
def Request.blank : Request := ⟨none, false, false, false⟩

/-- How a command line is understood. -/
inductive Intent where
  | run (request : Request)
  | help
  | misuse
deriving DecidableEq, Repr

/-- The flags. -/
inductive Flag where
  | interactive
  | tokens
  | outline
  | help
deriving DecidableEq, Repr

/-- The flag with a long name. -/
def Flag.ofLong? : String → Option Flag
  | "--interactive" => some .interactive
  | "--tokens" => some .tokens
  | "--ast" => some .outline
  | "--help" => some .help
  | _ => none

/-- The flag with a letter. -/
def Flag.ofLetter? : Char → Option Flag
  | 'i' => some .interactive
  | 'h' => some .help
  | _ => none

/-- Sets a flag, or ends the reading of arguments. -/
def Request.set (r : Request) : Flag → Except Intent Request
  | .interactive => if r.interactive then .error .misuse else .ok { r with interactive := true }
  | .tokens => if r.tokens then .error .misuse else .ok { r with tokens := true }
  | .outline => if r.outline then .error .misuse else .ok { r with outline := true }
  | .help => .error .help

/-- Sets the flags of some letters. -/
def Request.setLetters (r : Request) : List Char → Except Intent Request
  | [] => .ok r
  | c :: rest =>
    match Flag.ofLetter? c with
    | some flag => (r.set flag).bind fun r => r.setLetters rest
    | none => .error .misuse

/-- Names the file. -/
def Request.setFile (r : Request) (path : String) : Except Intent Request :=
  match r.file with
  | none => .ok { r with file := some path }
  | some _ => .error .misuse

/-- Takes one argument that stands before `--`. A single dash is a file. -/
def Request.take (r : Request) (argument : String) : Except Intent Request :=
  match argument.toList with
  | '-' :: '-' :: _ =>
    match Flag.ofLong? argument with
    | some flag => r.set flag
    | none => .error .misuse
  | '-' :: c :: rest => r.setLetters (c :: rest)
  | _ => r.setFile argument

/-- Takes arguments one after the other. -/
def Request.takeAll (r : Request) : List String → Except Intent Request
  | [] => .ok r
  | argument :: rest =>
    if argument = "--" then rest.foldlM Request.setFile r
    else (r.take argument).bind fun r => r.takeAll rest

/-- Understands a command line. -/
def Intent.ofArguments (arguments : List String) : Intent :=
  match Request.blank.takeAll arguments with
  | .ok request => .run request
  | .error intent => intent

end Quill.Command
