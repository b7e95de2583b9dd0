import Quill.Command

/-!
# The program

Connects the command to the file system and to the standard streams (`main`). A dialogue is held
line by line, as `start` does, so that each prompt is seen before its line is read.
-/

namespace Quill.Terminal

/-- Writes what a step produced to the two streams. -/
def emit (out err : String) : IO Unit := do
  let stdout ← IO.getStdout
  stdout.putStr out
  stdout.flush
  (← IO.getStderr).putStr err

/-- Reads bytes up to and including a line feed, or up to the end of the input. -/
partial def readLineBytes (input : IO.FS.Stream) (taken : List UInt8) : IO (List UInt8) := do
  let chunk ← input.read 1
  match chunk.toList with
  | [] => pure taken.reverse
  | b :: _ => if b = 10 then pure (b :: taken).reverse else readLineBytes input (b :: taken)

/-- Ends a dialogue. -/
def endDialogue (ending : Dialogue.Ending) : IO Unit := emit ending.out ending.err

/-- Goes on with a dialogue. -/
partial def holdDialogue (listing : Listing) (h : Heap) : IO Unit := do
  emit Dialogue.prompt ""
  let bytes ← readLineBytes (← IO.getStdin) []
  if bytes.isEmpty then endDialogue .inputOver
  else
    match Dialogue.decode bytes with
    | none => endDialogue .garbled
    | some line =>
      if Dialogue.leaves (Dialogue.textOf line) then endDialogue .farewell
      else
        let answer := Dialogue.reply Problem.report listing h (Dialogue.textOf line)
        emit answer.out answer.err
        holdDialogue listing answer.heap

/-- What reading a file from the file system gives: its bytes, or the reason why not. The one
    argument that opening a file can find invalid is a path that is too long. -/
def readFile (path : String) : IO (Except String (List UInt8)) := do
  try
    let bytes ← IO.FS.readBinFile path
    pure (.ok bytes.toList)
  catch e =>
    match e with
    | .noFileOrDirectory .. => pure (.error Command.ReadFault.noSuchFile.reason)
    | .inappropriateType _ 21 _ => pure (.error Command.ReadFault.isDirectory.reason)
    | .inappropriateType .. => pure (.error Command.ReadFault.notDirectory.reason)
    | .invalidArgument .. => pure (.error Command.ReadFault.nameTooLong.reason)
    | other => pure (.error (toString other))

/-- Writes what the command produced and leaves with its code. -/
def leave (exit : Command.Exit) : IO UInt32 := do
  emit exit.out exit.err
  pure exit.code.toUInt32

end Quill.Terminal

open Quill Quill.Terminal in
/-- The program. -/
def main (arguments : List String) : IO UInt32 := do
  match Command.Intent.ofArguments arguments with
  | .misuse => leave ⟨2, "", Command.usage⟩
  | .help => leave ⟨0, Command.help, ""⟩
  | .run request =>
    match request.script? with
    | some path =>
      match ← readFile path with
      | .ok bytes => leave (Command.runFile request.listing path (.ok bytes))
      | .error reason => leave (Command.unreadable path reason)
    | none => do
      emit Dialogue.banner ""
      holdDialogue request.listing .initial
      pure 0
