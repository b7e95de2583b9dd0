import Quill.Span

/-!
# Tokens

A token is a kind, the text it was made from and the span of that text (section 3 of the
specification). Tokens made by hand may pair a kind with any text.
-/

namespace Quill

/-- The kinds of token (`TokenKind`). -/
inductive Token.Kind where
  | number
  | identifier
  | openParen
  | closeParen
  | semicolon
  | letWord
  | constWord
  | equals
  | operator
  | endOfFile
deriving DecidableEq, Repr, Inhabited

/-- The name of a kind in listings and messages. -/
def Token.Kind.name : Token.Kind → String
  | .number => "Number"
  | .identifier => "Identifier"
  | .openParen => "OpenParen"
  | .closeParen => "CloseParen"
  | .semicolon => "Semicolon"
  | .letWord => "Let"
  | .constWord => "Const"
  | .equals => "Equals"
  | .operator => "BinaryOperator"
  | .endOfFile => "EndOfFile"

/-- A token. -/
structure Token where
  kind : Token.Kind
  text : String
  span : Span
deriving DecidableEq, Repr, Inhabited

namespace Token

/-- The token that ends a text of the given length. -/
def ending (position : Nat) : Token := ⟨.endOfFile, "EndOfFile", .point position⟩

/-- What a message calls a token it did not expect (`describe`). -/
def mention (t : Token) : String :=
  if t.kind = .endOfFile then "EndOfFile" else t.kind.name ++ " '" ++ t.text ++ "'"

end Token

end Quill
