import Quill.Token
import Quill.Value

/-!
# The journal

What a run notes down as it goes (section 8 of the specification, logging): the tokens it met, the
sizes of what it read, every change to a binding, and every operator that was applied to something
other than numbers. A record keeps names and values themselves; `Record.line` gives its text.
-/

namespace Quill

/-- One entry of the journal. -/
inductive Record where
  | token (kind : Token.Kind) (text : String)
  | scanned (tokens : Nat)
  | parsed (statements : Nat)
  | evaluating (statements : Nat)
  | notNumeric (left : Value) (op : Operator) (right : Value)
  | declared (name : String) (value : Value) (constant : Bool)
  | assigned (name : String) (value : Value)
deriving DecidableEq

namespace Record

/-- The text of a record: how important it is, which part of the program wrote it, and what it
    says. -/
def line : Record → String
  | .token kind text => "TRACE quill::lexer: token " ++ kind.name ++ " \"" ++ text ++ "\""
  | .scanned tokens => "DEBUG quill::lexer: lexed " ++ toString tokens ++ " tokens"
  | .parsed statements =>
    "DEBUG quill::parser: parsed program with " ++ toString statements ++ " statements"
  | .evaluating statements =>
    "DEBUG quill::evaluator: evaluating " ++ toString statements ++ " statements"
  | .notNumeric left op right =>
    "TRACE quill::evaluator: " ++ left.typeName ++ " " ++ op.symbol ++ " " ++ right.typeName ++
      " is not numeric, yielding null"
  | .declared name value constant =>
    "DEBUG quill::environment: declare " ++ (if constant then "const " else "let ") ++ name ++
      " = " ++ value.text
  | .assigned name value =>
    "DEBUG quill::environment: assign " ++ name ++ " = " ++ value.text

/-- Whether scanning notes down tokens of a kind: words and the end token are passed over. -/
def notesKind : Token.Kind → Bool
  | .identifier => false
  | .letWord => false
  | .constWord => false
  | .endOfFile => false
  | _ => true

/-- The records of the tokens that scanning notes down. -/
def ofTokens (tokens : List Token) : List Record :=
  (tokens.filter fun t => notesKind t.kind).map fun t => .token t.kind t.text

end Record

end Quill
