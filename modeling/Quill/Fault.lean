import Quill.Token

/-!
# Faults

Everything that can go wrong with a text, as causes (section 7 of the specification). A `Problem` is
what a reader is told, a `QuillError`: its category, the place, a message and perhaps some help.
Each place where a `QuillError` is made has a cause of its own, and `Fault.problem` words it.

* `Fault.foreignCharacter`: `scan_token` met a character that starts no token.
* `Fault.unexpected`, `Fault.noOperand`, `Fault.valueMissing`, `Fault.badNumber`,
  `Fault.tooDeep`: reading failed.
* `Fault.binding`, `Fault.badTarget`: evaluation failed. No cause holds a value.
-/

namespace Quill

/-- The four categories of problem (`ErrorKind`). -/
inductive Category where
  | lexical
  | grammatical
  | binding
  | evaluation
deriving DecidableEq, Repr, Inhabited

/-- What a reader is told about a fault (`QuillError`). -/
structure Problem where
  category : Category
  span : Span
  message : String
  help : Option String
deriving DecidableEq, Repr, Inhabited

/-- A way to show problems, which `report` is one of: what is written for a problem of a text, given
    the name of the file that the text is from, if it is from one. -/
abbrev Reporter : Type := Problem → String → Option String → String

/-- The deepest nesting that an expression may have (`MAX_DEPTH`). Every parenthesis, every
    assignment and every operator of a chain counts as one level. -/
def maxDepth : Nat := 256

/-- What stands in the way of using a name (`EnvironmentError`). -/
inductive NameFault where
  | alreadyDeclared (name : String)
  | undefined (name : String)
  | constant (name : String)
deriving DecidableEq, Repr

/-- What the grammar asks for at a place where only one kind of token will do: the calls of `expect`
    and `expect_with_help`. -/
inductive Wanted where
  /-- The name after the word that opens a declaration. -/
  | declaredName (word : String)
  /-- The sign between the name and the value of a declaration. -/
  | declaredEquals
  /-- The semicolon that closes a declaration. -/
  | declaredEnd
  /-- The parenthesis that closes a group. -/
  | groupEnd
deriving DecidableEq, Repr

/-- Why a text was refused. -/
inductive Fault where
  | foreignCharacter (character : Char) (position : Nat)
  | unexpected (wanted : Wanted) (found : Token)
  | noOperand (found : Token)
  | valueMissing (name : String) (span : Span)
  | badNumber (text : String) (span : Span)
  | tooDeep (span : Span)
  | binding (cause : NameFault) (span : Span)
  | badTarget (span : Span)
deriving DecidableEq, Repr

namespace NameFault

/-- The name in question. -/
def subject : NameFault → String
  | .alreadyDeclared name => name
  | .undefined name => name
  | .constant name => name

/-- The message of a name fault. -/
def message : NameFault → String
  | .alreadyDeclared name =>
    "Cannot declare variable '" ++ name ++ "': it is already declared in this scope"
  | .undefined name => "Undefined variable '" ++ name ++ "'"
  | .constant name => "Cannot assign to constant '" ++ name ++ "'"

end NameFault

namespace Wanted

/-- The kind of token that is wanted. -/
def kind : Wanted → Token.Kind
  | .declaredName _ => .identifier
  | .declaredEquals => .equals
  | .declaredEnd => .semicolon
  | .groupEnd => .closeParen

/-- Where it is wanted. -/
def context : Wanted → String
  | .declaredName word => "after '" ++ word ++ "'"
  | .declaredEquals => "after identifier in variable declaration"
  | .declaredEnd => "at end of variable declaration"
  | .groupEnd => "after parenthesized expression"

/-- Advice on supplying it. -/
def help : Wanted → Option String
  | .declaredName _ =>
    some "A variable name must follow 'let' or 'const'. Example: let total = 10;"
  | .declaredEquals => none
  | .declaredEnd => some "Variable declarations must be terminated with ';'."
  | .groupEnd =>
    some "Every opening parenthesis '(' must have a matching closing parenthesis ')'."

end Wanted

/-- Advice on what to do about a token that stands where an operand should begin. -/
def operandHelp : Token.Kind → String
  | .closeParen => "Found ')' without matching '('."
  | .endOfFile => "Reached end of input while expecting an expression."
  | _ => "Expected a number, a variable, or a parenthesized expression here."

/-- What a reader is told about a fault. -/
def Fault.problem : Fault → Problem
  | .foreignCharacter c position =>
    ⟨.lexical, .single position,
      "Unrecognized character '" ++ c.toString ++ "' at position " ++ toString position, none⟩
  | .unexpected wanted found =>
    ⟨.grammatical, found.span,
      "Expected " ++ wanted.kind.name ++ " " ++ wanted.context ++ ", found " ++ found.mention,
      wanted.help⟩
  | .noOperand found =>
    ⟨.grammatical, found.span,
      "Expected Identifier, Number or OpenParen, found " ++ found.mention,
      some (operandHelp found.kind)⟩
  | .valueMissing name span =>
    ⟨.grammatical, span, "Constant '" ++ name ++ "' requires a value",
      some ("Give the constant an initial value: const " ++ name ++ " = <expression>;")⟩
  | .badNumber text span =>
    ⟨.grammatical, span, "Invalid number literal '" ++ text ++ "'", none⟩
  | .tooDeep span =>
    ⟨.grammatical, span, "Expression nested too deeply",
      some ("Expressions may nest at most " ++ toString maxDepth ++
        " levels. Split it into several statements.")⟩
  | .binding cause span => ⟨.binding, span, cause.message, none⟩
  | .badTarget span =>
    ⟨.evaluation, span, "Invalid left-hand side in assignment",
      some "Only variables can be assigned to. Example: x = 10"⟩

end Quill
