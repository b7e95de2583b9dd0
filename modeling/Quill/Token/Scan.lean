import Quill.Fault
import Quill.Text.Cased

/-!
# Scanning a text into tokens

Parentheses, semicolons, equals signs and the five operators are tokens of one character. A run of
digits is a number, and a run of letters is a word: `let` and `const` are keywords, any other word
is an identifier. Runs are taken as long as they go. Four kinds of space may stand between tokens,
and any other character is foreign. What counts as a letter is a parameter of scanning; in a source
text it is the letters with case. These are the rules of section 4.1 of the specification.
-/

namespace Quill.Token

/-- The kind of a token that is one character long. -/
def markKind? : Char → Option Kind
  | '(' => some .openParen
  | ')' => some .closeParen
  | ';' => some .semicolon
  | '=' => some .equals
  | '+' => some .operator
  | '-' => some .operator
  | '*' => some .operator
  | '/' => some .operator
  | '%' => some .operator
  | _ => none

/-- The characters that may stand between tokens. -/
def isSpacing (c : Char) : Bool := c = ' ' || c = '\t' || c = '\n' || c = '\r'

/-- The kind of a word (`identifier`, which looks it up among the keywords). -/
def wordKind (word : String) : Kind :=
  if word = "let" then .letWord
  else if word = "const" then .constWord
  else .identifier

/-- What scanning yields: the tokens up to the end of the text or up to the first foreign
    character, and that character's fault if there is one. -/
structure Scanned where
  tokens : List Token
  fault : Option Fault
deriving DecidableEq, Repr

/-- One more token in front. -/
def Scanned.cons (t : Token) (s : Scanned) : Scanned := { s with tokens := t :: s.tokens }

/-- The token of a lexeme that starts at an offset (`add_token`). -/
def ofLexeme (kind : Kind) (lexeme : List Char) (start : Nat) : Token :=
  ⟨kind, String.ofList lexeme, ⟨start, start + lexeme.length⟩⟩

/-- Scans the characters that follow the first `start` ones of a text, words being made of the
    characters that are a `letter`: the loop of `scan_tokens` over `scan_token`, with the runs that
    `number` and `identifier` take.

    At the end of a text `peek` answers NUL, so a run ends there because NUL is neither a digit nor
    a letter. Here a run is a `takeWhile`, which ends with the text, and no character stands for the
    end. So nothing need be known of `letter` at NUL, and a NUL in a text is a character like any
    other: part of a word if it is a letter, foreign if not. -/
def scanFrom (letter : Char → Bool) (start : Nat) : List Char → Scanned
  | [] => ⟨[ending start], none⟩
  | c :: rest =>
    match markKind? c with
    | some kind => (scanFrom letter (start + 1) rest).cons (ofLexeme kind [c] start)
    | none =>
      if isSpacing c then scanFrom letter (start + 1) rest
      else if c.isDigit then
        let lexeme := c :: rest.takeWhile Char.isDigit
        (scanFrom letter (start + lexeme.length) (rest.dropWhile Char.isDigit)).cons
          (ofLexeme .number lexeme start)
      else if letter c then
        let lexeme := c :: rest.takeWhile letter
        (scanFrom letter (start + lexeme.length) (rest.dropWhile letter)).cons
          (ofLexeme (wordKind (String.ofList lexeme)) lexeme start)
      else ⟨[], some (.foreignCharacter c start)⟩
termination_by cs => cs.length
decreasing_by
  · exact Nat.lt_succ_self _
  · exact Nat.lt_succ_self _
  · exact Nat.lt_succ_of_le (List.dropWhile_suffix _).length_le
  · exact Nat.lt_succ_of_le (List.dropWhile_suffix _).length_le

/-- Scans a whole text. -/
def scan (source : String) : Scanned := scanFrom Text.isCased 0 source.toList

/-- The tokens of a text, the last of which marks its end, or the fault of its first foreign
    character (`tokenize`). -/
def ofSource (source : String) : Except Fault (List Token) :=
  match scan source with
  | ⟨tokens, none⟩ => .ok tokens
  | ⟨_, some fault⟩ => .error fault

end Quill.Token
