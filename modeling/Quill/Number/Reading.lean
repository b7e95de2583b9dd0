import Quill.Number.Nearest

/-!
# Reading a number

The text of a number literal is an optional sign followed by `inf`, `infinity` or `nan` in any
case, or by decimal digits with an optional point and an optional power of ten. At least one digit
stands on some side of the point. The value is the float nearest to the exact decimal. Scanning
finds only digits, but `parse_primary_expr` reads the text of any number token, also of one made by
hand.
-/

namespace Quill.Number

/-- The number that a run of digits writes. -/
def digitsToNat (cs : List Char) : Nat := cs.foldl (fun n c => 10 * n + (c.toNat - '0'.toNat)) 0

/-- A sign, if there is one, and what follows it. -/
def splitSign : List Char → Bool × List Char
  | '+' :: cs => (false, cs)
  | '-' :: cs => (true, cs)
  | cs => (false, cs)

/-- The exponent that stands after the digits: none at all, or a mark, an optional sign and at
    least one digit up to the end of the text. -/
def readExponent : List Char → Option Int
  | [] => some 0
  | mark :: cs =>
    let (negative, digits) := splitSign cs
    if (mark = 'e' ∨ mark = 'E') ∧ digits ≠ [] ∧ digits.all Char.isDigit then
      some (if negative then -(digitsToNat digits : Int) else digitsToNat digits)
    else none

/-- The float nearest to `digits · 10 ^ exponent`. The two bounds keep the powers of ten within
    reason: `digits` has at most `count` digits, so beyond them the result is certain. -/
def scale (negative : Bool) (digits count : Nat) (exponent : Int) : Float :=
  if digits = 0 ∨ exponent + count < -400 then signedNearest negative 0 1
  else if 400 < exponent then signedNearest negative (Nat.pow 10 400) 1
  else signedNearest negative (digits * powNum 10 exponent) (powDen 10 exponent)

/-- Reads digits with an optional point and an optional exponent. -/
def readDecimal (negative : Bool) (cs : List Char) : Option Float :=
  let whole := cs.takeWhile Char.isDigit
  let (fraction, rest) :=
    match cs.dropWhile Char.isDigit with
    | '.' :: after => (after.takeWhile Char.isDigit, after.dropWhile Char.isDigit)
    | after => ([], after)
  let digits := whole ++ fraction
  if digits.isEmpty then none
  else
    (readExponent rest).map fun exponent =>
      scale negative (digitsToNat digits) digits.length (exponent - fraction.length)

/-- Reads the text of a number literal. -/
def read? (s : String) : Option Float :=
  let (negative, cs) := splitSign s.toList
  match String.ofList (cs.map Char.toLower) with
  | "inf" => some (if negative then -(1.0 / 0.0) else 1.0 / 0.0)
  | "infinity" => some (if negative then -(1.0 / 0.0) else 1.0 / 0.0)
  | "nan" => some (0.0 / 0.0)
  | _ => readDecimal negative cs

end Quill.Number
