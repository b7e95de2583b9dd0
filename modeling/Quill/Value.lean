import Quill.Number.Style
import Quill.Number.Remainder

/-!
# Values and operators

A value is null, a boolean or a float. The five operators work on floats. Both are described in
section 3 of the specification.
-/

namespace Quill

/-- A value. -/
inductive Value where
  | null
  | boolean (b : Bool)
  | number (x : Float)
deriving DecidableEq, Inhabited

namespace Value

/-- The name of a value's type (`type_name`). -/
def typeName : Value → String
  | .null => "null"
  | .boolean _ => "boolean"
  | .number _ => "number"

/-- The number that a value is, if it is one (`as_number`). -/
def asNumber? : Value → Option Float
  | .number x => some x
  | _ => none

/-- The text of a boolean. -/
def boolText (b : Bool) : String := if b then "true" else "false"

/-- The text of a value. -/
def text : Value → String
  | .null => "null"
  | .boolean b => boolText b
  | .number x => Number.text .shown x

/-- A value with its type, numbers being written as literals. -/
def inspect : Value → String
  | .null => "Null"
  | .boolean b => "Boolean(" ++ boolText b ++ ")"
  | .number x => "Number(" ++ Number.text .literal x ++ ")"

/-- Whether two values count as equal: floats are compared as numbers, so that a NaN differs from
    itself and the two zeros are equal. -/
def equal : Value → Value → Bool
  | .null, .null => true
  | .boolean a, .boolean b => a == b
  | .number x, .number y => x == y
  | _, _ => false

end Value

/-- The binary operators (`BinaryOp`). -/
inductive Operator where
  | add
  | subtract
  | multiply
  | divide
  | modulo
deriving DecidableEq, Repr, Inhabited

namespace Operator

/-- The symbol of an operator (`symbol`). -/
def symbol : Operator → String
  | .add => "+"
  | .subtract => "-"
  | .multiply => "*"
  | .divide => "/"
  | .modulo => "%"

/-- The operator with a symbol (`from_symbol`). -/
def ofSymbol? : String → Option Operator
  | "+" => some .add
  | "-" => some .subtract
  | "*" => some .multiply
  | "/" => some .divide
  | "%" => some .modulo
  | _ => none

@[simp] theorem ofSymbol?_symbol (op : Operator) : ofSymbol? op.symbol = some op := by
  cases op <;> rfl

/-- The name of an operator in outlines. -/
def name : Operator → String
  | .add => "Add"
  | .subtract => "Subtract"
  | .multiply => "Multiply"
  | .divide => "Divide"
  | .modulo => "Modulo"

/-- What an operator makes of two floats (`apply`). -/
def apply : Operator → Float → Float → Float
  | .add, x, y => x + y
  | .subtract, x, y => x - y
  | .multiply, x, y => x * y
  | .divide, x, y => x / y
  | .modulo, x, y => Number.remainder x y

/-- How tightly an operator binds. -/
inductive Level where
  | additive
  | multiplicative
deriving DecidableEq, Repr

/-- The level of an operator. -/
def level : Operator → Level
  | .add => .additive
  | .subtract => .additive
  | .multiply => .multiplicative
  | .divide => .multiplicative
  | .modulo => .multiplicative

end Operator

end Quill
