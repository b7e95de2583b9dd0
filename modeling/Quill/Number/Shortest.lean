import Quill.Number.Parts

/-!
# The shortest decimal of a float

A float is written with the fewest decimal digits that read back to it, and among those with the
decimal closest to it. All comparisons are exact.

A decimal that reads back lies in the interval from halfway to the float below to halfway to the
float above; the ends belong to it when the mantissa is even. On the grid of all decimals with `n`
digits, if any point lies in the interval then so does one of the float's two neighbours, so only
those two are tried, for `n = 1, 2, …`. Seventeen digits always suffice.
-/

namespace Quill.Number

/-- The positive decimal `0.d₁d₂… · 10 ^ point`, with neither a leading nor a trailing zero among
    its digits. -/
structure Decimal where
  digits : List Char
  point : Int
deriving DecidableEq, Repr

/-- A positive float `mantissa · 2 ^ exponent` to be written. -/
structure Magnitude where
  mantissa : Nat
  exponent : Int
deriving DecidableEq, Repr

namespace Magnitude

/-- Whether the float is below `10 ^ k`. -/
def ltPow (x : Magnitude) (k : Int) : Bool :=
  x.mantissa * powNum 2 x.exponent * powDen 10 k < powNum 10 k * powDen 2 x.exponent

/-- The least `k` with the float below `10 ^ k`. The start is an estimate by the binary length
    that is never too large. -/
def decimalPoint (x : Magnitude) : Int :=
  let length : Int := Nat.log2 x.mantissa + x.exponent
  let start := length * 1233 / 4096
  if x.ltPow start then start
  else if x.ltPow (start + 1) then start + 1
  else start + 2

/-- The digits of `coefficient · 10 ^ s` without trailing zeros. -/
def toDecimal (coefficient : Nat) (s : Int) : Decimal :=
  let digits := Nat.toDigits 10 coefficient
  ⟨(digits.reverse.dropWhile (· == '0')).reverse, s + digits.length⟩

/-- The decimal on the grid of multiples of `10 ^ s` that reads back to the float, if there is
    one: the nearer of the two neighbours, the upper one when they are equally near.

    Quantities are scaled to integers. In units of a quarter of the last binary place the float is
    `4 · mantissa`, and halfway up is two more. Halfway down is two less, or one less at a power
    of two, where the floats below lie twice as dense. -/
def onGrid (x : Magnitude) (s : Int) : Option Decimal :=
  let quarter := x.exponent - 2
  let unit := powNum 2 quarter * powDen 10 s
  let step := powNum 10 s * powDen 2 quarter
  let value := 4 * x.mantissa * unit
  let narrow := x.mantissa = Nat.pow 2 52 ∧ minExponent < x.exponent
  let low := (4 * x.mantissa - if narrow then 1 else 2) * unit
  let high := (4 * x.mantissa + 2) * unit
  let inside (c : Nat) : Bool :=
    if x.mantissa % 2 = 0 then low ≤ c * step && c * step ≤ high
    else low < c * step && c * step < high
  let below := value / step
  let above := below + 1
  match inside below, inside above with
  | true, true =>
    if value - below * step < above * step - value then some (toDecimal below s)
    else some (toDecimal above s)
  | true, false => some (toDecimal below s)
  | false, true => some (toDecimal above s)
  | false, false => none

/-- All digits of the float: a power of two below one is a power of five over one of ten. -/
def exact (x : Magnitude) : Decimal :=
  toDecimal (x.mantissa * powNum 2 x.exponent * powDen 5 x.exponent) (min x.exponent 0)

/-- The first hit with at least `n` digits, or all digits of the float if `tries` grids have
    none. -/
def search (x : Magnitude) (k : Int) (n : Nat) : Nat → Decimal
  | 0 => x.exact
  | tries + 1 =>
    match x.onGrid (k - n) with
    | some d => d
    | none => search x k (n + 1) tries

/-- The shortest decimal that reads back to the float. -/
def shortest (x : Magnitude) : Decimal := x.search x.decimalPoint 1 17

end Magnitude

end Quill.Number
