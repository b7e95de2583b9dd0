/-!
# The parts of a float

A finite float is `± mantissa · 2 ^ exponent` with a mantissa below `2 ^ 53`; the rest are the two
infinities and the one NaN. Everything about the text of numbers is computed on these parts with
exact integers.
-/

namespace Quill.Number

/-- A float taken apart. -/
inductive Parts where
  | nan
  | infinite (negative : Bool)
  | finite (negative : Bool) (mantissa : Nat) (exponent : Int)
deriving DecidableEq, Repr

/-- The least exponent of a finite float, that of the subnormal ones. -/
def minExponent : Int := -1074

/-- Takes a float apart along its sign bit, eleven exponent bits and fifty-two fraction bits. -/
def Parts.ofFloat (x : Float) : Parts :=
  let bits : Nat := x.toBits.toNat
  let negative := bits / Nat.pow 2 63 == 1
  let biased : Nat := bits / Nat.pow 2 52 % Nat.pow 2 11
  let fraction := bits % Nat.pow 2 52
  if biased = 2047 then
    if fraction = 0 then .infinite negative else .nan
  else if biased = 0 then .finite negative fraction minExponent
  else .finite negative (Nat.pow 2 52 + fraction) (minExponent + ((biased : Int) - 1))

/-- The numerator of `base ^ e`: the power itself when `0 ≤ e`, else `1`. -/
def powNum (base : Nat) (e : Int) : Nat := base.pow e.toNat

/-- The denominator of `base ^ e`: the power of `-e` when `e ≤ 0`, else `1`. -/
def powDen (base : Nat) (e : Int) : Nat := base.pow (-e).toNat

end Quill.Number
