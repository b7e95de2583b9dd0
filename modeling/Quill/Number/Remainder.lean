import Quill.Number.Nearest

/-!
# The exact remainder

The remainder of a division that rounds towards zero: it has the sign of the dividend, is smaller
than the divisor in magnitude, and is computed without any rounding.
-/

namespace Quill.Number

/-- `x - y · trunc (x / y)`, exactly. There is none when `x` is infinite or `y` is zero; an
    infinite `y` leaves `x` as it is. -/
def remainder (x y : Float) : Float :=
  match Parts.ofFloat x, Parts.ofFloat y with
  | .finite negative m e, .finite _ n f =>
    if n = 0 then 0.0 / 0.0
    else
      let unit := min e f
      let left := m * powNum 2 (e - unit)
      let right := n * powNum 2 (f - unit)
      signedNearest negative (left % right * powNum 2 unit) (powDen 2 unit)
  | .finite _ _ _, .infinite _ => x
  | _, _ => 0.0 / 0.0

end Quill.Number
