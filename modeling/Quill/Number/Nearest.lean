import Quill.Number.Parts

/-!
# The float nearest to a ratio

`nearest n d` rounds the exact ratio `n / d` to the closest float, a tie going to the even
mantissa. Ratios too large for a finite float give infinity, and those below half the least
positive float give zero. Reading decimals and taking remainders both end here.
-/

namespace Quill.Number

/-- `n / d` rounded to the nearest integer, a half going to the even one. -/
def roundHalfEven (n d : Nat) : Nat :=
  let q := n / d
  let twice := 2 * (n % d)
  if d < twice ∨ (twice = d ∧ q % 2 = 1) then q + 1 else q

/-- The position of the leading binary digit of `n / d`: the `f` with
    `2 ^ f ≤ n / d < 2 ^ (f + 1)`, for positive `n` and `d`. -/
def leadingBit (n d : Nat) : Int :=
  let f : Int := (Nat.log2 n : Int) - Nat.log2 d
  if d * powNum 2 f ≤ n * powDen 2 f then f else f - 1

/-- The bit pattern of positive infinity, which no finite magnitude reaches. -/
def infinityBits : Nat := 2047 * Nat.pow 2 52

/-- The bit pattern, sign bit clear, of the float nearest to `n / d`. The mantissa is rounded in
    units of `2 ^ u`; a mantissa that rounds up to `2 ^ 53` carries into the exponent bits. -/
def nearestBits (n d : Nat) : Nat :=
  if n = 0 then 0
  else
    let u := max (leadingBit n d - 52) minExponent
    let mantissa := roundHalfEven (n * powDen 2 u) (d * powNum 2 u)
    min infinityBits ((u - minExponent).toNat * Nat.pow 2 52 + mantissa)

/-- The float nearest to `n / d`. -/
def nearest (n d : Nat) : Float := Float.ofBits (nearestBits n d).toUInt64

/-- The float nearest to `± n / d`, keeping the sign also on zero. -/
def signedNearest (negative : Bool) (n d : Nat) : Float :=
  if negative then -(nearest n d) else nearest n d

theorem nearestBits_le_infinityBits (n d : Nat) : nearestBits n d ≤ infinityBits := by
  unfold nearestBits
  split
  · exact Nat.zero_le _
  · exact Nat.min_le_left _ _

end Quill.Number
