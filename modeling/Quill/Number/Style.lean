import Quill.Number.Shortest

/-!
# The text of a float

The digits of a number are those of its shortest decimal. A style decides where positional
notation ends and whether a whole number shows its point: values are shown positionally whatever
their size and without a needless point, while the outline of a program writes literals with a
point and turns to powers of ten for large and small ones.
-/

namespace Quill.Number

/-- How digits become text. -/
structure Style where
  /-- Whether a decimal with this point is written positionally. -/
  positional : Int → Bool
  /-- What follows the digits of a whole number. -/
  wholeEnding : String

/-- Values are always positional, and a whole number has no point. -/
def Style.shown : Style := ⟨fun _ => true, ""⟩

/-- Literals are positional from `0.0001` up to below `10 ^ 16`, and a whole number ends in
    `.0`. -/
def Style.literal : Style := ⟨fun point => -3 ≤ point && point ≤ 16, ".0"⟩

/-- A run of zeros. -/
def zeros (n : Nat) : String := String.ofList (List.replicate n '0')

namespace Decimal

/-- Digits around a point, padded with zeros where the point lies outside them. -/
def positional (d : Decimal) (wholeEnding : String) : String :=
  let count : Int := d.digits.length
  if d.point ≤ 0 then "0." ++ zeros (-d.point).toNat ++ String.ofList d.digits
  else if count ≤ d.point then
    String.ofList d.digits ++ zeros (d.point - count).toNat ++ wholeEnding
  else
    String.ofList (d.digits.take d.point.toNat) ++ "." ++
      String.ofList (d.digits.drop d.point.toNat)

/-- One digit before the point, and a power of ten. -/
def scientific (d : Decimal) : String :=
  let fraction := d.digits.drop 1
  String.ofList (d.digits.take 1) ++ (if fraction.isEmpty then "" else ".") ++
    String.ofList fraction ++ "e" ++ toString (d.point - 1)

end Decimal

/-- The text of a float in a style. A NaN has no sign; a zero keeps its own. -/
def text (style : Style) (x : Float) : String :=
  let signed (negative : Bool) (s : String) := if negative then "-" ++ s else s
  match Parts.ofFloat x with
  | .nan => "NaN"
  | .infinite negative => signed negative "inf"
  | .finite negative 0 _ => signed negative ("0" ++ style.wholeEnding)
  | .finite negative mantissa exponent =>
    let d := Magnitude.shortest ⟨mantissa, exponent⟩
    signed negative
      (if style.positional d.point then d.positional style.wholeEnding else d.scientific)

end Quill.Number
