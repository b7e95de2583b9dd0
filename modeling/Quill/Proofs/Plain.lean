import Mathlib
import Quill.Number.Reading

/-!
# Numbers without a sign

A decimal that is written without a sign is read as a float that is no NaN and has its sign bit
clear. Such a float is made of its bit pattern, which is at most that of infinity, and below the
patterns of NaN a float keeps the bits that it is made of.

* `toBits_ofBits`: bit patterns up to that of infinity are kept.
* `plain_nearest`: a rounded ratio is plain.
* `plain_of_readDecimal`: a decimal without a sign is read as a plain float.

The lemmas about packing and unpacking floats come with the whole library and with none of its
modules alone, so this module, and no other, imports it whole.
-/

namespace Quill.Number

open Float.Model Float.Model.UnpackedFloat

/-- A float that is not NaN and has its sign bit clear. -/
def Plain (x : Float) : Prop := x.isNaN = false ∧ x.toBits.toNat < 2 ^ 63

theorem infinityBits_eq : infinityBits = 9218868437227405312 := by decide

theorem toNat_toUInt64_of_le {bits : Nat} (h : bits ≤ infinityBits) :
    bits.toUInt64.toNat = bits := by
  have hinfinity := infinityBits_eq
  rw [Nat.toUInt64_eq, UInt64.toNat_ofNat']
  omega

/-- The patterns of NaN are all beyond that of infinity: with its exponent, which has all bits set,
    they have a mantissa that is not zero. -/
theorem isNaNBits_eq_false_of_le {bits : Nat} (h : bits ≤ infinityBits) :
    @isNaNBits Format.binary64 bits.toUInt64.toBitVec = false := by
  have hinfinity := infinityBits_eq
  have hsmall := toNat_toUInt64_of_le h
  rw [isNaNBits, decide_eq_false_iff_not]
  rintro ⟨hexponent, hmantissa⟩
  apply hmantissa
  have hnat := congrArg BitVec.toNat hexponent
  rw [unpackExponent_def, BitVec.extractLsb'_toNat] at hnat
  have hpattern : bits / 2 ^ 52 % 2 ^ 11 = 2 ^ 11 - 1 := by
    simpa [hsmall, Nat.shiftRight_eq_div_pow] using hnat
  have hzero : bits % 2 ^ 52 = 0 := by omega
  apply BitVec.eq_of_toNat_eq
  rw [unpackMantissa_def, BitVec.extractLsb'_toNat]
  simpa [hsmall] using hzero

/-- Bit patterns up to that of infinity are kept by the float that is made of them. -/
theorem toBits_ofBits {bits : Nat} (h : bits ≤ infinityBits) :
    (Float.ofBits bits.toUInt64).toBits.toNat = bits := by
  have hpack : pack Format.binary64 (unpack Format.binary64 bits.toUInt64.toBitVec) =
      bits.toUInt64.toBitVec := by
    rw [pack_unpack, isNaNBits_eq_false_of_le h]
    rfl
  have hbits : (Float.ofBits bits.toUInt64).toBits = bits.toUInt64 := UInt64.toBitVec_inj.mp hpack
  rw [hbits, toNat_toUInt64_of_le h]

/-- No ratio is rounded to NaN: the float keeps its bits, and those of NaN are beyond infinity. -/
theorem plain_nearest (n d : Nat) : Plain (nearest n d) := by
  have hinfinity := infinityBits_eq
  have hle := nearestBits_le_infinityBits n d
  have hbits : (nearest n d).toBits.toNat = nearestBits n d := toBits_ofBits hle
  constructor
  · rw [Float.isNaN_eq_decide_eq_nan, decide_eq_false_iff_not]
    intro hnan
    have hnanBits : Float.nan.toBits.toNat = 9221120237041090560 := by decide
    rw [hnan, hnanBits] at hbits
    omega
  · omega

/-- A decimal without a sign is read as the float nearest to some ratio. -/
theorem plain_of_readDecimal {cs : List Char} {x : Float} (h : readDecimal false cs = some x) :
    Plain x := by
  have hscale (digits count : Nat) (exponent : Int) :
      Plain (scale false digits count exponent) := by
    unfold scale
    split
    · exact plain_nearest _ _
    · split
      · exact plain_nearest _ _
      · exact plain_nearest _ _
  have hparts {digits rest : List Char} {places : Int}
      (hread : (if digits.isEmpty then none
        else (readExponent rest).map fun exponent =>
          scale false (digitsToNat digits) digits.length (exponent - places)) = some x) :
      Plain x := by
    split at hread
    · cases hread
    · obtain ⟨exponent, -, rfl⟩ := Option.map_eq_some_iff.mp hread
      exact hscale _ _ _
  unfold readDecimal at h
  dsimp only at h
  split at h
  · exact hparts h
  · exact hparts h

end Quill.Number
