import WaveletPrecision.Binary.Arithmetic

/-
Conversions into a binary format: from another format, from a natural number and
from a decimal.
-/
namespace WaveletPrecision

-- Powers are those of the core library, whatever else is imported beside this module.
attribute [local instance (high)] instPowNat

namespace Binary

/-- The value of `G` nearest to a value of `F`.  Signs, zeros and infinities are kept, and a
not-a-number keeps the leading bits of its fraction field. -/
@[inline]
def convert {F : Format} (G : Format) (x : Binary F) : Binary G :=
  if x.isNaN then
    quietNaN x.negative (x.fractionField * 2 ^ G.fractionBits / 2 ^ F.fractionBits)
  else if x.isInfinite then infinity x.negative
  else ofScaled x.negative x.significand ((x.exponent + G.places : Nat) - F.places)

variable {F : Format}

/-- The value nearest to a natural number. -/
def ofNat (n : Nat) : Binary F := ofScaled false n F.places

/-- The power of two with a given exponent, as far as the format holds it. -/
def twoPow (e : Int) : Binary F := ofScaled false 1 (e + F.places)

/-- The value of a sign nearest to `digits * 10 ^ exponent`.

A decimal whose leading digit stands further than `F.places` places from the point is out
of the range of the format on the large or on the small side, so that the power of ten is
never computed for it. -/
def ofDecimal (negative : Bool) (digits : Nat) (exponent : Int) : Binary F :=
  if digits = 0 then zero negative
  else
    let top := exponent + (Nat.toDigits 10 digits).length
    if top > F.places + 1 then infinity negative
    else if top < -(F.places : Int) then zero negative
    else
      ofScaledRatio negative (digits * 10 ^ exponent.toNat) (10 ^ (-exponent).toNat) F.places

/-- The value whose word drops the lowest `bits` bits of the fraction field. -/
@[inline]
def dropLow (bits : Nat) (x : Binary F) : Binary F where
  negative := x.negative
  code := x.code / 2 ^ bits * 2 ^ bits
  code_lt := Nat.lt_of_le_of_lt (Nat.div_mul_le_self _ _) x.code_lt

end Binary

end WaveletPrecision
