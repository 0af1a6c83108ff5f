import WaveletPrecision.Binary.Basic

/-
Arithmetic on the values of a binary format.

Every operation on finite values computes the exact result and rounds it once, to
nearest with ties to even.  The operands are taken as significands times powers of two,
so the numbers that are computed with stay as short as the operands are near each other.
An operation with a not-a-number among its operands gives the first of them, made quiet;
an operation without a value gives `Binary.invalid`.
-/
namespace WaveletPrecision

namespace Binary

variable {F : Format}

/-- The value with the opposite sign, also for zeros and not-a-numbers. -/
def neg (x : Binary F) : Binary F := { x with negative := !x.negative }

/-- The value with a positive sign. -/
def abs (x : Binary F) : Binary F := { x with negative := false }

/-- What an operation gives when one of its two operands is not a number. -/
def propagate (x y : Binary F) : Binary F := if x.isNaN then x.quiet else y.quiet

/-- The significand of a finite value, moved to an exponent that is not above its own. -/
@[inline]
def significandAt (scale : Nat) (x : Binary F) : Nat :=
  if x.exponent = scale then x.significand else x.significand <<< (x.exponent - scale)

/-- The sum of two finite values, rounded once.  The significands are moved to the lower of the
two exponents; an exact zero of opposite signs is positive. -/
@[inline]
def addFinite (x y : Binary F) : Binary F :=
  let scale := min x.exponent y.exponent
  let m := x.significandAt scale
  let n := y.significandAt scale
  if x.negative = y.negative then ofScaled x.negative (m + n) scale
  else if m = n then zero false
  else if n < m then ofScaled x.negative (m - n) scale
  else ofScaled y.negative (n - m) scale

/-- The sum, rounded once.  An exact zero is positive unless both operands are negative. -/
@[inline]
def add (x y : Binary F) : Binary F :=
  if x.isNaN || y.isNaN then propagate x y
  else if x.isInfinite then
    if y.isInfinite && x.negative != y.negative then invalid else x
  else if y.isInfinite then y
  else addFinite x y

/-- The difference, rounded once. -/
@[inline]
def sub (x y : Binary F) : Binary F :=
  if x.isNaN || y.isNaN then propagate x y else add x y.neg

/-- The product, rounded once. -/
@[inline]
def mul (x y : Binary F) : Binary F :=
  let negative := x.negative != y.negative
  if x.isNaN || y.isNaN then propagate x y
  else if x.isInfinite || y.isInfinite then
    if x.isZero || y.isZero then invalid else infinity negative
  else
    ofScaled negative (x.significand * y.significand)
      ((x.exponent + y.exponent : Nat) - F.places)

/-- The quotient of two finite values, the second of which is not zero, rounded once. -/
@[inline]
def divFinite (x y : Binary F) : Binary F :=
  ofScaledRatio (x.negative != y.negative) x.significand y.significand
    ((x.exponent + F.places : Nat) - y.exponent)

/-- The quotient, rounded once.  A non-zero value over zero is an infinity. -/
@[inline]
def div (x y : Binary F) : Binary F :=
  let negative := x.negative != y.negative
  if x.isNaN || y.isNaN then propagate x y
  else if x.isInfinite then if y.isInfinite then invalid else infinity negative
  else if y.isInfinite then zero negative
  else if y.isZero then if x.isZero then invalid else infinity negative
  else divFinite x y

/-! ### Comparison -/

/-- The position of a number in the order of the format; the two zeros share one. -/
def rank (x : Binary F) : Int := if x.negative then -(x.code : Int) else x.code

/-- Less than, as numbers; false when an operand is not a number. -/
def lt (x y : Binary F) : Bool := !x.isNaN && !y.isNaN && x.rank < y.rank

/-- Equal, as numbers; false when an operand is not a number. -/
def eq (x y : Binary F) : Bool := !x.isNaN && !y.isNaN && x.rank = y.rank

/-- The larger of two values, where a not-a-number wins over every number. -/
def larger (x y : Binary F) : Binary F :=
  if x.isNaN || y.isNaN then quietNaN false 0 else if x.lt y then y else x

end Binary

end WaveletPrecision
