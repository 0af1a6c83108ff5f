import WaveletPrecision.Decimal.Shortest

/-
The text of a binary value.

A value is written with the digits of its shortest decimal.  What differs from one use to
the next is a `NumberStyle`: which numbers are written with an exponent, and how a number
without a fraction ends.
-/
namespace WaveletPrecision

/-- How numbers are laid out. -/
structure NumberStyle where
  /-- The scales, from the first up to but without the second, of numbers written without an
  exponent; every scale when absent. -/
  positional : Option (Int × Int)
  /-- What follows the digits of a positional number without a fraction. -/
  wholeEnding : String

namespace NumberStyle

/-- So many zeros. -/
def zeros (n : Nat) : String := String.ofList (List.replicate n '0')

/-- Digits with a point at the place of the exponent. -/
def positionalText (style : NumberStyle) (d : Decimal) : String :=
  let digits := Nat.toDigits 10 d.digits
  let wholeDigits := d.exponent + digits.length
  if 0 ≤ d.exponent then
    String.ofList digits ++ zeros d.exponent.toNat ++ style.wholeEnding
  else if 0 < wholeDigits then
    String.ofList (digits.take wholeDigits.toNat) ++ "."
      ++ String.ofList (digits.drop wholeDigits.toNat)
  else "0." ++ zeros (-wholeDigits).toNat ++ String.ofList digits

/-- One digit before the point, and an exponent. -/
def exponentText (d : Decimal) : String :=
  let digits := Nat.toDigits 10 d.digits
  let fraction := String.ofList (digits.drop 1)
  String.ofList (digits.take 1) ++ (if fraction.isEmpty then "" else "." ++ fraction)
    ++ "e" ++ toString d.scale

/-- The text of a magnitude that is finite and not zero. -/
def decimalText (style : NumberStyle) (d : Decimal) : String :=
  match style.positional with
  | none => style.positionalText d
  | some (low, high) =>
    if low ≤ d.scale ∧ d.scale < high then style.positionalText d else exponentText d

/-- The text of a value. -/
def text (style : NumberStyle) {F : Format} (x : Binary F) : String :=
  if x.isNaN then "NaN"
  else
    let sign := if x.negative then "-" else ""
    if x.isInfinite then sign ++ "inf"
    else if x.isZero then sign ++ "0" ++ style.wholeEnding
    else sign ++ style.decimalText (Decimal.shortest F x.code)

end NumberStyle

end WaveletPrecision
