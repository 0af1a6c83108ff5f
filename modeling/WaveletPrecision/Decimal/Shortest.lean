import WaveletPrecision.Binary.Conversion

/-
The shortest decimal that reads back.

Among the decimals that round to a given binary value, those with the fewest digits are
taken, and among these the one nearest to the value; of two equally near ones the larger.
Decimals with `n` digits form a grid.  If a point of the grid reads back, so does one of
the two points next to the value, because what reads back is an interval around the value;
so only these two points are looked at, for `n = 1`, `2`, …
-/
namespace WaveletPrecision

-- Powers are those of the core library, whatever else is imported beside this module.
attribute [local instance (high)] instPowNat

/-- The decimal `digits * 10 ^ exponent`. -/
structure Decimal where
  digits : Nat
  exponent : Int
deriving DecidableEq

namespace Decimal

/-- How often a count of units has to be multiplied by ten to reach `one`. -/
def shiftsToReach (one : Nat) : Nat → Nat → Nat
  | 0, _ => 0
  | fuel + 1, units => if one ≤ units then 0 else shiftsToReach one fuel (10 * units) + 1

/-- The exponent of the leading decimal digit of a positive number of units. -/
def leadingExponent (F : Format) (units : Nat) : Int :=
  let one := 2 ^ F.places
  if one ≤ units then ((Nat.toDigits 10 (units / one)).length : Int) - 1
  else -(shiftsToReach one F.places units : Int)

/-- The decimal reads back as the finite magnitude with a given code. -/
def readsBack (F : Format) (code : Nat) (d : Decimal) : Bool :=
  (Binary.ofDecimal false d.digits d.exponent : Binary F).code = code

/-- The decimal without trailing zeros; a digit string of so many digits has at most as many. -/
def dropZeros : Nat → Decimal → Decimal
  | 0, d => d
  | fuel + 1, d =>
    if d.digits ≠ 0 ∧ d.digits % 10 = 0 then dropZeros fuel ⟨d.digits / 10, d.exponent + 1⟩ else d

/-- The grid point with the given exponent that reads back and is nearest to the magnitude. -/
def onGrid (F : Format) (code : Nat) (exponent : Int) : Option Decimal :=
  let numerator := F.units code * 10 ^ (-exponent).toNat
  let denominator := 2 ^ F.places * 10 ^ exponent.toNat
  let below : Decimal := ⟨numerator / denominator, exponent⟩
  let above : Decimal := ⟨numerator / denominator + 1, exponent⟩
  match readsBack F code below, readsBack F code above with
  | true, true => some (if 2 * (numerator % denominator) < denominator then below else above)
  | true, false => some below
  | false, true => some above
  | false, false => none

/-- The first grid from `exponent` downwards that holds a decimal which reads back. -/
def firstGrid (F : Format) (code : Nat) : Nat → Int → Decimal
  | 0, exponent => ⟨F.units code * 10 ^ (-exponent).toNat / 2 ^ F.places, exponent⟩
  | fuel + 1, exponent =>
    match onGrid F code exponent with
    | some d => d
    | none => firstGrid F code fuel (exponent - 1)

/-- The shortest decimal that reads back as the finite, non-zero magnitude with a given code.
As many decimal digits as there are significant bits are always enough. -/
def shortest (F : Format) (code : Nat) : Decimal :=
  dropZeros F.significandBits
    (firstGrid F code F.significandBits (leadingExponent F (F.units code)))

/-- The exponent of the leading digit. -/
def scale (d : Decimal) : Int := d.exponent + (Nat.toDigits 10 d.digits).length - 1

end Decimal

end WaveletPrecision
