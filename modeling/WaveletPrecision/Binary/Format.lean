/-
Binary floating-point formats.

A finite value of a format is a whole multiple of the least positive value of the
format, so a magnitude is a natural number of *units*.  The magnitudes of a format
are numbered in increasing order by their *codes*: the codes below
`F.infinityCode` number the finite magnitudes, `F.infinityCode` is infinity and the
codes above it are not numbers.

A finite magnitude is a significand times a power of two, and `Format.units` is its
count of units.
-/
namespace WaveletPrecision

-- Powers are those of the core library, whatever else is imported beside this module.
attribute [local instance (high)] instPowNat

/-- A binary format: the widths of the exponent field and of the fraction field. -/
structure Format where
  exponentBits : Nat
  fractionBits : Nat
  two_le_exponentBits : 2 ≤ exponentBits := by decide
  fractionBits_pos : 0 < fractionBits := by decide
deriving DecidableEq

namespace Format

/-- Double precision: 53 bits of significand. -/
def binary64 : Format where
  exponentBits := 11
  fractionBits := 52

/-- Single precision: 24 bits of significand. -/
def binary32 : Format where
  exponentBits := 8
  fractionBits := 23

/-- The exponent range of single precision with 8 bits of significand. -/
def bfloat16 : Format where
  exponentBits := 8
  fractionBits := 7

variable (F : Format)

/-- The number of magnitude codes. -/
def codeCount : Nat := 2 ^ (F.exponentBits + F.fractionBits)

/-- The code of infinity, the first one that is not finite. -/
def infinityCode : Nat := (2 ^ F.exponentBits - 1) * 2 ^ F.fractionBits

/-- The fraction bit that marks a quiet not-a-number. -/
def quietBit : Nat := 2 ^ (F.fractionBits - 1)

/-- The number of codes in a binade, which is also the leading bit of a significand. -/
def binadeSize : Nat := 2 ^ F.fractionBits

/-- The number of binary places of a unit: the least positive value is `2 ^ -places`. -/
def places : Nat := 2 ^ (F.exponentBits - 1) - 2 + F.fractionBits

/-- The number of significant bits, the leading bit included. -/
def significandBits : Nat := F.fractionBits + 1

/-- The significand of a finite code: the fraction field below a leading bit, which only the
codes of the lowest binade lack. -/
@[inline]
def significand (code : Nat) : Nat :=
  if code < F.binadeSize then code else F.binadeSize + code % F.binadeSize

/-- The exponent of a finite code, counted from that of the lowest binade. -/
@[inline]
def exponent (code : Nat) : Nat := (code >>> F.fractionBits) - 1

/-- The magnitude of a finite code, counted in units. -/
def units (code : Nat) : Nat := F.significand code * 2 ^ F.exponent code

theorem infinityCode_lt_codeCount : F.infinityCode < F.codeCount := by
  unfold infinityCode codeCount
  rw [Nat.pow_add]
  exact Nat.mul_lt_mul_of_pos_right (Nat.sub_lt (Nat.two_pow_pos _) Nat.one_pos)
    (Nat.two_pow_pos _)

theorem quietBit_lt : F.quietBit < 2 ^ F.fractionBits :=
  Nat.pow_lt_pow_right (by decide) (Nat.sub_lt F.fractionBits_pos Nat.one_pos)

theorem infinityCode_add_lt {f : Nat} (h : f < 2 ^ F.fractionBits) :
    F.infinityCode + f < F.codeCount := by
  have hpos := Nat.two_pow_pos F.exponentBits
  have hle : 2 ^ F.fractionBits ≤ 2 ^ F.exponentBits * 2 ^ F.fractionBits :=
    Nat.le_mul_of_pos_left _ hpos
  unfold infinityCode codeCount
  rw [Nat.pow_add, Nat.sub_mul, Nat.one_mul]
  omega

end Format

end WaveletPrecision
