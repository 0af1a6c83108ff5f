import WaveletPrecision.Binary.Rounding

/-
Values of a binary format.

A value is a sign and a magnitude code; its word is the usual interchange encoding.
Values are told apart bit for bit by `=`, which is decidable; the comparison of
numbers, for which the two zeros are equal and a not-a-number is equal to nothing,
is `Binary.eq`.
-/
namespace WaveletPrecision

-- Powers are those of the core library, whatever else is imported beside this module.
attribute [local instance (high)] instPowNat

/-- A value of the format `F`: a sign and the code of a magnitude. -/
@[ext]
structure Binary (F : Format) where
  negative : Bool
  code : Nat
  code_lt : code < F.codeCount
deriving DecidableEq

namespace Binary

variable {F : Format}

/-! ### Words -/

/-- The interchange encoding: sign, exponent field, fraction field. -/
def toWord (x : Binary F) : Nat :=
  (if x.negative then F.codeCount else 0) + x.code

/-- The value that a word encodes; bits above the sign are ignored. -/
def ofWord (w : Nat) : Binary F where
  negative := w / F.codeCount % 2 = 1
  code := w % F.codeCount
  code_lt := Nat.mod_lt _ (Nat.two_pow_pos _)

theorem ofWord_toWord (x : Binary F) : ofWord x.toWord = x := by
  obtain ⟨negative, code, h⟩ := x
  have hpos : 0 < F.codeCount := Nat.lt_of_le_of_lt (Nat.zero_le _) h
  cases negative <;>
    simp [ofWord, toWord, Nat.mod_eq_of_lt h, Nat.div_eq_of_lt h, Nat.add_div_left _ hpos]

/-! ### Special values -/

/-- The zero of a sign. -/
def zero (negative : Bool) : Binary F :=
  ⟨negative, 0, Nat.two_pow_pos _⟩

/-- The infinity of a sign. -/
def infinity (negative : Bool) : Binary F :=
  ⟨negative, F.infinityCode, F.infinityCode_lt_codeCount⟩

/-- The quiet not-a-number with a given fraction field below the quiet bit. -/
def quietNaN (negative : Bool) (payload : Nat) : Binary F where
  negative := negative
  code := F.infinityCode + (payload % 2 ^ F.fractionBits ||| F.quietBit)
  code_lt := F.infinityCode_add_lt
    (Nat.or_lt_two_pow (Nat.mod_lt _ (Nat.two_pow_pos _)) F.quietBit_lt)

/-- The result of an operation that has no value, such as zero times infinity. -/
def invalid : Binary F := quietNaN true 0

/-! ### Classification -/

/-- The value is not a number. -/
@[inline]
def isNaN (x : Binary F) : Bool := F.infinityCode < x.code

/-- The value is an infinity. -/
@[inline]
def isInfinite (x : Binary F) : Bool := x.code = F.infinityCode

/-- The value is a number and not an infinity. -/
@[inline]
def isFinite (x : Binary F) : Bool := x.code < F.infinityCode

/-- The value is one of the two zeros. -/
@[inline]
def isZero (x : Binary F) : Bool := x.code = 0

/-- The significand of a finite value. -/
@[inline]
def significand (x : Binary F) : Nat := F.significand x.code

/-- The exponent of a finite value, counted from the least one. -/
@[inline]
def exponent (x : Binary F) : Nat := F.exponent x.code

/-- The magnitude of a finite value, counted in units. -/
def units (x : Binary F) : Nat := F.units x.code

/-- The finite value counted in units, with its sign. -/
def signedUnits (x : Binary F) : Int :=
  if x.negative then -(x.units : Int) else x.units

/-- The fraction field of the word. -/
def fractionField (x : Binary F) : Nat := x.code % 2 ^ F.fractionBits

/-- A not-a-number with its quiet bit set. -/
def quiet (x : Binary F) : Binary F := quietNaN x.negative x.fractionField

/-! ### Rounding an exact magnitude -/

/-- The value of a sign nearest to `n / d` units, ties to the even significand. -/
def ofRatio (negative : Bool) (n d : Nat) : Binary F :=
  ⟨negative, F.roundRatio n d,
    Nat.lt_of_le_of_lt (F.roundRatio_le n d) F.infinityCode_lt_codeCount⟩

/-- The value of a sign nearest to `m * 2 ^ scale` units, ties to the even significand. -/
@[inline]
def ofScaled (negative : Bool) (m : Nat) (scale : Int) : Binary F :=
  ⟨negative, F.roundScaled m scale,
    Nat.lt_of_le_of_lt (F.roundScaled_le m scale) F.infinityCode_lt_codeCount⟩

theorem ofScaled_eq (negative : Bool) (m : Nat) (scale : Int) :
    (ofScaled negative m scale : Binary F)
      = ofRatio negative (m * 2 ^ scale.toNat) (2 ^ (-scale).toNat) := by
  simp only [ofScaled, ofRatio, F.roundScaled_eq]

/-- The value of a sign nearest to `n / d * 2 ^ scale` units, ties to the even significand. -/
@[inline]
def ofScaledRatio (negative : Bool) (n d : Nat) (scale : Int) : Binary F :=
  ⟨negative, F.roundScaledRatio n d scale,
    Nat.lt_of_le_of_lt (F.roundScaledRatio_le n d scale) F.infinityCode_lt_codeCount⟩

theorem ofScaledRatio_eq (negative : Bool) (n : Nat) {d : Nat} (hd : d ≠ 0) (scale : Int) :
    (ofScaledRatio negative n d scale : Binary F)
      = ofRatio negative (n * 2 ^ scale.toNat) (d * 2 ^ (-scale).toNat) := by
  simp only [ofScaledRatio, ofRatio, F.roundScaledRatio_eq n hd]

end Binary

end WaveletPrecision
