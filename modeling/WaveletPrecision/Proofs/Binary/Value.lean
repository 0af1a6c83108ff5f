import Mathlib.Data.Rat.Defs
import Mathlib.Tactic.Lemma
import Mathlib.Tactic.Ring
import WaveletPrecision.Sample.Basic

/-
The numbers that the values of a binary format stand for.

A finite value is a whole number of units, and a unit is a power of two, so a finite value is a
rational number (`Binary.toRat`).  Changing the sign of a value changes the sign of the number
(`Binary.toRat_neg`), zeros included.
-/
namespace WaveletPrecision

namespace Binary

variable {F : Format}

/-- The number that a finite value stands for. -/
def toRat (x : Binary F) : ℚ := x.signedUnits / 2 ^ F.places

/-- The double nearest to `1 / 10` is a little above it. -/
example : (0.1 : Binary64).toRat = 1 / 10 + 1 / 180143985094819840 := by decide +kernel

lemma signedUnits_neg (x : Binary F) : x.neg.signedUnits = -x.signedUnits := by
  obtain ⟨negative, code, hcode⟩ := x
  cases negative <;> simp [signedUnits, neg, units]

lemma toRat_neg (x : Binary F) : x.neg.toRat = -x.toRat := by
  rw [toRat, toRat, signedUnits_neg]
  push_cast
  ring

end Binary

end WaveletPrecision
