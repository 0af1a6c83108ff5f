import WaveletPrecision.Proofs.Binary.Exact

/-
The product of a value and a factor below one.

The exact product is not larger than the value, and so it is not rounded beyond it
(`Binary.isNearestCode_code_mul`), but it can be rounded up to it.  The largest factor below one
takes from a value at least half of the step of its binade, and more than that if the significand
has more than its leading bit.  The step from a value to the one below it is no larger, so the value
is left, unless it is in the lowest binades (`Binary.code_mul_lt`).  There the step does not shrink
with the values, so less than half of it is taken, or half of it from an even value, and the value
stays as it is (`Binary.code_mul_eq`).
-/
namespace WaveletPrecision

-- Powers are those of the core library, whatever else is imported beside this module.
attribute [local instance (high)] instPowNat

lemma Format.two_pow_significandBits (F : Format) :
    (2 ^ F.significandBits : ℚ) = 2 * F.binadeSize := by
  rw [Format.significandBits, Format.binadeSize, pow_succ]
  push_cast
  ring

namespace Binary

variable {F : Format} {x y : Binary F}

lemma exists_isNearestCode_mul (hx : x.isFinite) (hy : y.isFinite) :
    ∃ code, F.IsNearestCode (x.units * y.units / 2 ^ F.places) code ∧
      (x.mul y).code = min F.infinityCode code ∧
      (x.mul y).negative = (x.negative != y.negative) := by
  simp only [isFinite, decide_eq_true_eq] at hx hy
  have hmul : x.mul y = ofScaled (x.negative != y.negative) (x.significand * y.significand)
      ((x.exponent + y.exponent : ℕ) - F.places) := by
    rw [mul, if_neg, if_neg]
    · simp [isInfinite, hx.ne, hy.ne]
    · simp [isNaN, hx.le, hy.le]
  have hvalue : (x.units * y.units / 2 ^ F.places : ℚ)
      = (x.significand * y.significand : ℕ) * 2 ^ (x.exponent + y.exponent) / 2 ^ F.places := by
    rw [cast_units_eq, cast_units_eq, pow_add]
    push_cast
    ring
  obtain ⟨code, hcode, hround⟩ := exists_isNearestCode_ofScaled (F := F)
    (x.negative != y.negative) (x.significand * y.significand)
    (rfl : ((x.exponent + y.exponent : ℕ) - F.places : ℤ) = _)
  exact ⟨code, hvalue ▸ hcode, by rw [hmul, hround], by rw [hmul]; rfl⟩

/-- The magnitude of a finite value. -/
def factor (x : Binary F) : ℚ := x.units / 2 ^ F.places

lemma mul_units_eq (x y : Binary F) :
    (x.units * y.units / 2 ^ F.places : ℚ) = x.factor * y.units := by
  rw [factor]
  ring

/-- **A factor of at most one** makes no value larger, and so the product is not rounded to
infinity. -/
lemma isNearestCode_code_mul (hx : x.isFinite) (hy : y.isFinite) (hfactor : x.factor ≤ 1) :
    F.IsNearestCode (x.factor * y.units) (x.mul y).code ∧ (x.mul y).code ≤ y.code := by
  obtain ⟨code, hnearest, hcode, -⟩ := exists_isNearestCode_mul hx hy
  rw [mul_units_eq] at hnearest
  have hle : x.factor * y.units ≤ y.units := mul_le_of_le_one_left (Nat.cast_nonneg _) hfactor
  have hbelow : code ≤ y.code := by
    rcases hle.lt_or_eq with hlt | heq
    · exact hnearest.le_of_lt (F.isNearestCode_units y.code) hlt
    · rw [heq] at hnearest
      exact hnearest.eq_of_units.le
  simp only [isFinite, decide_eq_true_eq] at hy
  rw [hcode, min_eq_right (hbelow.trans hy.le)]
  exact ⟨hnearest, hbelow⟩

/-- **Above the lowest binades a factor below one** makes every value smaller. -/
lemma code_mul_lt (hx : x.isFinite) (hy : y.isFinite)
    (hfactor : x.factor ≤ 1 - 1 / 2 ^ F.significandBits) (hlarge : F.binadeSize < y.code) :
    (x.mul y).code < y.code := by
  have hone : x.factor ≤ 1 := hfactor.trans (sub_le_self _ (by positivity))
  obtain ⟨hnearest, hle⟩ := isNearestCode_code_mul hx hy hone
  refine hle.lt_of_ne fun hsame => ?_
  obtain ⟨below, hbelow⟩ := Nat.exists_eq_add_of_lt hlarge
  obtain ⟨code, hcode⟩ : ∃ code, y.code = code + 1 ∧ F.binadeSize ≤ code := ⟨_, hbelow, by omega⟩
  rw [units, hsame, hcode.1] at hnearest
  -- the product is not below the middle between the value and the one below it
  have hmiddle := hnearest.le_two_mul code.lt_succ_self
  have hstep : (F.units (code + 1) : ℚ) = F.units code + 2 ^ F.exponent code := by
    exact_mod_cast F.units_succ code
  have hleading : (F.binadeSize : ℚ) * 2 ^ F.exponent code ≤ F.units code := by
    exact_mod_cast Nat.mul_le_mul_right _ (Format.binadeSize_le_significand hcode.2)
  have hproduct : x.factor * F.units (code + 1)
      ≤ (1 - 1 / 2 ^ F.significandBits) * F.units (code + 1) :=
    mul_le_mul_of_nonneg_right hfactor (Nat.cast_nonneg _)
  have hsize : (0 : ℚ) < F.binadeSize := by exact_mod_cast F.binadeSize_pos
  have hloss : 1 / (2 * F.binadeSize : ℚ) * F.units (code + 1) * 2 ≤ 2 ^ F.exponent code := by
    rw [F.two_pow_significandBits] at hproduct
    linarith
  have hupper : (F.units (code + 1) : ℚ) ≤ F.binadeSize * 2 ^ F.exponent code := by
    field_simp at hloss
    linarith
  have hpos : (0 : ℚ) < 2 ^ F.exponent code := by positivity
  linarith

/-- **In the lowest binades the largest factor below one** leaves every value as it is. -/
lemma code_mul_eq (hx : x.isFinite) (hy : y.isFinite)
    (hfactor : x.factor = 1 - 1 / 2 ^ F.significandBits) (hsmall : y.code ≤ F.binadeSize) :
    (x.mul y).code = y.code := by
  have hone : x.factor ≤ 1 := hfactor.trans_le (sub_le_self _ (by positivity))
  obtain ⟨hnearest, hle⟩ := isNearestCode_code_mul hx hy hone
  refine hle.eq_of_not_lt fun hlt => ?_
  have hunits : (F.units y.code : ℚ) = y.code := by
    rw [Format.units_of_le (by omega)]
  have hunits' : (F.units (x.mul y).code : ℚ) = (x.mul y).code := by
    rw [Format.units_of_le (by omega)]
  have hsize : (0 : ℚ) < F.binadeSize := by exact_mod_cast F.binadeSize_pos
  have hsmall' : (y.code : ℚ) ≤ F.binadeSize := by exact_mod_cast hsmall
  have hlt' : ((x.mul y).code + 1 : ℚ) ≤ y.code := by exact_mod_cast hlt
  have hproduct : x.factor * y.units = y.code - y.code / (2 * F.binadeSize) := by
    rw [hfactor, F.two_pow_significandBits, units, hunits]
    ring
  rw [hproduct] at hnearest
  have hupper := hnearest.two_mul_le hlt
  rw [hunits', hunits] at hupper
  -- the factor takes half of a unit at most, and it has to take as much from the value
  have hloss : (y.code : ℚ) / (2 * F.binadeSize) ≤ 1 / 2 := by
    rw [div_le_div_iff₀ (by positivity) two_pos]
    linarith
  have hhalf : (y.code : ℚ) / (2 * F.binadeSize) = 1 / 2 := by linarith
  have hcode : y.code = F.binadeSize := by
    rw [div_eq_div_iff (by positivity) two_ne_zero] at hhalf
    have : (y.code : ℚ) = F.binadeSize := by linarith
    exact_mod_cast this
  have hbelow : (x.mul y).code + 1 = y.code := by
    have : ((x.mul y).code : ℚ) + 1 = y.code := by linarith
    exact_mod_cast this
  -- so the product is in the middle of two values, and the upper one is even
  have heven := hnearest.even_of_middle hlt (by rw [hunits', hunits]; linarith)
  obtain ⟨a, ha⟩ := heven
  obtain ⟨b, hb⟩ := F.even_binadeSize
  omega

end Binary

end WaveletPrecision
