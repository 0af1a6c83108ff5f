import WaveletPrecision.Proofs.Binary.Nearest

/-
When the result of an operation is not a number.

A not-a-number among the operands is never lost.  Beside it there are only the operations that have
no value: the sum of infinities of opposite signs, their difference if the signs are equal, and the
quotients of two infinities and of two zeros (`Binary.isNaN_add_iff`, `Binary.isNaN_sub_iff`,
`Binary.isNaN_div_iff`).

Numbers without a negative sign are never subtracted from one another by adding them, so a sum of
such numbers is a number again, however many of them are infinite (`Binary.isNaN_foldl_add_iff`).

A natural number that is not zero and in the range of the format is rounded to a finite value that
is not zero (`Binary.isInfinite_ofNat`, `Binary.isZero_ofNat`).
-/
namespace WaveletPrecision

-- Powers are those of the core library, whatever else is imported beside this module.
attribute [local instance (high)] instPowNat

namespace Binary

variable {F : Format} {x y : Binary F}

/-! ### Single values -/

lemma isNaN_eq_false_of_code_le (h : x.code ≤ F.infinityCode) : x.isNaN = false := by
  simpa [isNaN] using h

@[simp] lemma isNaN_quietNaN (negative : Bool) (payload : ℕ) :
    (quietNaN negative payload : Binary F).isNaN = true := by
  have hbit : 0 < F.quietBit := Nat.two_pow_pos _
  have hle : F.quietBit ≤ payload % 2 ^ F.fractionBits ||| F.quietBit := Nat.right_le_or
  exact decide_eq_true (Nat.lt_add_of_pos_right (Nat.lt_of_lt_of_le hbit hle))

@[simp] lemma isNaN_propagate (x y : Binary F) : (propagate x y).isNaN = true := by
  rw [propagate]
  split <;> exact isNaN_quietNaN ..

@[simp] lemma isNaN_zero (negative : Bool) : (zero negative : Binary F).isNaN = false :=
  isNaN_eq_false_of_code_le (Nat.zero_le _)

@[simp] lemma isNaN_infinity (negative : Bool) : (infinity negative : Binary F).isNaN = false :=
  isNaN_eq_false_of_code_le le_rfl

@[simp] lemma isNaN_ofScaled (negative : Bool) (m : ℕ) (scale : ℤ) :
    (ofScaled negative m scale : Binary F).isNaN = false :=
  isNaN_eq_false_of_code_le (F.roundScaled_le m scale)

@[simp] lemma isNaN_divFinite (x y : Binary F) : (divFinite x y).isNaN = false :=
  isNaN_eq_false_of_code_le (F.roundScaledRatio_le _ _ _)

@[simp] lemma isNaN_addFinite (x y : Binary F) : (addFinite x y).isNaN = false := by
  dsimp only [addFinite]
  split_ifs <;> simp

@[simp] lemma isNaN_abs : x.abs.isNaN = x.isNaN := rfl

@[simp] lemma isInfinite_abs : x.abs.isInfinite = x.isInfinite := rfl

@[simp] lemma isZero_abs : x.abs.isZero = x.isZero := rfl

lemma not_isInfinite_of_isZero (h : x.isZero) : x.isInfinite = false := by
  have hpos := F.infinityCode_pos
  simp only [isZero, isInfinite, decide_eq_true_eq, decide_eq_false_iff_not] at h ⊢
  omega

/-! ### Operations -/

lemma add_of_isNaN (h : x.isNaN ∨ y.isNaN) : x.add y = propagate x y :=
  if_pos (by simpa using h)

/-- **The sum** of infinities of opposite signs is not a number. -/
lemma isNaN_add_iff : (x.add y).isNaN ↔
    x.isNaN ∨ y.isNaN ∨ x.isInfinite ∧ y.isInfinite ∧ x.negative ≠ y.negative := by
  by_cases hnan : x.isNaN ∨ y.isNaN
  · rw [add_of_isNaN hnan, isNaN_propagate]
    exact iff_of_true rfl (hnan.imp id .inl)
  · obtain ⟨hx, hy⟩ := not_or.mp hnan
    rw [add, if_neg (by simpa using hnan)]
    split
    · -- an infinity stays, unless it meets the other one
      split
      · simp_all [invalid]
      · simp_all
    · split
      · simp_all
      · simp_all

lemma isNaN_sub_iff : (x.sub y).isNaN ↔
    x.isNaN ∨ y.isNaN ∨ x.isInfinite ∧ y.isInfinite ∧ x.negative = y.negative := by
  by_cases hnan : x.isNaN ∨ y.isNaN
  · have hsub : x.sub y = propagate x y := if_pos (by simpa using hnan)
    rw [hsub, isNaN_propagate]
    exact iff_of_true rfl (hnan.imp id .inl)
  · rw [sub, if_neg (by simpa using hnan), isNaN_add_iff]
    change x.isNaN ∨ y.isNaN ∨ x.isInfinite ∧ y.isInfinite ∧ x.negative ≠ !y.negative ↔ _
    rw [ne_eq, Bool.not_eq_not]

lemma isNaN_sub_iff_of_isZero (hy : y.isZero) : (x.sub y).isNaN ↔ x.isNaN := by
  have hnan : y.isNaN = false := by
    simp only [isZero, isNaN, decide_eq_true_eq, decide_eq_false_iff_not] at hy ⊢
    omega
  simp [isNaN_sub_iff, hnan, not_isInfinite_of_isZero hy]

lemma isInfinite_sub_of_isInfinite (hy : y.isInfinite) (h : ¬(x.sub y).isNaN) :
    (x.sub y).isInfinite := by
  rw [isNaN_sub_iff, not_or, not_or] at h
  obtain ⟨hx, hnan, hsigns⟩ := h
  have hneg : y.neg.isInfinite := hy
  have hneg' : ¬y.neg.isNaN := hnan
  rw [sub, if_neg (by simp [hx, hnan]), add, if_neg (by simp [hx, hneg'])]
  split
  · rename_i hxinf
    rw [if_neg]
    · exact hxinf
    · simp_all [neg]
  · exact hneg

/-- **The quotient** of two infinities, and that of two zeros, is not a number. -/
lemma isNaN_div_iff : (x.div y).isNaN ↔
    x.isNaN ∨ y.isNaN ∨ x.isInfinite ∧ y.isInfinite ∨ x.isZero ∧ y.isZero := by
  by_cases hnan : x.isNaN ∨ y.isNaN
  · have hdiv : x.div y = propagate x y := if_pos (by simpa using hnan)
    rw [hdiv, isNaN_propagate]
    exact iff_of_true rfl (hnan.imp id .inl)
  · obtain ⟨hx, hy⟩ := not_or.mp hnan
    rw [div, if_neg (by simpa using hnan)]
    split
    · rename_i hinf
      have hzero : x.isZero ≠ true := fun h => by simp [not_isInfinite_of_isZero h] at hinf
      split <;> simp_all [invalid]
    · split
      · rename_i hinf
        have hzero : y.isZero ≠ true := fun h => by simp [not_isInfinite_of_isZero h] at hinf
        simp_all
      · split
        · split <;> simp_all [invalid]
        · simp_all

/-- **A relative error** is not a number if its operands are not numbers, or the reference is
infinite. -/
lemma isNaN_relativeError_iff (hzero : ¬y.isZero) :
    ((x.sub y).abs.div y.abs).isNaN ↔ x.isNaN ∨ y.isNaN ∨ y.isInfinite := by
  rw [isNaN_div_iff]
  simp only [isNaN_abs, isInfinite_abs, isZero_abs]
  constructor
  · rintro (h | h | ⟨-, h⟩ | ⟨-, h⟩)
    · exact (isNaN_sub_iff.mp h).imp id fun h => h.imp id fun h => h.2.1
    · exact .inr (.inl h)
    · exact .inr (.inr h)
    · exact absurd h hzero
  · rintro (h | h | h)
    · exact .inl (isNaN_sub_iff.mpr (.inl h))
    · exact .inr (.inl h)
    · by_cases hnan : (x.sub y).isNaN
      · exact .inl hnan
      · exact .inr (.inr (.inl ⟨isInfinite_sub_of_isInfinite h hnan, h⟩))

lemma isNaN_larger_iff : (x.larger y).isNaN ↔ x.isNaN ∨ y.isNaN := by
  rw [larger]
  split
  · rename_i hnan
    rw [isNaN_quietNaN]
    exact iff_of_true rfl (by simpa using hnan)
  · split <;> simp_all

/-- The larger of many values is not a number if one of them is not, wherever it stands. -/
lemma isNaN_foldl_larger_iff {l : List (Binary F)} :
    (l.foldl larger x).isNaN ↔ x.isNaN ∨ ∃ y ∈ l, y.isNaN := by
  induction l generalizing x with
  | nil => simp
  | cons y l ih => simp only [List.foldl_cons, ih, isNaN_larger_iff, or_assoc, List.mem_cons,
      exists_eq_or_imp]

/-! ### Sums of values without a negative sign -/

/-- The value has no negative sign, if it is a number. -/
def IsUnsigned (x : Binary F) : Prop := x.isNaN ∨ x.negative = false

lemma isUnsigned_add (hx : x.IsUnsigned) (hy : y.IsUnsigned) : (x.add y).IsUnsigned := by
  by_cases hnan : x.isNaN ∨ y.isNaN
  · rw [add_of_isNaN hnan]
    exact .inl (isNaN_propagate x y)
  · obtain ⟨hx', hy'⟩ := not_or.mp hnan
    have hxs := hx.resolve_left hx'
    have hys := hy.resolve_left hy'
    refine .inr ?_
    rw [add, if_neg (by simpa using hnan), addFinite, if_pos (hxs.trans hys.symm), hxs, hys,
      if_neg (by simp : ¬(y.isInfinite && false != false) = true)]
    split
    · exact hxs
    · split
      · exact hys
      · rfl

lemma isUnsigned_div (hx : x.negative = false) (hy : y.negative = false) :
    (x.div y).IsUnsigned := by
  by_cases hnan : (x.div y).isNaN
  · exact .inl hnan
  · refine .inr ?_
    rw [isNaN_div_iff, not_or, not_or, not_or] at hnan
    obtain ⟨hx', hy', hinf, hzero⟩ := hnan
    rw [div, if_neg (by simp [hx', hy']), divFinite, hx, hy]
    split
    · rename_i hxinf
      rw [if_neg fun hyinf => hinf ⟨hxinf, hyinf⟩]
      rfl
    · split
      · rfl
      · split
        · rename_i hyzero
          rw [if_neg fun hxzero => hzero ⟨hxzero, hyzero⟩]
          rfl
        · rfl

/-- **A sum of values without a negative sign** is not a number if one of them is not. -/
lemma isNaN_foldl_add_iff {l : List (Binary F)} (hx : x.IsUnsigned) (hl : ∀ y ∈ l, y.IsUnsigned) :
    (l.foldl add x).isNaN ↔ x.isNaN ∨ ∃ y ∈ l, y.isNaN := by
  induction l generalizing x with
  | nil => simp
  | cons y l ih =>
    rw [List.forall_mem_cons] at hl
    have hadd : (x.add y).isNaN ↔ x.isNaN ∨ y.isNaN := by
      -- the signs of two numbers among them are the same
      rw [isNaN_add_iff, ← or_assoc, or_iff_left_of_imp]
      rintro ⟨-, -, hsigns⟩
      by_contra hnan
      obtain ⟨hx', hy'⟩ := not_or.mp hnan
      exact hsigns ((hx.resolve_left hx').trans (hl.1.resolve_left hy').symm)
    simp only [List.foldl_cons, ih (isUnsigned_add hx hl.1) hl.2, hadd, or_assoc, List.mem_cons,
      exists_eq_or_imp]

/-! ### Natural numbers -/

@[simp] lemma isNaN_ofNat (n : ℕ) : (ofNat n : Binary F).isNaN = false := isNaN_ofScaled ..

/-- A natural number is rounded to its nearest code. -/
lemma exists_isNearestCode_ofNat (n : ℕ) : ∃ code,
    F.IsNearestCode (n * 2 ^ F.places) code ∧
      (ofNat n : Binary F).code = min F.infinityCode code := by
  obtain ⟨code, hcode, hround⟩ :=
    exists_isNearestCode_ofScaled (F := F) false n
      (show (F.places : ℤ) = F.places - (0 : ℕ) by simp)
  exact ⟨code, by simpa using hcode, hround⟩

/-- A number in the range of the format is not rounded to infinity. -/
lemma isInfinite_ofNat {n : ℕ} (hn : (n : ℚ) < F.overflow) :
    (ofNat n : Binary F).isInfinite = false := by
  obtain ⟨code, hcode, hround⟩ := exists_isNearestCode_ofNat (F := F) n
  have hlt : code < F.infinityCode := by
    rw [← not_le, hcode.infinityCode_le_iff, not_le]
    exact mul_lt_mul_of_pos_right hn (by positivity)
  simp only [isInfinite, hround, decide_eq_false_iff_not]
  omega

lemma isZero_ofNat {n : ℕ} (hn : n ≠ 0) : (ofNat n : Binary F).isZero = false := by
  obtain ⟨code, hcode, hround⟩ := exists_isNearestCode_ofNat (F := F) n
  have hpos := F.infinityCode_pos
  suffices code ≠ 0 by
    simp only [isZero, hround, decide_eq_false_iff_not]
    omega
  rintro rfl
  -- one unit is nearer than nothing
  have hunit : F.units 1 = 1 := by
    have hexponent : F.exponent 0 = 0 := by rw [F.exponent_eq, Nat.zero_div]
    rw [F.units_succ, F.units_zero, hexponent, Nat.zero_add, Nat.pow_zero]
  have hlarge : (1 : ℚ) ≤ n * 2 ^ F.places := by
    exact_mod_cast Nat.mul_pos (Nat.pos_of_ne_zero hn) (Nat.two_pow_pos F.places)
  have hnearest := hcode.nearest 1
  rw [F.units_zero, hunit, Nat.cast_zero, Nat.cast_one, sub_zero, abs_of_nonneg (by linarith),
    abs_of_nonneg (by linarith)] at hnearest
  linarith

end Binary

/-- The numbers below the powers of two of the format are in its range. -/
lemma Format.lt_overflow (F : Format) {n e : ℕ} (he : e < 2 ^ (F.exponentBits - 1))
    (hn : n < 2 ^ e) : (n : ℚ) < F.overflow := by
  have hle : (1 : ℚ) ≤ 2 - 1 / 2 ^ F.significandBits := by
    have hpow : (1 : ℚ) ≤ 2 ^ F.significandBits := one_le_pow₀ one_le_two
    have hinv : 1 / 2 ^ F.significandBits ≤ (1 : ℚ) := (div_le_one (by positivity)).mpr hpow
    linarith
  calc (n : ℚ) < 2 ^ e := by exact_mod_cast hn
    _ ≤ 2 ^ (2 ^ (F.exponentBits - 1) - 1) := pow_le_pow_right₀ one_le_two (Nat.le_sub_one_of_lt he)
    _ ≤ F.overflow := le_mul_of_one_le_right (by positivity) hle

end WaveletPrecision
