import Mathlib.Algebra.Order.AbsoluteValue.Basic
import Mathlib.Algebra.Order.Field.Basic
import Mathlib.Algebra.Ring.Parity
import Mathlib.Data.Nat.Cast.Order.Field
import Mathlib.Data.Rat.Cast.Order
import Mathlib.Tactic.FieldSimp
import Mathlib.Tactic.Linarith
import Mathlib.Tactic.LinearCombination
import Mathlib.Tactic.NormNum
import Mathlib.Tactic.Positivity
import Mathlib.Tactic.Ring
import WaveletPrecision.Proofs.Binary.Value

/-
Rounding to nearest is nearest.

The codes of a format number its magnitudes without a gap, so the codes above that of infinity can
be taken to number the magnitudes that the format would have with a larger exponent range.  Over
all of these codes, rounding finds the nearest magnitude, and of two equally near ones the one
with the even code (`Format.IsNearestCode`), which is the one with the even significand.  A number
is rounded to infinity if its nearest code is not below that of infinity, and that is the case
from the usual threshold on, half of a step above the largest finite magnitude
(`Format.IsNearestCode.infinityCode_le_iff`).

* `roundHalfEven` is a nearest integer (`abs_sub_roundHalfEven_le`), and an even one if it is not
  the only one (`even_roundHalfEven`);
* `Format.exists_isNearestCode` says what `Format.roundRatio` finds;
* `Binary.IsNearestEven` is what a value of a format has to be, so that it is the rounding of a
  rational number, and `Binary.isNearestEven_convert` says that a value which is converted into
  another format is rounded in this sense.
-/
namespace WaveletPrecision

-- Powers are those of the core library, whatever else is imported beside this module.
attribute [local instance (high)] instPowNat

/-! ### Distances -/

section Distances

variable {v a b : ℚ}

/-- Of two numbers the lower one is nearer up to the middle. -/
lemma abs_sub_le_abs_sub_iff_le (h : a < b) : |v - a| ≤ |v - b| ↔ 2 * v ≤ a + b := by
  rw [← sq_le_sq]
  constructor
  · intro hle
    nlinarith
  · intro hle
    nlinarith

lemma abs_sub_le_abs_sub_iff_ge (h : a < b) : |v - b| ≤ |v - a| ↔ a + b ≤ 2 * v := by
  rw [← sq_le_sq]
  constructor
  · intro hle
    nlinarith
  · intro hle
    nlinarith

end Distances

/-! ### Integers -/

section Integers

variable {n d : ℕ}

lemma cast_div_eq (n d : ℕ) (hd : 0 < d) :
    (n : ℚ) / d = (n / d : ℕ) + ((n % d : ℕ) : ℚ) / d := by
  have hd' : (d : ℚ) ≠ 0 := by positivity
  have hsplit : (n : ℚ) = d * (n / d : ℕ) + (n % d : ℕ) := by
    exact_mod_cast (Nat.div_add_mod n d).symm
  field_simp
  exact hsplit

lemma abs_sub_roundHalfEven_le (n : ℕ) (hd : 0 < d) :
    |(n : ℚ) / d - roundHalfEven n d| ≤ 1 / 2 := by
  have hd' : (0 : ℚ) < d := by exact_mod_cast hd
  have hr : n % d < d := Nat.mod_lt n hd
  rw [cast_div_eq n d hd, roundHalfEven]
  split
  · rename_i h
    have hle : 2 * (n % d) ≤ d := by omega
    have hle' : (2 : ℚ) * (n % d : ℕ) ≤ d := by exact_mod_cast hle
    rw [add_sub_cancel_left, abs_of_nonneg (by positivity), div_le_div_iff₀ hd' two_pos]
    linarith
  · rename_i h
    have hle : d ≤ 2 * (n % d) := by omega
    have hle' : (d : ℚ) ≤ 2 * (n % d : ℕ) := by exact_mod_cast hle
    have hlt : ((n % d : ℕ) : ℚ) / d ≤ 1 := by
      rw [div_le_one hd']
      exact_mod_cast hr.le
    have hge : 1 / 2 ≤ ((n % d : ℕ) : ℚ) / d := by
      rw [div_le_div_iff₀ two_pos hd']
      linarith
    push_cast
    rw [abs_le]
    constructor <;> linarith

lemma two_mul_mod_eq (hd : 0 < d) (h : ((n % d : ℕ) : ℚ) / d = 1 / 2) : 2 * (n % d) = d := by
  have hd' : (0 : ℚ) < d := by exact_mod_cast hd
  rw [div_eq_div_iff hd'.ne' two_ne_zero, one_mul, mul_comm] at h
  exact_mod_cast h

lemma even_roundHalfEven (n : ℕ) (hd : 0 < d) (h : |(n : ℚ) / d - roundHalfEven n d| = 1 / 2) :
    Even (roundHalfEven n d) := by
  have hd' : (0 : ℚ) < d := by exact_mod_cast hd
  rw [cast_div_eq n d hd] at h
  rw [roundHalfEven] at h ⊢
  split
  · rename_i hcase
    rw [if_pos hcase, add_sub_cancel_left, abs_of_nonneg (by positivity)] at h
    have hmiddle := two_mul_mod_eq hd h
    rw [Nat.even_iff]
    omega
  · rename_i hcase
    rw [if_neg hcase, Nat.cast_succ, add_sub_add_left_eq_sub] at h
    have hle : ((n % d : ℕ) : ℚ) / d - 1 ≤ 0 := by
      rw [sub_nonpos, div_le_one hd']
      exact_mod_cast (Nat.mod_lt n hd).le
    rw [abs_of_nonpos hle] at h
    have hhalf : ((n % d : ℕ) : ℚ) / d = 1 / 2 := by linarith
    have hmiddle := two_mul_mod_eq hd hhalf
    rw [Nat.even_iff]
    omega

end Integers

/-! ### Magnitudes -/

namespace Format

variable (F : Format)

lemma binadeSize_pos : 0 < F.binadeSize := Nat.two_pow_pos _

lemma even_binadeSize : Even F.binadeSize := by
  rw [binadeSize, Nat.even_pow]
  exact ⟨even_two, F.fractionBits_pos.ne'⟩

lemma exponent_eq (code : ℕ) : F.exponent code = code / F.binadeSize - 1 := by
  rw [exponent, Nat.shiftRight_eq_div_pow, binadeSize]

/-- A code is known from its exponent and its significand. -/
lemma exponent_mul_add (code : ℕ) : F.exponent code * F.binadeSize + F.significand code = code := by
  have hdiv := Nat.div_add_mod' code F.binadeSize
  rw [exponent_eq, significand]
  split
  · rename_i hlow
    rw [Nat.div_eq_of_lt hlow, Nat.zero_sub, Nat.zero_mul, Nat.zero_add]
  · rename_i hhigh
    have hpos : 1 ≤ code / F.binadeSize :=
      (Nat.one_le_div_iff F.binadeSize_pos).mpr (Nat.le_of_not_lt hhigh)
    obtain ⟨k, hk⟩ := Nat.exists_eq_add_of_le' hpos
    rw [hk, Nat.add_mul, Nat.one_mul] at hdiv
    rw [hk, Nat.add_sub_cancel]
    omega

lemma significand_lt (code : ℕ) : F.significand code < 2 * F.binadeSize := by
  have hmod := Nat.mod_lt code F.binadeSize_pos
  rw [significand]
  split <;> omega

lemma exponent_eq_zero_or (code : ℕ) :
    F.exponent code = 0 ∨ F.binadeSize ≤ F.significand code := by
  rw [exponent_eq, significand]
  split
  · rename_i hlow
    exact .inl (by rw [Nat.div_eq_of_lt hlow])
  · exact .inr (Nat.le_add_right _ _)

/-- The magnitude of a significand and an exponent; the significand may also be that of the code
behind the binade. -/
lemma units_mul_add {k m : ℕ} (hk : k = 0 ∨ F.binadeSize ≤ m) (hm : m ≤ 2 * F.binadeSize) :
    F.units (k * F.binadeSize + m) = m * 2 ^ k := by
  have hpos := F.binadeSize_pos
  rcases hm.lt_or_eq with hlt | rfl
  · rcases Nat.lt_or_ge m F.binadeSize with hlow | hhigh
    · -- the significand of a code of the lowest binade is the code
      obtain rfl : k = 0 := hk.resolve_right (Nat.not_le_of_lt hlow)
      rw [Nat.zero_mul, Nat.zero_add, units, significand, if_pos hlow, exponent_eq,
        Nat.div_eq_of_lt hlow]
    · obtain ⟨f, rfl⟩ := Nat.exists_eq_add_of_le hhigh
      have hf : f < F.binadeSize := by omega
      have hcode : k * F.binadeSize + (F.binadeSize + f) = f + F.binadeSize * (k + 1) := by ring
      have hlarge : ¬f + F.binadeSize * (k + 1) < F.binadeSize := by
        rw [Nat.mul_succ]
        omega
      rw [hcode, units, significand, if_neg hlarge, exponent_eq, Nat.add_mul_mod_self_left,
        Nat.mod_eq_of_lt hf, Nat.add_mul_div_left _ _ hpos, Nat.div_eq_of_lt hf, Nat.zero_add,
        Nat.add_sub_cancel]
  · -- the lowest code of the next binade
    have hcode : k * F.binadeSize + 2 * F.binadeSize = F.binadeSize * (k + 2) := by ring
    have hlarge : ¬F.binadeSize * (k + 2) < F.binadeSize := by
      rw [Nat.mul_add]
      omega
    rw [hcode, units, significand, if_neg hlarge, exponent_eq, Nat.mul_mod_right, Nat.add_zero,
      Nat.mul_div_cancel_left _ hpos, show k + 2 - 1 = k + 1 by omega, Nat.pow_succ]
    ring

/-- One code further, the magnitude is one step of its binade larger. -/
lemma units_succ (code : ℕ) : F.units (code + 1) = F.units code + 2 ^ F.exponent code := by
  have hcode : code + 1 = F.exponent code * F.binadeSize + (F.significand code + 1) := by
    rw [← Nat.add_assoc, exponent_mul_add]
  have hexponent : F.exponent code = 0 ∨ F.binadeSize ≤ F.significand code + 1 :=
    (F.exponent_eq_zero_or code).imp id Nat.le_succ_of_le
  rw [hcode, F.units_mul_add hexponent (F.significand_lt code), units, Nat.add_mul, Nat.one_mul]

lemma units_strictMono : StrictMono F.units :=
  strictMono_nat_of_lt_succ fun code => by
    rw [units_succ]
    exact Nat.lt_add_of_pos_right (Nat.two_pow_pos _)

@[simp] lemma units_zero : F.units 0 = 0 := by
  rw [units, significand, if_pos F.binadeSize_pos, Nat.zero_mul]

lemma even_significand_iff (code : ℕ) : Even (F.significand code) ↔ Even code := by
  have heven : Even (F.exponent code * F.binadeSize) := F.even_binadeSize.mul_left _
  conv_rhs => rw [← F.exponent_mul_add code]
  rw [Nat.even_add]
  exact ⟨fun h => iff_of_true heven h, fun h => h.mp heven⟩

/-! ### The nearest code -/

/-- A code numbers the magnitude nearest to so many units, and is even if another magnitude is as
near. -/
structure IsNearestCode (v : ℚ) (code : ℕ) : Prop where
  nearest : ∀ other, |v - F.units code| ≤ |v - F.units other|
  even : ∀ other, other ≠ code → |v - F.units code| = |v - F.units other| → Even code

/-- The magnitudes above a code, up to a power of two, are multiples of the step at the code; so a
magnitude below it is the only kind that is not such a multiple. -/
lemma units_eq_mul_or_lt (k code : ℕ) :
    (∃ m, F.units code = m * 2 ^ k) ∨ k ≠ 0 ∧ F.units code < F.binadeSize * 2 ^ k := by
  rcases Nat.lt_or_ge (F.exponent code) k with hlt | hle
  · right
    refine ⟨Nat.ne_zero_of_lt hlt, ?_⟩
    calc F.units code = F.significand code * 2 ^ F.exponent code := rfl
      _ < 2 * F.binadeSize * 2 ^ F.exponent code :=
        Nat.mul_lt_mul_of_pos_right (F.significand_lt code) (Nat.two_pow_pos _)
      _ = F.binadeSize * 2 ^ (F.exponent code + 1) := by rw [Nat.pow_succ]; ring
      _ ≤ F.binadeSize * 2 ^ k :=
        Nat.mul_le_mul_left _ (Nat.pow_le_pow_right two_pos hlt)
  · left
    obtain ⟨j, hj⟩ := Nat.exists_eq_add_of_le' hle
    exact ⟨F.significand code * 2 ^ j, by rw [units, hj, Nat.pow_add, Nat.mul_assoc]⟩

/-- A number of units lies in the binade with the exponent `k`, and `q` steps of this binade are
nearest to it. -/
structure IsNearestInBinade (v : ℚ) (k q : ℕ) : Prop where
  le : k ≠ 0 → F.binadeSize * 2 ^ k ≤ v
  exponent : k = 0 ∨ F.binadeSize ≤ q
  significand : q ≤ 2 * F.binadeSize
  nearest : |v - q * 2 ^ k| ≤ 2 ^ k / 2
  even : |v - q * 2 ^ k| = 2 ^ k / 2 → Even q

section InBinade

variable {F} {v : ℚ} {k q : ℕ} (h : F.IsNearestInBinade v k q)

include h

lemma IsNearestInBinade.units : (F.units (k * F.binadeSize + q) : ℚ) = q * 2 ^ k := by
  exact_mod_cast F.units_mul_add h.exponent h.significand

lemma IsNearestInBinade.half_le {m : ℕ} (hm : m ≠ q) : 2 ^ k / 2 ≤ |v - m * 2 ^ k| := by
  have hstep : (0 : ℚ) < 2 ^ k := by positivity
  have hgap : (2 : ℚ) ^ k ≤ |(m : ℚ) * 2 ^ k - q * 2 ^ k| := by
    have hint : (1 : ℤ) ≤ |(m : ℤ) - q| := Int.one_le_abs (by omega)
    have hcast : (1 : ℚ) ≤ |(m : ℚ) - q| := by exact_mod_cast hint
    rw [← sub_mul, abs_mul, abs_of_pos hstep]
    exact le_mul_of_one_le_left hstep.le hcast
  have htriangle : |(m : ℚ) * 2 ^ k - q * 2 ^ k| ≤ |v - m * 2 ^ k| + |v - q * 2 ^ k| := by
    rw [abs_sub_comm v (m * 2 ^ k)]
    exact abs_sub_le _ _ _
  linarith [h.nearest]

lemma IsNearestInBinade.le_multiple (m : ℕ) : |v - q * 2 ^ k| ≤ |v - m * 2 ^ k| := by
  rcases eq_or_ne m q with rfl | hm
  · exact le_rfl
  · exact h.nearest.trans (h.half_le hm)

/-- What lies below the binade is further away than the multiples of its step. -/
lemma IsNearestInBinade.lt_below {u : ℕ} (hk : k ≠ 0) (hu : u < F.binadeSize * 2 ^ k) :
    |v - q * 2 ^ k| < |v - u| := by
  have hu' : (u : ℚ) < F.binadeSize * 2 ^ k := by exact_mod_cast hu
  calc |v - q * 2 ^ k| ≤ |v - F.binadeSize * 2 ^ k| := h.le_multiple F.binadeSize
    _ = v - F.binadeSize * 2 ^ k := abs_of_nonneg (by linarith [h.le hk])
    _ < v - u := by linarith
    _ ≤ |v - u| := le_abs_self _

/-- **The nearest number of steps is the nearest code**: every magnitude is a multiple of the step,
or lies below the binade. -/
lemma IsNearestInBinade.isNearestCode : F.IsNearestCode v (k * F.binadeSize + q) := by
  constructor
  · intro other
    rw [h.units]
    rcases F.units_eq_mul_or_lt k other with ⟨m, hm⟩ | ⟨hk, hlt⟩
    · rw [hm]
      exact_mod_cast h.le_multiple m
    · exact (h.lt_below hk hlt).le
  · intro other hother heq
    rw [h.units] at heq
    rcases F.units_eq_mul_or_lt k other with ⟨m, hm⟩ | ⟨hk, hlt⟩
    · have hmq : m ≠ q := by
        rintro rfl
        refine hother (F.units_strictMono.injective ?_)
        rw [hm, F.units_mul_add h.exponent h.significand]
      rw [hm, Nat.cast_mul, Nat.cast_pow, Nat.cast_ofNat] at heq
      have hmiddle : |v - q * 2 ^ k| = 2 ^ k / 2 :=
        h.nearest.antisymm ((h.half_le hmq).trans_eq heq.symm)
      exact (F.even_binadeSize.mul_left k).add (h.even hmiddle)
    · exact absurd heq (h.lt_below hk hlt).ne

end InBinade

/-- The exponent that rounding takes is that of the binade of the ratio. -/
lemma binade_bounds (n : ℕ) {d k : ℕ} (hd : 0 < d) (hk : k = (n / d).log2 - F.fractionBits) :
    (k ≠ 0 → (F.binadeSize * 2 ^ k : ℚ) ≤ n / d) ∧ (n / d : ℚ) < 2 * F.binadeSize * 2 ^ k := by
  have hd' : (0 : ℚ) < d := by exact_mod_cast hd
  have hsize : F.binadeSize * 2 ^ k = 2 ^ (F.fractionBits + k) := by rw [binadeSize, Nat.pow_add]
  constructor
  · intro hne
    have hlog : F.fractionBits + k = (n / d).log2 := by omega
    have hlower : F.binadeSize * 2 ^ k ≤ n / d := by
      rw [hsize, hlog]
      refine Nat.log2_self_le fun hzero => hne ?_
      rw [hk, hzero]
      exact Nat.zero_sub _
    rw [le_div_iff₀ hd']
    exact_mod_cast (Nat.le_div_iff_mul_le hd).mp hlower
  · have hupper : n / d < 2 * F.binadeSize * 2 ^ k := by
      rw [Nat.mul_assoc, hsize, ← Nat.pow_succ']
      exact Nat.lt_of_lt_of_le Nat.lt_log2_self (Nat.pow_le_pow_right two_pos (by omega))
    rw [div_lt_iff₀ hd']
    exact_mod_cast (Nat.div_lt_iff_lt_mul hd).mp hupper

/-- Rounding takes the nearest number of steps of the binade of the ratio. -/
lemma exists_isNearestInBinade (n : ℕ) {d : ℕ} (hd : 0 < d) :
    ∃ k q, F.IsNearestInBinade ((n : ℚ) / d) k q ∧
      F.roundRatio n d = min F.infinityCode (k * F.binadeSize + q) := by
  obtain ⟨k, hk⟩ : ∃ k, k = (n / d).log2 - F.fractionBits := ⟨_, rfl⟩
  obtain ⟨q, hq⟩ : ∃ q, q = roundHalfEven n (d * 2 ^ k) := ⟨_, rfl⟩
  obtain ⟨hle, hlt⟩ := F.binade_bounds n hd hk
  have hstep : (0 : ℚ) < 2 ^ k := by positivity
  have hpos : 0 < d * 2 ^ k := Nat.mul_pos hd (Nat.two_pow_pos k)
  -- the ratio, counted in steps of the binade, and its distance from `q` steps
  have hdistance : |(n : ℚ) / d - q * 2 ^ k| = |(n : ℚ) / (d * 2 ^ k : ℕ) - q| * 2 ^ k := by
    rw [← abs_of_pos hstep, ← abs_mul, abs_of_pos hstep, sub_mul]
    push_cast
    rw [div_mul_eq_mul_div, mul_div_mul_right _ _ hstep.ne']
  have hhalf : (2 : ℚ) ^ k / 2 = 1 / 2 * 2 ^ k := by ring
  have hnearest : |(n : ℚ) / d - q * 2 ^ k| ≤ 2 ^ k / 2 := by
    rw [hdistance, hq, hhalf]
    exact mul_le_mul_of_nonneg_right (abs_sub_roundHalfEven_le n hpos) hstep.le
  have hsides := abs_le.mp hnearest
  refine ⟨k, q, ⟨hle, ?_, ?_, hnearest, ?_⟩, by rw [roundRatio, hq, hk]⟩
  · refine or_iff_not_imp_left.mpr fun hne => ?_
    have : (F.binadeSize * 2 ^ k : ℚ) < (q + 1 : ℕ) * 2 ^ k := by
      push_cast
      linarith [hle hne]
    exact Nat.lt_succ_iff.mp (by exact_mod_cast lt_of_mul_lt_mul_right this hstep.le)
  · have : (q * 2 ^ k : ℚ) < (2 * F.binadeSize + 1 : ℕ) * 2 ^ k := by
      push_cast
      linarith
    exact Nat.lt_succ_iff.mp (by exact_mod_cast lt_of_mul_lt_mul_right this hstep.le)
  · intro hmiddle
    rw [hdistance, hhalf] at hmiddle
    rw [hq]
    exact even_roundHalfEven n hpos (hq ▸ mul_right_cancel₀ hstep.ne' hmiddle)

/-- **What rounding finds** is the nearest code, or infinity if that is not below it. -/
lemma exists_isNearestCode (n : ℕ) {d : ℕ} (hd : 0 < d) :
    ∃ code, F.IsNearestCode ((n : ℚ) / d) code ∧ F.roundRatio n d = min F.infinityCode code := by
  obtain ⟨k, q, hnearest, hround⟩ := F.exists_isNearestInBinade n hd
  exact ⟨_, hnearest.isNearestCode, hround⟩

namespace IsNearestCode

variable {F} {v v' : ℚ} {code code' other : ℕ}

lemma cast_units_lt (h : code < other) : (F.units code : ℚ) < F.units other := by
  exact_mod_cast F.units_strictMono h

/-- A number is not beyond the middle between its magnitude and a larger one. -/
lemma two_mul_le (h : F.IsNearestCode v code) (hlt : code < other) :
    2 * v ≤ F.units code + F.units other :=
  (abs_sub_le_abs_sub_iff_le (cast_units_lt hlt)).mp (h.nearest other)

/-- A number is not below the middle between its magnitude and a smaller one. -/
lemma le_two_mul (h : F.IsNearestCode v code) (hlt : other < code) :
    F.units other + F.units code ≤ 2 * v :=
  (abs_sub_le_abs_sub_iff_ge (cast_units_lt hlt)).mp (h.nearest other)

/-- A number in the middle between its magnitude and a larger one has an even code. -/
lemma even_of_middle (h : F.IsNearestCode v code) (hlt : code < other)
    (hmiddle : F.units code + F.units other ≤ 2 * v) : Even code :=
  h.even other hlt.ne' ((h.nearest other).antisymm
    ((abs_sub_le_abs_sub_iff_ge (cast_units_lt hlt)).mpr hmiddle))

/-- The middle between two neighbours, of which the lower one is even, is rounded to that one. -/
lemma eq_of_middle (h : F.IsNearestCode v code) (heven : Even other)
    (hmiddle : 2 * v = F.units other + F.units (other + 1)) : code = other := by
  rcases lt_trichotomy code other with hlt | heq | hgt
  · have hupper := h.two_mul_le hlt
    have hlow := cast_units_lt (F := F) (hlt.trans other.lt_succ_self)
    rw [hmiddle] at hupper
    linarith
  · exact heq
  · exfalso
    rcases (Nat.succ_le_of_lt hgt).lt_or_eq with hfar | rfl
    · have hlower := h.le_two_mul hfar
      have hhigh := cast_units_lt (F := F) hgt
      rw [hmiddle] at hlower
      linarith
    · -- the upper one is as near, but not even
      have hodd : Even (other + 1) := h.even other other.lt_succ_self.ne
        ((h.nearest other).antisymm ((abs_sub_le_abs_sub_iff_le
          (cast_units_lt other.lt_succ_self)).mpr hmiddle.le))
      exact Nat.not_even_iff_odd.mpr heven.add_one hodd

lemma le_of_lt (h : F.IsNearestCode v code) (h' : F.IsNearestCode v' code') (hlt : v < v') :
    code ≤ code' := by
  by_contra hcode
  rw [not_le] at hcode
  linarith [h.le_two_mul hcode, h'.two_mul_le hcode]

lemma eq_of_units (h : F.IsNearestCode (F.units code) code') : code' = code := by
  have hzero : |(F.units code : ℚ) - F.units code'| ≤ 0 := by
    simpa using h.nearest code
  have heq : (F.units code : ℚ) = F.units code' := sub_eq_zero.mp (abs_nonpos_iff.mp hzero)
  exact F.units_strictMono.injective (by exact_mod_cast heq.symm)

end IsNearestCode

/-! ### Overflow -/

/-- The least magnitude that is rounded to infinity, half of a step above the largest finite one. -/
def overflow : ℚ := 2 ^ (2 ^ (F.exponentBits - 1) - 1) * (2 - 1 / 2 ^ F.significandBits)

lemma exists_exponentBits_eq : ∃ t, 2 ^ (F.exponentBits - 1) = t + 2 ∧
    F.infinityCode = (2 * t + 3) * F.binadeSize ∧ F.places = t + F.fractionBits := by
  obtain ⟨e, he⟩ := Nat.exists_eq_add_of_le' F.two_le_exponentBits
  have hlarge : 2 ≤ 2 ^ (e + 1) := by
    rw [Nat.pow_succ]
    exact Nat.le_mul_of_pos_left 2 (Nat.two_pow_pos e)
  obtain ⟨t, ht⟩ := Nat.exists_eq_add_of_le' hlarge
  refine ⟨t, by rw [he]; exact ht, ?_, ?_⟩
  · rw [infinityCode, binadeSize, he, show e + 2 = e + 1 + 1 from rfl, Nat.pow_succ, ht]
    congr 1
    omega
  · rw [places, he, show e + 2 - 1 = e + 1 from rfl, ht, Nat.add_sub_cancel]

lemma infinityCode_pos : 0 < F.infinityCode := by
  obtain ⟨t, -, hcode, -⟩ := F.exists_exponentBits_eq
  rw [hcode]
  exact Nat.mul_pos (Nat.succ_pos _) F.binadeSize_pos

lemma even_infinityCode : Even F.infinityCode := F.even_binadeSize.mul_left _

/-- The threshold of overflow is the middle between the largest finite magnitude and the next
one. -/
lemma units_pred_add_units_infinityCode :
    (F.units (F.infinityCode - 1) + F.units F.infinityCode : ℚ)
      = 2 * (F.overflow * 2 ^ F.places) := by
  obtain ⟨t, hrange, hcode, hplaces⟩ := F.exists_exponentBits_eq
  have hpos := F.binadeSize_pos
  have hinfinity : F.infinityCode = (2 * t + 2) * F.binadeSize + F.binadeSize := by
    rw [hcode]
    ring
  have hlargest : F.infinityCode - 1 = (2 * t + 1) * F.binadeSize + (2 * F.binadeSize - 1) := by
    have : (2 * t + 3) * F.binadeSize = (2 * t + 1) * F.binadeSize + 2 * F.binadeSize := by ring
    omega
  rw [hlargest, F.units_mul_add (.inr (by omega)) (Nat.sub_le _ _), hinfinity,
    F.units_mul_add (.inr le_rfl) (by omega), overflow, hrange, hplaces, significandBits,
    show t + 2 - 1 = t + 1 from rfl]
  push_cast [Nat.cast_sub (show 1 ≤ 2 * F.binadeSize by omega)]
  rw [binadeSize]
  push_cast
  field_simp
  ring

/-- **A number is rounded to infinity** from the threshold on. -/
lemma IsNearestCode.infinityCode_le_iff {F : Format} {v : ℚ} {code : ℕ}
    (h : F.IsNearestCode v code) : F.infinityCode ≤ code ↔ F.overflow * 2 ^ F.places ≤ v := by
  have hmiddle := F.units_pred_add_units_infinityCode
  have hpred : F.infinityCode - 1 < F.infinityCode := Nat.sub_lt F.infinityCode_pos Nat.one_pos
  constructor
  · intro hle
    have hlower := h.le_two_mul (Nat.lt_of_lt_of_le hpred hle)
    have hmono : (F.units F.infinityCode : ℚ) ≤ F.units code := by
      exact_mod_cast F.units_strictMono.monotone hle
    linarith
  · intro hle
    by_contra hlt
    rw [not_le] at hlt
    have hupper := h.two_mul_le hlt
    have hmono : (F.units code : ℚ) ≤ F.units (F.infinityCode - 1) := by
      exact_mod_cast F.units_strictMono.monotone (Nat.le_sub_one_of_lt hlt)
    -- the number is the threshold, and its code the largest finite one, which is odd
    have hunits : (F.units code : ℚ) = F.units (F.infinityCode - 1) :=
      hmono.antisymm (by linarith)
    have hcode : code = F.infinityCode - 1 :=
      F.units_strictMono.injective (by exact_mod_cast hunits)
    have heven : Even code := h.even_of_middle hlt (by linarith)
    obtain ⟨a, ha⟩ := F.even_infinityCode
    obtain ⟨b, hb⟩ := heven
    omega

end Format

/-! ### Values -/

namespace Binary

variable {F G : Format}

/-- A sign, as a factor. -/
def signFactor (negative : Bool) : ℚ := if negative then -1 else 1

@[simp] lemma abs_signFactor (negative : Bool) : |signFactor negative| = 1 := by
  cases negative <;> simp [signFactor]

lemma toRat_eq (x : Binary F) : x.toRat = signFactor x.negative * (x.units / 2 ^ F.places) := by
  rw [toRat, signedUnits, signFactor]
  split
  · push_cast
    ring
  · push_cast
    ring

lemma abs_toRat (x : Binary F) : |x.toRat| = x.units / 2 ^ F.places := by
  rw [toRat_eq, abs_mul, abs_signFactor, one_mul, abs_of_nonneg (by positivity)]

lemma toRat_eq_zero_iff {x : Binary F} : x.toRat = 0 ↔ x.code = 0 := by
  rw [← abs_eq_zero, abs_toRat, div_eq_zero_iff, or_iff_left (by positivity), Nat.cast_eq_zero,
    units]
  exact F.units_strictMono.injective.eq_iff' F.units_zero

lemma toRat_nonneg {x : Binary F} (hx : x.negative = false) : 0 ≤ x.toRat := by
  rw [toRat_eq, hx, signFactor, if_neg Bool.false_ne_true, one_mul]
  positivity

lemma toRat_nonpos {x : Binary F} (hx : x.negative = true) : x.toRat ≤ 0 := by
  rw [toRat_eq, hx, signFactor, if_pos rfl, neg_one_mul, neg_nonpos]
  positivity

/-- The sizes of values are in the order of their codes. -/
lemma abs_toRat_le_iff {x y : Binary F} : |x.toRat| ≤ |y.toRat| ↔ x.code ≤ y.code := by
  rw [abs_toRat, abs_toRat, div_le_div_iff_of_pos_right (by positivity), Nat.cast_le]
  exact F.units_strictMono.le_iff_le

lemma toRat_lt_toRat_iff {x y : Binary F} (hx : x.negative = false) (hy : y.negative = false) :
    x.toRat < y.toRat ↔ x.code < y.code := by
  rw [← abs_of_nonneg (toRat_nonneg hx), ← abs_of_nonneg (toRat_nonneg hy), ← not_le,
    abs_toRat_le_iff, not_le]

/-- **A value is the rounding of a number** to nearest even: it is infinite from the threshold of
overflow on, and otherwise it is finite, no finite value is nearer to the number, and its
significand is even if a value of another size is as near. -/
structure IsNearestEven (q : ℚ) (y : Binary F) : Prop where
  isFinite : |q| < F.overflow → y.isFinite
  isInfinite : F.overflow ≤ |q| → y.isInfinite
  nearest : y.isFinite → ∀ z : Binary F, z.isFinite → |q - y.toRat| ≤ |q - z.toRat|
  even : y.isFinite → ∀ z : Binary F, z.isFinite → z.toRat ≠ y.toRat →
    |q - y.toRat| = |q - z.toRat| → Even y.significand

section Rounding

variable {v : ℚ} {code : ℕ} {y : Binary F}

/-- The distance of a number from a value of its sign. -/
lemma abs_sub_toRat (v : ℚ) (y : Binary F) :
    |signFactor y.negative * (v / 2 ^ F.places) - y.toRat| = |v - y.units| / 2 ^ F.places := by
  rw [toRat_eq, ← mul_sub, abs_mul, abs_signFactor, one_mul, ← sub_div, abs_div,
    abs_of_pos (by positivity : (0 : ℚ) < 2 ^ F.places)]

lemma le_abs_sub_toRat (negative : Bool) (hv : 0 ≤ v) (z : Binary F) :
    |v - z.units| / 2 ^ F.places ≤ |signFactor negative * (v / 2 ^ F.places) - z.toRat| := by
  have hpos : (0 : ℚ) < 2 ^ F.places := by positivity
  calc |v - z.units| / 2 ^ F.places = |v / 2 ^ F.places - z.units / 2 ^ F.places| := by
        rw [← sub_div, abs_div, abs_of_pos hpos]
    _ = |(|signFactor negative * (v / 2 ^ F.places)| - |z.toRat|)| := by
        rw [abs_mul, abs_signFactor, one_mul, abs_of_nonneg (div_nonneg hv hpos.le), abs_toRat]
    _ ≤ _ := abs_abs_sub_abs_le _ _

lemma toRat_eq_of_abs_sub_eq (h : F.IsNearestCode v y.code) (hv : 0 ≤ v) {z : Binary F}
    (hcode : z.code = y.code)
    (hequal : |signFactor y.negative * (v / 2 ^ F.places) - y.toRat|
      = |signFactor y.negative * (v / 2 ^ F.places) - z.toRat|) : z.toRat = y.toRat := by
  have hpos : (0 : ℚ) < 2 ^ F.places := by positivity
  have hunits : z.units = y.units := by rw [units, units, hcode]
  by_cases hsign : z.negative = y.negative
  · rw [toRat_eq, toRat_eq, hsign, hunits]
  · have hopposite : signFactor z.negative = -signFactor y.negative := by
      revert hsign
      cases z.negative <;> cases y.negative <;> simp [signFactor]
    have hsum : |v - y.units| = v + y.units := by
      rw [abs_sub_toRat, toRat_eq z, hopposite, hunits, neg_mul, sub_neg_eq_add, ← mul_add,
        abs_mul, abs_signFactor, one_mul, ← add_div, abs_div, abs_of_pos hpos,
        abs_of_nonneg (by positivity : 0 ≤ v + y.units)] at hequal
      exact (div_left_inj' hpos.ne').mp hequal
    -- so the number or the magnitude is zero, and then both are
    have hzero : (y.units : ℚ) = 0 := by
      have hnearest : |v - y.units| ≤ |v - 0| := by
        have := h.nearest 0
        rwa [F.units_zero, Nat.cast_zero] at this
      rw [hsum, sub_zero, abs_of_nonneg hv] at hnearest
      exact le_antisymm (by linarith) (Nat.cast_nonneg _)
    rw [toRat_eq, toRat_eq, hunits, hzero]
    ring

/-- A value with the nearest code is the rounding. -/
lemma isNearestEven_of_isNearestCode (h : F.IsNearestCode v code) (hv : 0 ≤ v)
    (hcode : y.code = min F.infinityCode code) :
    y.IsNearestEven (signFactor y.negative * (v / 2 ^ F.places)) := by
  have hpos : (0 : ℚ) < 2 ^ F.places := by positivity
  have habs : |signFactor y.negative * (v / 2 ^ F.places)| = v / 2 ^ F.places := by
    rw [abs_mul, abs_signFactor, one_mul, abs_of_nonneg (div_nonneg hv hpos.le)]
  have hfinite : y.isFinite → y.code = code := by
    intro hy
    simp only [isFinite, decide_eq_true_eq] at hy
    omega
  constructor
  · intro hlt
    rw [habs, div_lt_iff₀ hpos, ← not_le, ← h.infinityCode_le_iff] at hlt
    simp only [isFinite, decide_eq_true_eq]
    omega
  · intro hle
    rw [habs, le_div_iff₀ hpos, ← h.infinityCode_le_iff] at hle
    simp only [isInfinite, decide_eq_true_eq]
    omega
  · intro hy z _
    rw [abs_sub_toRat, units, hfinite hy]
    exact le_trans (div_le_div_of_nonneg_right (h.nearest z.code) hpos.le)
      (le_abs_sub_toRat y.negative hv z)
  · intro hy z _ hne hequal
    have hy' : F.IsNearestCode v y.code := hfinite hy ▸ h
    rw [significand, Format.even_significand_iff]
    have hother : z.code ≠ y.code := fun hz => hne (toRat_eq_of_abs_sub_eq hy' hv hz hequal)
    refine hy'.even z.code hother ((hy'.nearest z.code).antisymm ?_)
    refine (div_le_div_iff_of_pos_right hpos).mp ?_
    calc |v - F.units z.code| / 2 ^ F.places
        ≤ |signFactor y.negative * (v / 2 ^ F.places) - z.toRat| :=
          le_abs_sub_toRat y.negative hv z
      _ = |v - F.units y.code| / 2 ^ F.places := by rw [← hequal, abs_sub_toRat, units]

end Rounding

/-! ### Conversion -/

section Conversion

variable {x : Binary F}

/-- A number times a power of two is rounded to its nearest code. -/
lemma exists_isNearestCode_ofScaled (negative : Bool) (m : ℕ) {scale : ℤ} {a b : ℕ}
    (hscale : scale = a - b) : ∃ code, F.IsNearestCode (m * 2 ^ a / 2 ^ b) code ∧
      (ofScaled negative m scale : Binary F).code = min F.infinityCode code := by
  have hratio : (m * 2 ^ a / 2 ^ b : ℚ)
      = (m * 2 ^ scale.toNat : ℕ) / (2 ^ (-scale).toNat : ℕ) := by
    have hexponents : a + (-scale).toNat = scale.toNat + b := by omega
    have hpowers : (2 : ℚ) ^ a * 2 ^ (-scale).toNat = 2 ^ scale.toNat * 2 ^ b := by
      rw [← pow_add, ← pow_add, hexponents]
    rw [div_eq_div_iff (by positivity) (by positivity)]
    push_cast
    linear_combination (m : ℚ) * hpowers
  obtain ⟨code, hcode, hround⟩ :=
    F.exists_isNearestCode (m * 2 ^ scale.toNat) (Nat.two_pow_pos (-scale).toNat)
  exact ⟨code, hratio ▸ hcode, by rw [ofScaled_eq]; exact hround⟩

lemma cast_units_eq (x : Binary F) : (x.units : ℚ) = x.significand * 2 ^ x.exponent := by
  rw [units, Format.units]
  push_cast
  rfl

/-- A finite value is converted by counting it in the units of the other format. -/
lemma exists_isNearestCode_convert (G : Format) (hx : x.isFinite) :
    ∃ code, G.IsNearestCode (x.units / 2 ^ F.places * 2 ^ G.places) code ∧
      (x.convert G).code = min G.infinityCode code ∧ (x.convert G).negative = x.negative := by
  simp only [isFinite, decide_eq_true_eq] at hx
  have hconvert : x.convert G
      = ofScaled x.negative x.significand ((x.exponent + G.places : ℕ) - F.places) := by
    rw [convert, if_neg (by simpa [isNaN] using hx.le), if_neg (by simpa [isInfinite] using hx.ne)]
  have hvalue : (x.units / 2 ^ F.places * 2 ^ G.places : ℚ)
      = x.significand * 2 ^ (x.exponent + G.places) / 2 ^ F.places := by
    rw [cast_units_eq, pow_add]
    ring
  obtain ⟨code, hcode, hround⟩ := exists_isNearestCode_ofScaled x.negative x.significand
    (rfl : ((x.exponent + G.places : ℕ) - F.places : ℤ) = _)
  exact ⟨code, hvalue ▸ hcode, by rw [hconvert, hround], by rw [hconvert]; rfl⟩

/-- **A value that is converted into another format is rounded** to nearest even there, and keeps
its sign. -/
lemma isNearestEven_convert (G : Format) (hx : x.isFinite) :
    (x.convert G).IsNearestEven x.toRat ∧ (x.convert G).negative = x.negative := by
  obtain ⟨code, hcode, hconvert, hsign⟩ := exists_isNearestCode_convert G hx
  refine ⟨?_, hsign⟩
  have hrat : x.toRat = signFactor (x.convert G).negative
      * (x.units / 2 ^ F.places * 2 ^ G.places / 2 ^ G.places) := by
    rw [hsign, mul_div_cancel_right₀ _ (by positivity), toRat_eq]
  rw [hrat]
  exact isNearestEven_of_isNearestCode hcode (by positivity) hconvert

lemma convert_self (hx : x.isFinite) : x.convert F = x := by
  obtain ⟨code, hcode, hconvert, hsign⟩ := exists_isNearestCode_convert F hx
  rw [div_mul_cancel₀ _ (by positivity), units] at hcode
  obtain rfl := hcode.eq_of_units
  simp only [isFinite, decide_eq_true_eq] at hx
  exact Binary.ext hsign (hconvert.trans (min_eq_right hx.le))

end Conversion

end Binary

end WaveletPrecision
