import Mathlib.Algebra.Order.BigOperators.Ring.Finset
import Mathlib.Algebra.Order.Ring.Abs
import WaveletPrecision.Proofs.FilterBank.Orthonormal

/-
How far a filter is from being orthonormal.

The taps of a filter are rounded, so they are never quite orthonormal.  What matters of them is
their autocorrelation, which is one at distance zero and zero at the other even distances for an
orthonormal filter, and `defect` adds up how far it is off.  A sum over the pairs of taps is then
off by no more than the defect times the greatest weight (`abs_pairSum_self_sub_le`).
-/
namespace WaveletPrecision

open Finset

variable {K : Type} [CommRing K] [LinearOrder K]

/-- How far the autocorrelation of a filter is from that of an orthonormal filter, over all even
distances in both directions. -/
def defect (low : List K) : K :=
  |autocorrelation low 0 - 1| + 2 * ∑ k ∈ range (low.length / 2), |autocorrelation low (k + 1)|

/-- **A sum over the pairs of taps** of a filter is the weight at distance zero, up to the defect
of the filter. -/
lemma abs_pairSum_self_sub_le [IsStrictOrderedRing K] (low : List K) {e : ℤ → K} {M : K}
    (hM : ∀ t : ℤ, |t| ≤ low.length → |e t| ≤ M) :
    |pairSum low low e - e 0| ≤ defect low * M := by
  have hzero : |e 0| ≤ M := hM 0 (by simp)
  have hterm : ∀ k ∈ range (low.length / 2),
      |autocorrelation low (k + 1) * (e (2 * (k + 1)) + e (-(2 * (k + 1))))|
        ≤ |autocorrelation low (k + 1)| * (2 * M) := by
    intro k hk
    rw [mem_range] at hk
    have hdistance : |(2 * (k + 1) : ℤ)| ≤ low.length := by
      rw [abs_of_nonneg (by omega)]
      omega
    have hright : |e (2 * (k + 1))| ≤ M := hM _ hdistance
    have hleft : |e (-(2 * (k + 1)))| ≤ M := hM _ (by rwa [abs_neg])
    rw [abs_mul, two_mul M]
    have hboth := (abs_add_le _ _).trans (add_le_add hright hleft)
    exact mul_le_mul_of_nonneg_left hboth (abs_nonneg _)
  calc |pairSum low low e - e 0|
      = |(autocorrelation low 0 - 1) * e 0 + ∑ k ∈ range (low.length / 2),
          autocorrelation low (k + 1) * (e (2 * (k + 1)) + e (-(2 * (k + 1))))| := by
        rw [pairSum_self]
        congr 1
        ring
    _ ≤ |autocorrelation low 0 - 1| * |e 0| + ∑ k ∈ range (low.length / 2),
          |autocorrelation low (k + 1) * (e (2 * (k + 1)) + e (-(2 * (k + 1))))| := by
        rw [← abs_mul]
        exact (abs_add_le _ _).trans (add_le_add_right (abs_sum_le_sum_abs _ _) _)
    _ ≤ |autocorrelation low 0 - 1| * M
          + ∑ k ∈ range (low.length / 2), |autocorrelation low (k + 1)| * (2 * M) :=
        add_le_add (mul_le_mul_of_nonneg_left hzero (abs_nonneg _)) (sum_le_sum hterm)
    _ = defect low * M := by
        rw [defect, ← sum_mul]
        ring

end WaveletPrecision
