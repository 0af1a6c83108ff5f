import Mathlib.Algebra.BigOperators.Finprod
import Mathlib.Algebra.Ring.CharZero
import Mathlib.Algebra.Ring.Int.Parity
import WaveletPrecision.Proofs.FilterBank.Orthonormal

/-
The relations between a low-pass filter and its quadrature mirror.

Nothing is asked of the low-pass filter but an even number of taps.  The relations are about all
integers, so a filter is continued by zeros on both sides (`tap`), and a sum over all integers is
a sum over the taps (`finsum_eq_sum_range`, `finsum_two_mul_add`).  The products of taps at one
distance are what `pairSum` makes of the weight of that distance (`pairSum_atDistance`), so the
sums over pairs of taps say that

* the two filters are orthogonal at every even distance;
* the mirror correlates with itself at an even distance as the low-pass filter does;
* at one position of the grid of coefficients, the two filters together leave of any two samples
  at an even distance what the low-pass filter has there, and nothing of two samples at an odd
  distance.

`quadratureMirror_relations` is all of that.
-/
namespace WaveletPrecision

open Finset

variable {K : Type} [CommRing K]

/-! ### Taps at all integers -/

/-- The tap of a filter at an integer; outside of the filter all taps are zero. -/
def tap (taps : List K) (i : ℤ) : K := if 0 ≤ i then taps.getD i.toNat 0 else 0

@[simp] lemma tap_natCast (taps : List K) (u : ℕ) : tap taps u = taps.getD u 0 := by
  simp [tap]

lemma exists_of_tap_ne_zero {taps : List K} {i : ℤ} (h : tap taps i ≠ 0) :
    ∃ u < taps.length, i = u := by
  have hpos : 0 ≤ i := by
    by_contra hneg
    exact h (if_neg hneg)
  obtain ⟨u, rfl⟩ := Int.eq_ofNat_of_zero_le hpos
  refine ⟨u, ?_, rfl⟩
  by_contra hlong
  rw [tap_natCast, List.getD_eq_default _ _ (not_lt.mp hlong)] at h
  exact h rfl

/-! ### Sums over all integers -/

section Sums

variable {f : ℤ → K} {n : ℕ}

/-- A sum over all integers is the sum over the places below a bound, if there is nothing
elsewhere. -/
lemma finsum_eq_sum_range (h : ∀ i, f i ≠ 0 → ∃ u < n, i = u) :
    ∑ᶠ i, f i = ∑ u ∈ range n, f u := by
  have hsupport : Function.support f ⊆ ((range n).map Nat.castEmbedding : Finset ℤ) := by
    intro i hi
    obtain ⟨u, hu, rfl⟩ := h i hi
    exact mem_coe.mpr (mem_map.mpr ⟨u, mem_range.mpr hu, rfl⟩)
  rw [finsum_eq_sum_of_support_subset f hsupport, sum_map]
  rfl

/-- Every second integer, from some integer on in both directions, meets the places of one
parity. -/
lemma finsum_two_mul_add (h : ∀ i, f i ≠ 0 → ∃ u < n, i = u) (a : ℤ) :
    ∑ᶠ o : ℤ, f (2 * o + a) = ∑ u ∈ range n, if (u : ℤ) % 2 = a % 2 then f u else 0 := by
  have hinjective : Function.Injective fun o : ℤ => 2 * o + a := by
    intro o o' heq
    simp only at heq
    omega
  have hrange : ∀ i : ℤ, i ∈ Set.range (fun o : ℤ => 2 * o + a) ↔ i % 2 = a % 2 := by
    intro i
    constructor
    · rintro ⟨o, rfl⟩
      simp only
      omega
    · intro hi
      exact ⟨(i - a) / 2, by simp only; omega⟩
  have hparity : ∑ᶠ o : ℤ, f (2 * o + a) = ∑ᶠ i : ℤ, if i % 2 = a % 2 then f i else 0 := by
    rw [← finsum_mem_range hinjective]
    simp only [hrange, finsum_eq_if]
  rw [hparity, finsum_eq_sum_range fun i hi => h i fun hzero => hi (by rw [hzero, ite_self])]

end Sums

/-! ### Pairs of taps at one distance -/

/-- The weight of one distance. -/
def atDistance (d t : ℤ) : K := if t = d then 1 else 0

lemma atDistance_neg (d t : ℤ) : (atDistance d (-t) : K) = atDistance (-d) t :=
  if_congr neg_eq_iff_eq_neg rfl rfl

lemma sum_atDistance (taps : List K) (i d : ℤ) :
    ∑ v ∈ range taps.length, taps.getD v 0 * atDistance d (i - v) = tap taps (i - d) := by
  by_cases h : ∃ v < taps.length, i - d = v
  · obtain ⟨v, hv, hplace⟩ := h
    rw [hplace, tap_natCast, sum_eq_single_of_mem v (mem_range.mpr hv), atDistance,
      if_pos (by omega), mul_one]
    intro v' _ hne
    rw [atDistance, if_neg (by omega), mul_zero]
  · have hzero : tap taps (i - d) = 0 := by
      by_contra hne
      exact h (exists_of_tap_ne_zero hne)
    rw [hzero]
    refine sum_eq_zero fun v hv => ?_
    rw [atDistance, if_neg fun hdist => h ⟨v, mem_range.mp hv, by omega⟩, mul_zero]

lemma finsum_tap_mul_tap (p q : List K) (d : ℤ) :
    ∑ᶠ j, tap p j * tap q (j - d) = ∑ u ∈ range p.length,
      p.getD u 0 * ∑ v ∈ range q.length, q.getD v 0 * atDistance d (u - v) := by
  rw [finsum_eq_sum_range fun j hj => exists_of_tap_ne_zero (left_ne_zero_of_mul hj)]
  simp only [tap_natCast, sum_atDistance]

/-- **The pairs of taps at an even distance** are those that the sum over pairs takes. -/
lemma pairSum_atDistance (p q : List K) {d : ℤ} (hd : Even d) :
    pairSum p q (atDistance d) = ∑ᶠ j, tap p j * tap q (j - d) := by
  rw [finsum_tap_mul_tap, pairSum]
  refine sum_congr rfl fun u _ => ?_
  rw [mul_sum]
  refine sum_congr rfl fun v _ => ?_
  by_cases hdist : (u - v : ℤ) = d
  · have hpar : u % 2 = v % 2 := by
      rw [← hdist, Int.even_iff] at hd
      omega
    rw [if_pos hpar, mul_assoc]
  · rw [atDistance, if_neg hdist]
    simp

lemma pairSum_atDistance_of_odd (p q : List K) {d : ℤ} (hd : ¬Even d) :
    pairSum p q (atDistance d) = 0 := by
  refine sum_eq_zero fun u _ => sum_eq_zero fun v _ => ?_
  split
  · rename_i hpar
    have hdist : (u - v : ℤ) ≠ d := by
      rintro rfl
      exact hd (Int.even_iff.mpr (by omega))
    rw [atDistance, if_neg hdist, mul_zero]
  · rfl

/-! ### The relations -/

variable {low : List K}

/-- Both filters at one position of the grid of coefficients, which is the parity of the taps that
meet the first sample. -/
lemma finsum_both_eq_pairSum (hlow : Even low.length) (a d : ℤ) :
    ∑ᶠ o : ℤ, (tap low (2 * o + a) * tap low (2 * o + a - d)
      + tap (quadratureMirror low) (2 * o + a) * tap (quadratureMirror low) (2 * o + a - d))
      = pairSum low low (atDistance d) := by
  have hplaces : ∀ i, tap low i * tap low (i - d)
      + tap (quadratureMirror low) i * tap (quadratureMirror low) (i - d) ≠ 0 →
        ∃ u < low.length, i = u := by
    intro i hi
    by_cases hzero : tap low i = 0
    · rw [hzero, zero_mul, zero_add] at hi
      simpa using exists_of_tap_ne_zero (left_ne_zero_of_mul hi)
    · exact exists_of_tap_ne_zero hzero
  obtain ⟨r, hr⟩ : ∃ r : ℕ, (r : ℤ) % 2 = a % 2 := ⟨(a % 2).toNat, by omega⟩
  have hparity : ∀ u : ℕ, (u : ℤ) % 2 = a % 2 ↔ u % 2 = r % 2 := by
    intro u
    omega
  rw [finsum_two_mul_add hplaces, ← sum_both_apply hlow r]
  refine sum_congr rfl fun u _ => if_congr (hparity u) ?_ rfl
  have hhigh := sum_atDistance (quadratureMirror low) u d
  rw [length_quadratureMirror] at hhigh
  rw [sum_atDistance, hhigh, tap_natCast, tap_natCast]

/-- **The relations of the quadrature mirror.**  Let a low-pass filter have an even number of taps,
and let all taps outside of the filters be zero.  Then the low-pass filter and its mirror are
orthogonal at every even distance, and the mirror correlates with itself at every even distance as
the low-pass filter does.  The taps of both filters that meet two samples `n` and `m` on a grid of
every second position, which may start anywhere, leave the correlation of the low-pass filter at
the distance of the samples if that is even, and nothing otherwise. -/
theorem quadratureMirror_relations (hlow : Even low.length) :
    (∀ k : ℤ, ∑ᶠ j, tap low j * tap (quadratureMirror low) (j + 2 * k) = 0) ∧
    (∀ k : ℤ, ∑ᶠ j, tap (quadratureMirror low) j * tap (quadratureMirror low) (j + 2 * k)
      = ∑ᶠ j, tap low j * tap low (j + 2 * k)) ∧
    ∀ c n m : ℤ, ∑ᶠ o, (tap low (2 * o + c - n) * tap low (2 * o + c - m)
        + tap (quadratureMirror low) (2 * o + c - n) * tap (quadratureMirror low) (2 * o + c - m))
      = if Even (n - m) then ∑ᶠ u, tap low u * tap low (u + m - n) else 0 := by
  have hcorrelation : ∀ (p q : List K) (k : ℤ),
      ∑ᶠ j, tap p j * tap q (j + 2 * k) = pairSum p q (atDistance (-(2 * k))) := by
    intro p q k
    simp only [pairSum_atDistance p q (even_two_mul k).neg, sub_neg_eq_add]
  refine ⟨fun k => ?_, fun k => ?_, fun c n m => ?_⟩
  · rw [hcorrelation, pairSum_low_high hlow]
  · rw [hcorrelation, hcorrelation, pairSum_high]
  · have hfirst : ∀ o : ℤ, 2 * o + c - n = 2 * o + (c - n) := fun o => by ring
    have hsecond : ∀ o : ℤ, 2 * o + c - m = 2 * o + (c - n) - (m - n) := fun o => by ring
    simp only [hfirst, hsecond]
    -- the distance is counted from the first sample here, and from the second one in the statement
    rw [finsum_both_eq_pairSum hlow, pairSum_comm]
    simp only [atDistance_neg, neg_sub]
    split
    · rename_i heven
      rw [pairSum_atDistance low low heven]
      simp only [sub_sub_eq_add_sub]
    · rename_i hodd
      rw [pairSum_atDistance_of_odd low low hodd]

/-- Four taps that are not orthogonal to their shift by two. -/
theorem quadratureMirror_relations_four :
    Even ([1, 2, 3, 5] : List ℤ).length ∧
      quadratureMirror ([1, 2, 3, 5] : List ℤ) = [-5, 3, -2, 1] ∧
      ∑ᶠ j, tap [1, 2, 3, 5] j * tap [-5, 3, -2, 1] (j + 2 * (-1)) = (0 : ℤ) ∧
      ∑ᶠ o, (tap [1, 2, 3, 5] (2 * o + 1 - 4) * tap [1, 2, 3, 5] (2 * o + 1 - 6)
        + tap [-5, 3, -2, 1] (2 * o + 1 - 4) * tap [-5, 3, -2, 1] (2 * o + 1 - 6)) = (13 : ℤ) := by
  have hlow : Even ([1, 2, 3, 5] : List ℤ).length := ⟨2, rfl⟩
  obtain ⟨horthogonal, -, hgrid⟩ := quadratureMirror_relations hlow
  have hcorrelation : ∑ᶠ u, tap [1, 2, 3, 5] u * tap [1, 2, 3, 5] (u + 6 - 4) = (13 : ℤ) := by
    rw [finsum_eq_sum_range fun u hu => exists_of_tap_ne_zero (left_ne_zero_of_mul hu)]
    decide
  exact ⟨hlow, rfl, horthogonal (-1),
    (hgrid 1 4 6).trans ((if_pos (by decide)).trans hcorrelation)⟩

end WaveletPrecision
