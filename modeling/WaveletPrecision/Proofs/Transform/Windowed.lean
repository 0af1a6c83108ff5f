import WaveletPrecision.Proofs.Transform.Convolution

/-
Perfect reconstruction outside of periodization.

A sample of the reconstruction collects the coefficients whose windows cover it, and each of
these coefficients is a sum over the extended signal.  Every tap that meets the sample at a
position of one parity belongs to exactly one coefficient, and none of these coefficients is
missing: a band holds just enough of them for the samples that are put together
(`sum_covering`).  The sum that is left pairs the taps of the two filters with each other, by
their distance, and an orthonormal filter leaves the extended signal at the sample.

* `sum_covering_eq` is the sum that is left, for one sample and for any low-pass filter with an
  even number of taps, and `synthesizeWindowed_analyze_eq_pairSum` for a signal;
* `FilterBank.inverse_forward_windowed` is the reconstruction of a signal.
-/
namespace WaveletPrecision

open Finset

variable {K : Type} [CommRing K]

/-- The coefficients that cover a sample are found by the tap that met it. -/
lemma sum_covering {F count n : ℕ} (hn : n + F < 2 * count + 2) (g : ℕ → ℕ → K) :
    ∑ o ∈ range count, (if 0 ≤ (2 * o + 1 - n : ℤ) ∧ (2 * o + 1 - n : ℤ) < F then
        g (2 * o + 1 - n : ℤ).toNat o else 0)
      = ∑ j ∈ range F, if j % 2 = (n + 1) % 2 then g j ((n + j - 1) / 2) else 0 := by
  rw [← sum_filter, ← sum_filter]
  refine sum_nbij' (fun o => (2 * o + 1 - n : ℤ).toNat) (fun j => (n + j - 1) / 2) ?_ ?_ ?_ ?_ ?_
  · intro o ho
    simp only [mem_filter, mem_range] at ho ⊢
    omega
  · intro j hj
    simp only [mem_filter, mem_range] at hj ⊢
    omega
  · intro o ho
    simp only [mem_filter, mem_range] at ho
    omega
  · intro j hj
    simp only [mem_filter, mem_range] at hj
    omega
  · intro o ho
    simp only [mem_filter, mem_range] at ho
    rw [show (n + (2 * o + 1 - n : ℤ).toNat - 1) / 2 = o by omega]

/-- **One sample of the reconstruction** from enough coefficients of a signal on all positions:
the samples around it, each weighed by the pairs of taps at its distance. -/
lemma sum_covering_eq {low : List K} (hlow : Even low.length) {count n : ℕ}
    (hn : n + low.length < 2 * count + 2) (e : ℤ → K) {a d : ℕ → K}
    (ha : ∀ o < count, a o = ∑ i ∈ range low.length, low.getD i 0 * e (2 * o + 1 - i))
    (hd : ∀ o < count, d o
      = ∑ i ∈ range low.length, (quadratureMirror low).getD i 0 * e (2 * o + 1 - i)) :
    ∑ o ∈ range count, (if 0 ≤ (2 * o + 1 - n : ℤ) ∧ (2 * o + 1 - n : ℤ) < low.length then
        low.getD (2 * o + 1 - n : ℤ).toNat 0 * a o
          + (quadratureMirror low).getD (2 * o + 1 - n : ℤ).toNat 0 * d o
      else 0) = pairSum low low fun t => e (n + t) := by
  rw [sum_covering hn fun j o => low.getD j 0 * a o + (quadratureMirror low).getD j 0 * d o,
    ← sum_both_apply hlow (n + 1) fun t => e (n + t)]
  refine sum_congr rfl fun j hj => ?_
  rw [mem_range] at hj
  split
  · rename_i hpar
    -- the coefficient that the tap belongs to has met the sample `n + j - i` with its tap `i`
    have hcount : (n + j - 1) / 2 < count := by omega
    have hstart : ∀ i : ℕ, (2 * ((n + j - 1) / 2 : ℕ) + 1 - i : ℤ) = n + (j - i) := by
      intro i
      omega
    rw [ha _ hcount, hd _ hcount]
    simp only [hstart]
  · rfl

/-! ### A whole signal -/

lemma take_map_extend {A : Type} [Zero A] [Add A] [Sub A] [Mul A] [Neg A] [NatCast A]
    (mode : BoundaryMode) (x : List A) {length : ℕ} (h : x.length ≤ length) :
    ((List.range length).map fun k : ℕ => extend mode x.toArray k).take x.length = x := by
  apply List.ext_getElem
  · simpa using h
  · intro k _ hk
    simp only [List.getElem_take, List.getElem_map, List.getElem_range]
    exact extend_of_lt mode (by simpa using hk)

/-- The number of coefficients of a signal that is not empty is right for a reconstruction of
that many samples, or of one more. -/
lemma two_mul_coefficientCount {mode : BoundaryMode} (hmode : mode ≠ .periodization) {F n : ℕ}
    (hF : Even F) (hn : 1 ≤ n) : 2 * coefficientCount mode F n + 2 = n + n % 2 + F := by
  have := Nat.even_iff.mp hF
  rw [coefficientCount, if_neg hmode]
  omega

/- The only use of a number as an element of the ring is the factor of an extrapolation, and no
law is asked of it: the second way to read a number stands for any map of the numbers into the
ring, beside the one that the ring comes with. -/
variable [NatCast K] {low x : List K} {mode : BoundaryMode}

set_option linter.overlappingInstances false in
lemma synthesizeWindowed_analyze_eq_pairSum (hlow : Even low.length) (hmode : mode ≠ .periodization)
    (length : ℕ) (hlength : length + low.length
      ≤ 2 * coefficientCount mode low.length x.length + 2) :
    synthesizeWindowed (.ofLow low) length (analyze mode low x)
        (analyze mode (quadratureMirror low) x)
      = (List.range length).map fun k : ℕ =>
        pairSum low low fun t => extend mode x.toArray (k + t) := by
  rw [synthesizeWindowed_eq]
  refine List.map_congr_left fun n hn => ?_
  have hn' : n < length := List.mem_range.1 hn
  rw [FilterBank.ofLow, foldl_gatherIfCovering, length_analyze]
  refine sum_covering_eq hlow (by omega) (extend mode x.toArray) ?_ ?_
  · intro o ho
    rw [getD_analyze_of_ne hmode ho, weightedSum_eq_sum]
  · intro o ho
    rw [getD_analyze_of_ne hmode (by rwa [length_quadratureMirror]), weightedSum_eq_sum,
      length_quadratureMirror]

set_option linter.overlappingInstances false in
lemma synthesizeWindowed_analyze (h : Orthonormal low) (hmode : mode ≠ .periodization)
    (length : ℕ) (hlength : length + low.length
      ≤ 2 * coefficientCount mode low.length x.length + 2) :
    synthesizeWindowed (.ofLow low) length (analyze mode low x)
        (analyze mode (quadratureMirror low) x)
      = (List.range length).map fun k : ℕ => extend mode x.toArray k := by
  rw [synthesizeWindowed_analyze_eq_pairSum h.even_length hmode length hlength]
  simp only [h.pairSum_low, add_zero]

set_option linter.overlappingInstances false in
/-- **Perfect reconstruction outside of periodization.**  The inverse transform of the forward
transform of a signal is the extended signal from position 0 on, as far as the signal
reaches, and one sample further if its length is odd. -/
theorem FilterBank.inverse_forward_windowed (h : Orthonormal low) (hF : 2 ≤ low.length)
    (hmode : mode ≠ .periodization) (hx : x ≠ []) :
    ∃ approx detail y, (ofLow low).forward mode x = .ok (approx, detail) ∧
      (ofLow low).inverse mode approx detail = .ok y ∧
      y = (List.range (if x.length % 2 = 0 then x.length else x.length + 1)).map
        (fun k : ℕ => extend mode x.toArray k) ∧
      y.take x.length = x := by
  have hpos : 1 ≤ x.length := List.length_pos_iff.mpr hx
  have hcount := two_mul_coefficientCount hmode h.even_length hpos
  have hlength : (if x.length % 2 = 0 then x.length else x.length + 1)
      = 2 * coefficientCount mode low.length x.length + 2 - low.length := by
    split <;> omega
  have hsize : low.length ≤ 2 * coefficientCount mode low.length x.length + 2 := by omega
  have hinverse : (ofLow low).inverse mode (analyze mode low x)
      (analyze mode (quadratureMirror low) x) = .ok (synthesizeWindowed (.ofLow low)
        (2 * coefficientCount mode low.length x.length + 2 - low.length) (analyze mode low x)
        (analyze mode (quadratureMirror low) x)) :=
    inverse_eq_ok_of_ne hmode (length_analyze mode low x) (by simp) (by omega) hsize
  refine ⟨_, _, _, forward_eq_ok hx, hinverse, ?_, ?_⟩
  · rw [hlength]
    exact synthesizeWindowed_analyze h hmode _ (by omega)
  · rw [synthesizeWindowed_analyze h hmode _ (by omega)]
    exact take_map_extend mode x (by omega)

/-- A filter of four taps on a signal of one sample, which comes back with its negative behind
it. -/
theorem FilterBank.inverse_forward_windowed_rotations :
    ∃ approx detail : List ℚ,
      (ofLow [3 / 13, 36 / 65, -(48 / 65), 4 / 13]).forward .antisymmetric [7]
        = .ok (approx, detail) ∧
      (ofLow [3 / 13, 36 / 65, -(48 / 65), 4 / 13]).inverse .antisymmetric approx detail
        = .ok [7, -7] := by
  obtain ⟨approx, detail, y, hforward, hinverse, hy, -⟩ :=
    inverse_forward_windowed orthonormal_rational (by decide)
      (show BoundaryMode.antisymmetric ≠ .periodization by decide) (List.cons_ne_nil 7 [])
  have hy' : y = [7, -7] := by
    rw [hy]
    rfl
  exact ⟨approx, detail, hforward, hy' ▸ hinverse⟩

end WaveletPrecision
