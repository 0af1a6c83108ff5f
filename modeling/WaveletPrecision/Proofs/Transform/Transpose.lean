import WaveletPrecision.Proofs.Transform.Periodized

/-
The inverse transform is the transpose of the analysis.

The pairing of two signals is the sum of the products of their samples.  For any two filters
of one length, pairing two bands with the coefficients of a signal is the same as pairing the
reconstruction from the bands with the signal.  This takes no law of the filters, only that a
coefficient and a sample meet through the same tap in both directions:

* with zeros beyond the ends, a coefficient is a sum over the samples that its window covers
  (`weightedSum_extend_zero`), and a sample of the reconstruction is a sum over the
  coefficients whose windows cover it;
* in periodization, tap `j` of coefficient `o` meets one sample, however often the window
  wraps around, in both directions.

`FilterBank.pairing_inverse_eq` puts the two together.
-/
namespace WaveletPrecision

open Finset

variable {K : Type} [CommRing K]

/-! ### Pairing signals -/

/-- The sum of the products of the samples of two signals. -/
def pairing (x y : List K) : K := (List.zipWith (· * ·) x y).sum

lemma pairing_eq_sum {x y : List K} (h : x.length = y.length) :
    pairing x y = ∑ n ∈ range x.length, x.getD n 0 * y.getD n 0 := by
  induction x generalizing y with
  | nil => rfl
  | cons a x ih =>
    cases y with
    | nil => cases h
    | cons b y =>
      rw [pairing, List.zipWith_cons_cons, List.sum_cons, ← pairing, ih (Nat.succ.inj h),
        List.length_cons, sum_range_succ', add_comm]
      rfl

/-! ### Zeros beyond the ends -/

lemma extend_zero (x : List K) (k : ℤ) :
    extend .zero x.toArray k = if 0 ≤ k ∧ k < x.length then x.getD k.toNat 0 else 0 := by
  by_cases hinside : 0 ≤ k ∧ k < x.length
  · obtain ⟨n, rfl⟩ := Int.eq_ofNat_of_zero_le hinside.1
    have hn : n < x.length := by omega
    rw [if_pos hinside, extend_of_lt .zero (by simpa using hn), Int.toNat_natCast,
      List.getD_eq_getElem _ _ hn]
    rfl
  · rw [if_neg hinside, extend]
    split
    · rw [BoundaryMode.reading.eq_def, dif_neg (by simpa using hinside)]
      rfl
    · rfl

/-- A coefficient of a signal with zeros beyond its ends is a sum over the samples that its
window covers, each with the tap that meets it. -/
lemma weightedSum_extend_zero (filter x : List K) (o : ℕ) :
    weightedSum filter (fun j => extend .zero x.toArray (2 * o + 1 - j))
      = ∑ n ∈ range x.length, if 0 ≤ (2 * o + 1 - n : ℤ) ∧ (2 * o + 1 - n : ℤ) < filter.length then
          filter.getD (2 * o + 1 - n : ℤ).toNat 0 * x.getD n 0
        else 0 := by
  simp only [weightedSum_eq_sum, extend_zero, mul_ite, mul_zero]
  rw [← sum_filter, ← sum_filter]
  refine sum_nbij' (fun j => (2 * o + 1 - j : ℤ).toNat) (fun n => (2 * o + 1 - n : ℤ).toNat)
    ?_ ?_ ?_ ?_ ?_
  · intro j hj
    simp only [mem_filter, mem_range] at hj ⊢
    omega
  · intro n hn
    simp only [mem_filter, mem_range] at hn ⊢
    omega
  · intro j hj
    simp only [mem_filter, mem_range] at hj
    omega
  · intro n hn
    simp only [mem_filter, mem_range] at hn
    omega
  · intro j hj
    simp only [mem_filter, mem_range] at hj
    rw [show (2 * o + 1 - ((2 * o + 1 - j : ℤ).toNat : ℕ) : ℤ).toNat = j by omega]

/-- A signal that is as long as a reconstruction has as many coefficients as were put together. -/
lemma coefficientCount_of_reconstruction {mode : BoundaryMode} (hmode : mode ≠ .periodization)
    {taps n count : ℕ} (h : n + taps = 2 * count + 2) : coefficientCount mode taps n = count := by
  rw [coefficientCount, if_neg hmode]
  omega

/-- **Transposition with zeros beyond the ends**: the pairing of two bands with the coefficients
of a signal is that of the reconstruction with the signal. -/
lemma pairing_analyze_zero {bank : FilterBank K} (hbank : bank.high.length = bank.low.length)
    {approx detail x : List K} (hbands : detail.length = approx.length)
    (hx : x.length + bank.size = 2 * approx.length + 2) :
    pairing approx (analyze .zero bank.low x) + pairing detail (analyze .zero bank.high x)
      = pairing (synthesizeWindowed bank x.length approx detail) x := by
  have hne : BoundaryMode.zero ≠ .periodization := by decide
  have hlow : coefficientCount .zero bank.low.length x.length = approx.length :=
    coefficientCount_of_reconstruction hne hx
  have hhigh : coefficientCount .zero bank.high.length x.length = approx.length := by
    rw [hbank, hlow]
  have hlength : (synthesizeWindowed bank x.length approx detail).length = x.length := by
    rw [synthesizeWindowed, List.length_map, List.length_range]
  rw [pairing_eq_sum (by rw [length_analyze, hlow]),
    pairing_eq_sum (by rw [length_analyze, hhigh, hbands]), pairing_eq_sum hlength, hlength, hbands,
    ← sum_add_distrib]
  have hcoefficients : ∀ o ∈ range approx.length,
      approx.getD o 0 * (analyze .zero bank.low x).getD o 0
          + detail.getD o 0 * (analyze .zero bank.high x).getD o 0
        = ∑ n ∈ range x.length, (if 0 ≤ (2 * o + 1 - n : ℤ) ∧ (2 * o + 1 - n : ℤ) < bank.low.length
            then bank.low.getD (2 * o + 1 - n : ℤ).toNat 0 * approx.getD o 0
              + bank.high.getD (2 * o + 1 - n : ℤ).toNat 0 * detail.getD o 0
            else 0) * x.getD n 0 := by
    intro o ho
    rw [mem_range] at ho
    rw [getD_analyze_of_ne hne (by rwa [hlow]), getD_analyze_of_ne hne (by rwa [hhigh]),
      weightedSum_extend_zero, weightedSum_extend_zero, hbank, mul_sum, mul_sum, ← sum_add_distrib]
    refine sum_congr rfl fun n _ => ?_
    split <;> ring
  have hsamples : ∀ n ∈ range x.length,
      (synthesizeWindowed bank x.length approx detail).getD n 0 * x.getD n 0
        = ∑ o ∈ range approx.length, (if 0 ≤ (2 * o + 1 - n : ℤ) ∧ (2 * o + 1 - n : ℤ)
            < bank.low.length
            then bank.low.getD (2 * o + 1 - n : ℤ).toNat 0 * approx.getD o 0
              + bank.high.getD (2 * o + 1 - n : ℤ).toNat 0 * detail.getD o 0
            else 0) * x.getD n 0 := by
    intro n hn
    rw [mem_range] at hn
    rw [synthesizeWindowed_eq, List.getD_eq_getElem _ _ (by simpa using hn), List.getElem_map,
      List.getElem_range, foldl_gatherIfCovering, sum_mul]
  rw [sum_congr rfl hcoefficients, sum_congr rfl hsamples, sum_comm]

/-! ### Periodization -/

/-- **Transposition in periodization**, also where the window wraps around several times. -/
lemma pairing_analyze_periodization {bank : FilterBank K}
    (hbank : bank.high.length = bank.low.length) {approx detail x : List K} (happrox : approx ≠ [])
    (hbands : detail.length = approx.length) (hx : x.length = 2 * approx.length) :
    pairing approx (analyze .periodization bank.low x)
        + pairing detail (analyze .periodization bank.high x)
      = pairing (synthesizePeriodized bank approx detail) x := by
  have hpos : 0 < approx.length := List.length_pos_iff.mpr happrox
  have hlength : ∀ filter : List K, (analyze .periodization filter x).length = approx.length := by
    intro filter
    rw [length_analyze_periodization]
    omega
  have hback := length_synthesizePeriodized hbank hbands
  rw [pairing_eq_sum (hlength _).symm, pairing_eq_sum (hbands.trans (hlength _).symm),
    pairing_eq_sum (hback.trans hx.symm), hback, hbands, ← sum_add_distrib]
  -- the sample that tap `j` of coefficient `o` meets
  let met : ℕ → ℕ → K := fun o j => wrapped x (windowStart .periodization bank.size o - j)
  have hcoefficient : ∀ filter : List K, filter.length = bank.size → ∀ o ∈ range approx.length,
      (analyze .periodization filter x).getD o 0
        = ∑ j ∈ range bank.size, filter.getD j 0 * met o j := by
    intro filter hfilter o ho
    rw [mem_range] at ho
    rw [← wrapped_natCast (by rwa [hlength]), wrapped_analyze filter hpos hx, hfilter]
    refine sum_congr rfl fun j _ => ?_
    simp only [met, windowStart, if_true]
    push_cast
    rfl
  have hsample : ∀ n ∈ range (2 * approx.length),
      (synthesizePeriodized bank approx detail).getD n 0 * x.getD n 0
        = ∑ o ∈ range approx.length, ∑ j ∈ range bank.size,
          if ((windowStart .periodization bank.size o - j) % (2 * approx.length : ℕ)).toNat = n then
            (bank.low.getD j 0 * approx.getD o 0 + bank.high.getD j 0 * detail.getD o 0)
              * x.getD n 0
          else 0 := by
    intro n hn
    rw [mem_range] at hn
    simp only [getD_synthesizePeriodized hbank hbands hn, sum_mul, ite_mul, zero_mul]
  rw [sum_congr rfl hsample, sum_comm]
  refine sum_congr rfl fun o ho => ?_
  rw [hcoefficient bank.low rfl o ho, hcoefficient bank.high hbank o ho, mul_sum, mul_sum,
    ← sum_add_distrib, sum_comm]
  refine sum_congr rfl fun j _ => ?_
  rw [sum_ite_eq, if_pos (mem_range.mpr (toNat_emod_lt (by omega) _))]
  simp only [met, wrapped, hx]
  ring

/-! ### Both directions of a bank -/

/-- **The inverse transform is the transpose of the forward transform**, for any two filters of
one length.  Let a signal have the length of the reconstructions from two bands, with zeros
beyond its ends or in periodization.  Then the coefficients of the signal are as many as those
of the bands, and pairing the bands with them is the same as pairing the reconstruction with
the signal. -/
theorem FilterBank.pairing_inverse_eq {bank : FilterBank K}
    (hbank : bank.high.length = bank.low.length) {mode : BoundaryMode} {approx detail x : List K}
    (happrox : approx ≠ []) (hbands : detail.length = approx.length)
    (hx : mode = .zero ∧ x.length + bank.size = 2 * approx.length + 2 ∧ 1 ≤ x.length ∨
      mode = .periodization ∧ x.length = 2 * approx.length) :
    ∃ low high y, bank.forward mode x = .ok (low, high) ∧
      bank.inverse mode approx detail = .ok y ∧ low.length = approx.length ∧
      high.length = detail.length ∧ y.length = x.length ∧
      pairing approx low + pairing detail high = pairing y x := by
  have hpos : 1 ≤ approx.length := List.length_pos_iff.mpr happrox
  have hempty : x ≠ [] := by
    refine List.length_pos_iff.mp ?_
    omega
  rcases hx with ⟨rfl, hx, -⟩ | ⟨rfl, hx⟩
  · have hne : BoundaryMode.zero ≠ .periodization := by decide
    have hinverse : bank.inverse .zero approx detail
        = .ok (synthesizeWindowed bank (2 * approx.length + 2 - bank.size) approx detail) :=
      inverse_eq_ok_of_ne hne rfl hbands hpos (by omega)
    rw [show 2 * approx.length + 2 - bank.size = x.length by omega] at hinverse
    refine ⟨_, _, _, forward_eq_ok hempty, hinverse, ?_, ?_, ?_,
      pairing_analyze_zero hbank hbands hx⟩
    · rw [length_analyze]
      exact coefficientCount_of_reconstruction hne hx
    · rw [length_analyze, hbank, hbands]
      exact coefficientCount_of_reconstruction hne hx
    · rw [synthesizeWindowed, List.length_map, List.length_range]
  · refine ⟨_, _, _, forward_eq_ok hempty, inverse_periodization_eq_ok happrox hbands, ?_, ?_, ?_,
      pairing_analyze_periodization hbank happrox hbands hx⟩
    · rw [length_analyze_periodization]
      omega
    · rw [length_analyze_periodization]
      omega
    · rw [length_synthesizePeriodized hbank hbands, hx]

/-- Two filters of three taps, which are no quadrature mirrors, on a signal of three samples;
and two filters of four taps on a signal of two samples, around which their windows go twice. -/
theorem FilterBank.pairing_inverse_eq_unrelated :
    (∃ low high y, (⟨[1, 2, 3], [4, 5, 7]⟩ : FilterBank ℤ).forward .zero [2, -1, 5]
        = .ok (low, high) ∧
      (⟨[1, 2, 3], [4, 5, 7]⟩ : FilterBank ℤ).inverse .zero [3, 1] [6, 11] = .ok y ∧
      pairing [3, 1] low + pairing [6, 11] high = pairing y [2, -1, 5]) ∧
    ∃ low high y, (⟨[1, 2, 3, 4], [5, 6, 7, 9]⟩ : FilterBank ℤ).forward .periodization [2, -1]
        = .ok (low, high) ∧
      (⟨[1, 2, 3, 4], [5, 6, 7, 9]⟩ : FilterBank ℤ).inverse .periodization [3] [6] = .ok y ∧
      pairing [3] low + pairing [6] high = pairing y [2, -1] := by
  constructor
  · obtain ⟨low, high, y, hforward, hinverse, -, -, -, hpairing⟩ :=
      @pairing_inverse_eq ℤ _ ⟨[1, 2, 3], [4, 5, 7]⟩ rfl .zero [3, 1] [6, 11] [2, -1, 5]
        (by decide) rfl (Or.inl ⟨rfl, rfl, by decide⟩)
    exact ⟨low, high, y, hforward, hinverse, hpairing⟩
  · obtain ⟨low, high, y, hforward, hinverse, -, -, -, hpairing⟩ :=
      @pairing_inverse_eq ℤ _ ⟨[1, 2, 3, 4], [5, 6, 7, 9]⟩ rfl .periodization [3] [6] [2, -1]
        (by decide) rfl (Or.inr ⟨rfl, rfl⟩)
    exact ⟨low, high, y, hforward, hinverse, hpairing⟩

end WaveletPrecision
