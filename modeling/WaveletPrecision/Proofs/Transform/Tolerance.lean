import Mathlib.Algebra.Order.Field.Rat
import WaveletPrecision.FilterBank.Wavelet
import WaveletPrecision.Proofs.Binary.Value
import WaveletPrecision.Proofs.FilterBank.Defect
import WaveletPrecision.Proofs.Transform.Lengths
import WaveletPrecision.Proofs.Transform.Periodized
import WaveletPrecision.Proofs.Transform.Windowed

/-
Rounded taps reconstruct every signal up to a tolerance.

The taps of the known wavelets are rounded to double precision, so none of the filters is quite
orthonormal, and a signal does not quite come back even if all arithmetic is exact.  The high-pass
filter is the exact mirror of the low-pass filter all the same.  So the pairs of taps at an odd
distance still cancel, and the error of a sample is what the pairs at an even distance leave:
at most the `defect` of the filter times the greatest sample in reach.

* `abs_synthesizeWindowed_sub_le` and `abs_synthesizePeriodized_sub_le` bound the error of a
  sample for any filter with an even number of taps, outside of periodization and in it;
* `FilterFamily.defect_le` evaluates the defects of the known filters;
* `Wavelet.reconstruction_error_le` is the tolerance for all wavelets, modes and signals.
-/
namespace WaveletPrecision

/-! ### Any filter with an even number of taps -/

section OrderedRing

variable {K : Type} [CommRing K] [LinearOrder K] [IsStrictOrderedRing K] {low x : List K} {M : K}

/-- The error of a sample outside of periodization, where no sample in reach of the filter is
greater than `M`. -/
lemma abs_synthesizeWindowed_sub_le (hlow : Even low.length) {mode : BoundaryMode}
    (hmode : mode ≠ .periodization) {length n : ℕ} (hlength : length + low.length
      ≤ 2 * coefficientCount mode low.length x.length + 2) (hn : n < length)
    (hM : ∀ k : ℤ, n - low.length ≤ k → k ≤ n + low.length → |extend mode x.toArray k| ≤ M) :
    |(synthesizeWindowed (.ofLow low) length (analyze mode low x)
        (analyze mode (quadratureMirror low) x)).getD n 0 - extend mode x.toArray n|
      ≤ defect low * M := by
  have hreach : ∀ t : ℤ, |t| ≤ low.length → |extend mode x.toArray (n + t)| ≤ M := by
    intro t ht
    rw [abs_le] at ht
    exact hM _ (by omega) (by omega)
  have hsum := abs_pairSum_self_sub_le low hreach
  rw [add_zero] at hsum
  rwa [synthesizeWindowed_analyze_eq_pairSum hlow hmode length hlength,
    List.getD_eq_getElem _ _ (by simpa using hn), List.getElem_map, List.getElem_range]

omit [IsStrictOrderedRing K] in
lemma abs_wrapped_le (hx : x ≠ []) (hM : ∀ a ∈ x, |a| ≤ M) (k : ℤ) : |wrapped x k| ≤ M := by
  have hlt := toNat_emod_lt (List.length_pos_iff.mpr hx) k
  rw [wrapped, List.getD_eq_getElem _ _ hlt]
  exact hM _ (List.getElem_mem hlt)

/-- The error of a sample in periodization, for a signal of even length. -/
lemma abs_synthesizePeriodized_sub_le (hlow : Even low.length) (hx : x ≠ [])
    (heven : x.length % 2 = 0) (hM : ∀ a ∈ x, |a| ≤ M) {n : ℕ} (hn : n < x.length) :
    |(synthesizePeriodized (.ofLow low) (analyze .periodization low x)
        (analyze .periodization (quadratureMirror low) x)).getD n 0 - x.getD n 0|
      ≤ defect low * M := by
  have hpos : 0 < x.length := List.length_pos_iff.mpr hx
  have hlength := length_synthesizePeriodized_analyze low heven
  have hreach : ∀ t : ℤ, |t| ≤ low.length → |wrapped x (n + t)| ≤ M := fun t _ =>
    abs_wrapped_le hx hM _
  have hsum := abs_pairSum_self_sub_le low hreach
  rw [add_zero, wrapped_natCast hn] at hsum
  have hhalf : x.length = 2 * (x.length / 2) := by omega
  rwa [← wrapped_natCast (by rwa [hlength]),
    wrapped_synthesizePeriodized_analyze hlow (by omega) hhalf]

namespace FilterBank

/-- A signal comes back outside of periodization, up to the defect of the filter. -/
lemma exists_reconstruction_windowed (hlow : Even low.length) (hF : 2 ≤ low.length)
    {mode : BoundaryMode} (hmode : mode ≠ .periodization) (hx : x ≠ []) :
    ∃ approx detail y, (ofLow low).forward mode x = .ok (approx, detail) ∧
      (ofLow low).inverse mode approx detail = .ok y ∧ y.length = (padEven x).length ∧
      ∀ M : K, (∀ k : ℤ, -low.length ≤ k → k ≤ x.length + low.length →
          |extend mode x.toArray k| ≤ M) →
        ∀ n < y.length, |y.getD n 0 - extend mode x.toArray n| ≤ defect low * M := by
  have hpos : 1 ≤ x.length := List.length_pos_iff.mpr hx
  have hcount := two_mul_coefficientCount hmode hlow hpos
  have hpadded := length_padEven x
  have hlength : 2 * coefficientCount mode low.length x.length + 2 - low.length
      = (padEven x).length := by
    omega
  have hinverse : (ofLow low).inverse mode (analyze mode low x)
      (analyze mode (quadratureMirror low) x) = .ok (synthesizeWindowed (.ofLow low)
        (2 * coefficientCount mode low.length x.length + 2 - low.length) (analyze mode low x)
        (analyze mode (quadratureMirror low) x)) :=
    inverse_eq_ok_of_ne hmode (length_analyze mode low x) (by simp) (by omega)
      (show low.length ≤ _ by omega)
  have hy : (synthesizeWindowed (.ofLow low)
      (2 * coefficientCount mode low.length x.length + 2 - low.length) (analyze mode low x)
        (analyze mode (quadratureMirror low) x)).length = (padEven x).length := by
    rw [synthesizeWindowed, List.length_map, List.length_range, hlength]
  refine ⟨_, _, _, forward_eq_ok hx, hinverse, hy, fun M hM n hn => ?_⟩
  rw [hy] at hn
  refine abs_synthesizeWindowed_sub_le hlow hmode (by omega) (by omega) fun k hleft hright => ?_
  exact hM k (by omega) (by omega)

lemma exists_reconstruction_periodization (hlow : Even low.length) (hx : x ≠ []) :
    ∃ approx detail y, (ofLow low).forward .periodization x = .ok (approx, detail) ∧
      (ofLow low).inverse .periodization approx detail = .ok y ∧
      y.length = (padEven x).length ∧
      ∀ M : K, (∀ a ∈ x, |a| ≤ M) →
        ∀ n < y.length, |y.getD n 0 - (padEven x).getD n 0| ≤ defect low * M := by
  have hpos : 0 < x.length := List.length_pos_iff.mpr hx
  have hpadded := length_padEven x
  have hne : padEven x ≠ [] := List.length_pos_iff.mp (by omega)
  have heven : (padEven x).length % 2 = 0 := by omega
  have hbands : (analyze .periodization (quadratureMirror low) x).length
      = (analyze .periodization low x).length := by
    rw [length_analyze_periodization, length_analyze_periodization]
  have happrox : analyze .periodization low x ≠ [] :=
    List.length_pos_iff.mp (by rw [length_analyze_periodization]; omega)
  have hlength := length_synthesizePeriodized_analyze low heven
  rw [analyze_padEven, analyze_padEven] at hlength
  refine ⟨_, _, _, forward_eq_ok hx, inverse_periodization_eq_ok happrox hbands, hlength,
    fun M hM n hn => ?_⟩
  have hsamples : ∀ a ∈ padEven x, |a| ≤ M := fun a ha => hM a (mem_of_mem_padEven ha)
  have hn : n < (padEven x).length := hlength ▸ hn
  have herror := abs_synthesizePeriodized_sub_le hlow hne heven hsamples hn
  rwa [analyze_padEven, analyze_padEven] at herror

end FilterBank

end OrderedRing

/-! ### The known filters -/

/-- The known filters are orthonormal up to less than one in `10 ^ 9`. -/
lemma FilterFamily.defect_le (family : FilterFamily) :
    defect (family.low.map Binary.toRat) ≤ 1 / 10 ^ 9 := by
  cases family <;> decide +kernel

namespace Wavelet

lemma isFinite_of_mem_bank {w : Wavelet} {tap : Binary64} (h : tap ∈ w.bank.low ++ w.bank.high) :
    tap.isFinite = true := by
  have hall : ∀ family : FilterFamily,
      ∀ tap ∈ family.low ++ quadratureMirror family.low, tap.isFinite = true := by
    intro family
    cases family <;> decide +kernel
  exact hall w.family tap h

/-- The filter bank of a wavelet with its double-precision taps as exact rational numbers. -/
def exactBank (w : Wavelet) : FilterBank ℚ := w.bank.map Binary.toRat

lemma exactBank_eq (w : Wavelet) : w.exactBank = .ofLow (w.family.low.map Binary.toRat) := by
  rw [exactBank, bank, FilterBank.map, FilterBank.ofLow, FilterBank.ofLow,
    map_quadratureMirror Binary.toRat_neg]

lemma le_tolerance_of_le_defect (w : Wavelet) {error M : ℚ} (hM : 0 ≤ M)
    (h : error ≤ defect (w.family.low.map Binary.toRat) * M) : error ≤ 1 / 10 ^ 9 * M :=
  h.trans (mul_le_mul_of_nonneg_right w.family.defect_le hM)

variable {x : List ℚ}

/-- **The tolerance of the known wavelets.**  The taps are numbers, and in exact arithmetic the
inverse transform of the forward transform of a signal that is not empty gives back every sample
of the extended signal, up to `M / 10 ^ 9` if no sample in reach of the filter is greater than
`M`.  In periodization it gives back every sample of the signal, made even by repeating its last
sample. -/
theorem reconstruction_error_le (w : Wavelet) (mode : BoundaryMode) (hx : x ≠ []) :
    (∀ tap ∈ w.bank.low ++ w.bank.high, tap.isFinite = true) ∧
    ∃ approx detail y, w.exactBank.forward mode x = .ok (approx, detail) ∧
      w.exactBank.inverse mode approx detail = .ok y ∧ y.length = (padEven x).length ∧
      (mode ≠ .periodization → ∀ M : ℚ,
        (∀ k : ℤ, -w.filterSize ≤ k → k ≤ x.length + w.filterSize → |extend mode x.toArray k| ≤ M) →
        ∀ n < y.length, |y.getD n 0 - extend mode x.toArray n| ≤ 1 / 10 ^ 9 * M) ∧
      (mode = .periodization → ∀ M : ℚ, (∀ a ∈ x, |a| ≤ M) →
        ∀ n < y.length, |y.getD n 0 - (padEven x).getD n 0| ≤ 1 / 10 ^ 9 * M) := by
  refine ⟨fun tap => isFinite_of_mem_bank, ?_⟩
  have hsize : (w.family.low.map Binary.toRat).length = w.filterSize := List.length_map _
  obtain ⟨heven, hF⟩ := w.even_filterSize
  rw [← hsize] at heven hF ⊢
  rw [exactBank_eq]
  by_cases hmode : mode = .periodization
  · subst hmode
    obtain ⟨approx, detail, y, hforward, hinverse, hlength, herror⟩ :=
      FilterBank.exists_reconstruction_periodization heven hx
    refine ⟨approx, detail, y, hforward, hinverse, hlength, fun hne => absurd rfl hne,
      fun _ M hM n hn => w.le_tolerance_of_le_defect ?_ (herror M hM n hn)⟩
    exact (abs_nonneg _).trans (hM _ (List.getLast_mem hx))
  · obtain ⟨approx, detail, y, hforward, hinverse, hlength, herror⟩ :=
      FilterBank.exists_reconstruction_windowed heven hF hmode hx
    refine ⟨approx, detail, y, hforward, hinverse, hlength,
      fun _ M hM n hn => w.le_tolerance_of_le_defect ?_ (herror M hM n hn),
      fun heq => absurd heq hmode⟩
    exact (abs_nonneg _).trans (hM 0 (by omega) (by omega))

/-- The filter with the fewest correct digits, on a signal of three samples.  The straight lines
beyond its ends pass through 8 behind it, and through 38 where the filter still reaches. -/
theorem reconstruction_error_le_coiflet :
    let w : Wavelet := ⟨"coif1", .coiflet1⟩
    (∃ approx detail y, w.exactBank.forward .smooth [1, -2, 3] = .ok (approx, detail) ∧
      w.exactBank.inverse .smooth approx detail = .ok y ∧ y.length = 4 ∧
      ∀ n < 4, |y.getD n 0 - [1, -2, 3, 8].getD n 0| ≤ 1 / 10 ^ 9 * 38) ∧
    ∃ approx detail y, w.exactBank.forward .periodization [1, -2, 3] = .ok (approx, detail) ∧
      w.exactBank.inverse .periodization approx detail = .ok y ∧ y.length = 4 ∧
      ∀ n < 4, |y.getD n 0 - [1, -2, 3, 3].getD n 0| ≤ 1 / 10 ^ 9 * 3 := by
  intro w
  have hx : ([1, -2, 3] : List ℚ) ≠ [] := List.cons_ne_nil _ _
  constructor
  · obtain ⟨-, approx, detail, y, hforward, hinverse, hlength, herror, -⟩ :=
      w.reconstruction_error_le .smooth hx
    have hreach : ∀ i < 16, |extend .smooth ([1, -2, 3] : List ℚ).toArray ((i : ℕ) - 6)| ≤ 38 := by
      decide +kernel
    have hsamples : ∀ n < 4, extend .smooth ([1, -2, 3] : List ℚ).toArray (n : ℕ)
        = [1, -2, 3, 8].getD n 0 := by
      decide +kernel
    have hsize : w.filterSize = 6 := rfl
    refine ⟨approx, detail, y, hforward, hinverse, hlength, fun n hn => ?_⟩
    rw [← hsamples n hn]
    refine herror (by decide) 38 (fun k hleft hright => ?_) n (by rw [hlength]; exact hn)
    rw [hsize] at hleft hright
    have hplace : (((k + 6).toNat : ℕ) : ℤ) - 6 = k := by omega
    rw [← hplace]
    exact hreach _ (by simp at hright; omega)
  · obtain ⟨-, approx, detail, y, hforward, hinverse, hlength, -, herror⟩ :=
      w.reconstruction_error_le .periodization hx
    have hsamples : ∀ a ∈ ([1, -2, 3] : List ℚ), |a| ≤ 3 := by decide +kernel
    exact ⟨approx, detail, y, hforward, hinverse, hlength, fun n hn =>
      herror rfl 3 hsamples n (by rw [hlength]; exact hn)⟩

end Wavelet

end WaveletPrecision
