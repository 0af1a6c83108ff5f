import WaveletPrecision.Proofs.Error
import WaveletPrecision.Proofs.FilterBank.Orthonormal
import WaveletPrecision.Proofs.Transform.Convolution
import WaveletPrecision.Proofs.Transform.Lifting
import WaveletPrecision.Transform.Engine

/-
How many values a transform gives.

Only the boundary mode, the number of taps and the number of samples decide it, and no
operation of the sample type does; so the lengths of the bands and of the reconstruction are
the same in every precision.

A lifting scheme always halves a signal, and puts the halves together to its length.  A filter
bank keeps as many coefficients as half of the samples only in periodization or if it has two
taps (`coefficientCount_eq_half_up_iff`), and it reconstructs a signal in its length only if
that is even (`reconstructionLength_coefficientCount_iff`).  The last section states the
lengths for the two kinds of engines, whose results are widened samples.
-/
namespace WaveletPrecision

/-! ### Numbers of coefficients -/

section Counts

variable {mode : BoundaryMode} {taps n : Nat}

lemma coefficientCount_eq_half_up_iff (heven : Even taps) (htaps : 2 ≤ taps) :
    coefficientCount mode taps n = (n + 1) / 2 ↔ taps = 2 ∨ mode = .periodization := by
  obtain ⟨k, rfl⟩ := heven
  rw [coefficientCount]
  split
  · rename_i hmode
    simp [hmode]
  · rename_i hmode
    simp only [hmode, or_false]
    omega

lemma coefficientCount_eq_half_down_iff (heven : Even taps) (htaps : 2 ≤ taps) :
    coefficientCount mode taps n = n / 2 ↔ n % 2 = 0 ∧ (taps = 2 ∨ mode = .periodization) := by
  obtain ⟨k, rfl⟩ := heven
  rw [coefficientCount]
  split
  · rename_i hmode
    simp only [hmode, or_true, and_true]
    omega
  · rename_i hmode
    simp only [hmode, or_false]
    omega

/-- The reconstruction of all coefficients of a signal has the length of the signal if that is
even. -/
lemma reconstructionLength_coefficientCount_iff {length : Nat} (heven : Even taps)
    (htaps : 2 ≤ taps)
    (h : reconstructionLength? mode taps (coefficientCount mode taps n) = some length) :
    length = n ↔ n % 2 = 0 := by
  obtain ⟨k, rfl⟩ := heven
  rw [reconstructionLength?, coefficientCount] at h
  split at h
  · cases h
    omega
  · split at h
    · cases h
      omega
    · cases h

end Counts

/-! ### Filter banks -/

namespace FilterBank

variable {K : Type} [Zero K] [Add K] [Mul K] {bank : FilterBank K} {mode : BoundaryMode}

lemma length_forward [Sub K] [Neg K] [NatCast K] {x : List K} {bands : List K × List K}
    (h : bank.forward mode x = .ok bands) :
    bands.1.length = coefficientCount mode bank.low.length x.length ∧
      bands.2.length = coefficientCount mode bank.high.length x.length := by
  rw [forward] at h
  split at h
  · cases h
  · cases h
    exact ⟨length_analyze .., length_analyze ..⟩

lemma length_inverse (hbank : bank.high.length = bank.low.length) {approx detail x : List K}
    (h : bank.inverse mode approx detail = .ok x) :
    reconstructionLength? mode bank.size approx.length = some x.length := by
  rw [inverse] at h
  split at h
  · cases h
  · rename_i hbands
    rw [ne_eq, not_not] at hbands
    split at h
    · cases h
    · split at h
      · cases h
      · rename_i length hlength
        split at h
        · rename_i hmode
          cases h
          rw [length_synthesizePeriodized hbank hbands.symm, reconstructionLength?, if_pos hmode]
        · cases h
          rw [hlength, synthesizeWindowed, List.length_map, List.length_range]

end FilterBank

/-! ### Lifting schemes -/

lemma length_interleave {K : Type} {even odd : List K}
    (h : even.length = odd.length ∨ even.length = odd.length + 1) :
    (interleave even odd).length = even.length + odd.length := by
  obtain ⟨heven, hodd⟩ := length_deinterleave (interleave even odd)
  simp only [deinterleave_interleave h] at heven hodd
  omega

namespace LiftingScheme

variable {K : Type} [Zero K] [Add K] [Sub K] [Mul K] [Neg K] [NatCast K]
  {scheme : LiftingScheme K} {mode : BoundaryMode}

lemma length_forward {x : List K} {bands : List K × List K}
    (h : scheme.forward mode x = .ok bands) :
    bands.1.length = (x.length + 1) / 2 ∧ bands.2.length = x.length / 2 := by
  rw [forward] at h
  split at h
  · cases h
  · cases h
    obtain ⟨heven, hodd⟩ := length_deinterleave x
    obtain ⟨heven', hodd'⟩ := scheme.length_runSteps mode (deinterleave x)
    exact ⟨heven'.trans heven, hodd'.trans hodd⟩

lemma length_inverse [Div K] {approx detail x : List K}
    (h : scheme.inverse mode approx detail = .ok x) :
    x.length = approx.length + detail.length := by
  have hhalves := (inverse_isOk_iff mode).mp ⟨x, h⟩
  rw [inverse_eq_ok mode hhalves, Except.ok.injEq] at h
  rw [← h, length_interleave (halves_undoSteps mode scheme hhalves).2]
  obtain ⟨heven, hodd⟩ := scheme.length_undoSteps mode (approx, detail)
  rw [heven, hodd]

end LiftingScheme

/-! ### Engines -/

namespace Wavelet

lemma even_filterSize (w : Wavelet) : Even w.filterSize ∧ 2 ≤ w.filterSize := by
  rw [filterSize, bank, FilterBank.size, FilterBank.ofLow]
  cases w.family <;> decide

lemma size_bankIn (T : Type) [Sample T] (w : Wavelet) : (w.bankIn T).low.length = w.filterSize :=
  List.length_map _

lemma length_high_bankIn (T : Type) [Sample T] (w : Wavelet) :
    (w.bankIn T).high.length = w.filterSize := by
  simp [bankIn, bank, filterSize, FilterBank.map, FilterBank.ofLow, FilterBank.size]

end Wavelet

namespace Engine

variable {T : Type} [Sample T] {label : String} {w : Wavelet} {mode : BoundaryMode}
  {x : List Binary64} {bands : Coefficients}

lemma length_forward_convolution (h : (convolution T label).forward w mode x = .ok bands) :
    bands.approx.length = coefficientCount mode w.filterSize x.length ∧
      bands.detail.length = coefficientCount mode w.filterSize x.length := by
  obtain ⟨samples, hsamples, h⟩ := bind_eq_ok_iff.mp h
  cases h
  simpa [Coefficients.ofSamples, Sample.widenAll, Sample.narrowAll, w.size_bankIn T,
    w.length_high_bankIn T] using FilterBank.length_forward hsamples

lemma length_inverse_convolution (h : (convolution T label).inverse w mode bands = .ok x) :
    reconstructionLength? mode w.filterSize bands.approx.length = some x.length := by
  obtain ⟨samples, hsamples, h⟩ := bind_eq_ok_iff.mp h
  cases h
  have hbank : (w.bankIn T).high.length = (w.bankIn T).low.length := by
    rw [w.size_bankIn T, w.length_high_bankIn T]
  simpa [FilterBank.size, Sample.widenAll, Sample.narrowAll, w.size_bankIn T] using
    FilterBank.length_inverse hbank hsamples

lemma length_forward_lifting (h : (lifting T label).forward w mode x = .ok bands) :
    bands.approx.length = (x.length + 1) / 2 ∧ bands.detail.length = x.length / 2 := by
  obtain ⟨scheme, -, h⟩ := bind_eq_ok_iff.mp h
  obtain ⟨samples, hsamples, h⟩ := bind_eq_ok_iff.mp h
  cases h
  simpa [Coefficients.ofSamples, Sample.widenAll, Sample.narrowAll] using
    LiftingScheme.length_forward hsamples

lemma length_inverse_lifting (h : (lifting T label).inverse w mode bands = .ok x) :
    x.length = bands.approx.length + bands.detail.length := by
  obtain ⟨scheme, -, h⟩ := bind_eq_ok_iff.mp h
  obtain ⟨samples, hsamples, h⟩ := bind_eq_ok_iff.mp h
  cases h
  simpa [Sample.widenAll, Sample.narrowAll] using LiftingScheme.length_inverse hsamples

end Engine

end WaveletPrecision
