import WaveletPrecision.Proofs.Transform.Lengths

/-
The reconstruction outside of periodization, as one plain sum for each sample.

The loop of `synthesizeWindowed` computes where the first coefficient that can cover a sample is,
passes over the ones before and breaks off behind the last one.  `plainSynthesis` does none of
this: it goes through all coefficients in their order and takes those that have a tap for the
sample.  The two are equal in every sample type, because neither of them adds anything else, in
any other order (`synthesizeWindowed_eq_plainSynthesis`), so this says more than an equation
between sums: no rounding is different.
-/
namespace WaveletPrecision

variable {K : Type} [Zero K] [Add K] [Mul K]

/-- Sample `n` of a reconstruction: from zero on, every coefficient `o` that met the sample with
one of its taps is added, the first one first. -/
def plainSynthesis (bank : FilterBank K) (approx detail : List K) (n : ℕ) : K :=
  (List.range approx.length).foldl (fun sum (o : ℕ) =>
    let j : ℤ := 2 * o + 1 - n
    if 0 ≤ j ∧ j < bank.size then
      bank.low.getD j.toNat 0 * approx.getD o 0
        + (bank.high.getD j.toNat 0 * detail.getD o 0 + sum)
    else sum) 0

/-- The loop drops no coefficient and reorders none. -/
lemma synthesizeWindowed_eq_plainSynthesis (bank : FilterBank K) (length : ℕ)
    (approx detail : List K) :
    synthesizeWindowed bank length approx detail
      = (List.range length).map (plainSynthesis bank approx detail) := by
  rw [synthesizeWindowed_eq]
  refine List.map_congr_left fun n _ => ?_
  rw [plainSynthesis]
  refine congrArg (List.foldl · 0 (List.range approx.length)) (funext₂ fun sum o => ?_)
  simp only [gatherIfCovering, gather, getD_toArray, List.size_toArray]
  rfl

/-- **The inverse transform of a wavelet is the plain sum**, bit for bit: in every sample type and
every mode but periodization, bands of one length with enough coefficients for the filters give
samples that are `plainSynthesis`, each of which reads taps and coefficients that are there. -/
theorem Wavelet.inverse_eq_plainSynthesis (T : Type) [Sample T] (w : Wavelet)
    {mode : BoundaryMode} (hmode : mode ≠ .periodization) {approx detail : List T}
    (hbands : detail.length = approx.length) (happrox : 1 ≤ approx.length)
    (hsize : w.filterSize ≤ 2 * approx.length + 2) :
    (w.bankIn T).low.length = w.filterSize ∧ (w.bankIn T).high.length = w.filterSize ∧
      (w.bankIn T).inverse mode approx detail
        = .ok ((List.range (2 * approx.length + 2 - w.filterSize)).map
            (plainSynthesis (w.bankIn T) approx detail)) := by
  have htaps := w.size_bankIn T
  refine ⟨htaps, w.length_high_bankIn T, ?_⟩
  rw [FilterBank.inverse_eq_ok_of_ne hmode rfl hbands happrox (by rwa [FilterBank.size, htaps]),
    FilterBank.size, htaps, synthesizeWindowed_eq_plainSynthesis]

/-- Two coefficients for four taps: each of the two samples meets both. -/
theorem Wavelet.inverse_eq_plainSynthesis_db2 :
    BoundaryMode.symmetric ≠ .periodization ∧ (Wavelet.mk "db2" .daubechies2).filterSize ≤ 6 ∧
      ((Wavelet.mk "db2" .daubechies2).bankIn Binary64).inverse .symmetric [0.5, 1.0] [1.0, 2.0]
        = .ok
          [plainSynthesis ((Wavelet.mk "db2" .daubechies2).bankIn Binary64) [0.5, 1.0] [1.0, 2.0] 0,
            plainSynthesis ((Wavelet.mk "db2" .daubechies2).bankIn Binary64) [0.5, 1.0] [1.0, 2.0]
              1] := by
  have hsize : (Wavelet.mk "db2" .daubechies2).filterSize = 4 := rfl
  have hmode : BoundaryMode.symmetric ≠ .periodization := by decide
  have hbands : ([1.0, 2.0] : List Binary64).length = ([0.5, 1.0] : List Binary64).length := rfl
  refine ⟨hmode, by omega, ?_⟩
  rw [(Wavelet.inverse_eq_plainSynthesis Binary64 ⟨"db2", .daubechies2⟩ hmode hbands (by decide)
    (by rw [hsize]; decide)).2.2, hsize]
  rfl

end WaveletPrecision
