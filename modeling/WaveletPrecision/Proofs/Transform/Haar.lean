import Mathlib.Analysis.Real.Sqrt
import Mathlib.Tactic.FieldSimp
import WaveletPrecision.Proofs.Transform.Periodized
import WaveletPrecision.Proofs.Transform.Reconstruction

/-
The Haar wavelet, by lifting and by convolution.

A window of two taps that starts at an odd position meets one sample of the even part of a signal
and the one behind it, in the odd part.  If the length of the signal is even, no window reaches
beyond an end, and neither does a stencil with a single tap; so nothing is read that a boundary
mode decides, and both algorithms compute each coefficient from such a pair of samples:

* `analyze_two` says so of a filter with two taps, and `Stencil.lift_single` of a lifting step
  with a single one, in any arithmetic;
* `LiftingScheme.runSteps_haar` are the three steps of the scheme, one after the other.

What is left is an identity between two samples (`haar_low_eq`, `haar_high_eq`).  A transform of
a matrix asks its kernel for columns and rows only, so two kernels that agree on both lengths
have the same four bands (`Separable.forward_congr`).

`LiftingScheme.haar_forward_eq_convolution` is the statement on signals and on matrices.
-/
namespace WaveletPrecision

/-! ### Pairs of neighbouring samples -/

section Operations

variable {K : Type} [Zero K] [Add K] [Sub K] [Mul K] [Neg K] [NatCast K]

/-- A filter with two taps on a signal of even length, in every mode. -/
lemma analyze_two (mode : BoundaryMode) (a b : K) {x : List K} (heven : x.length % 2 = 0) :
    analyze mode [a, b] x
      = List.zipWith (fun e o => b * e + (a * o + 0)) (deinterleave x).1 (deinterleave x).2 := by
  obtain ⟨hevenLength, hoddLength⟩ := length_deinterleave x
  have hsamples : (if mode = .periodization then padEven x else x) = x := by
    rw [padEven_of_even heven, ite_self]
  have hcount : coefficientCount mode 2 x.length = x.length / 2 := by
    rw [coefficientCount]
    split <;> omega
  have hstart : ∀ o, windowStart mode 2 o = (2 * o + 1 : ℕ) := by
    intro o
    rw [windowStart]
    split <;> omega
  have hlength : (analyze mode [a, b] x).length = x.length / 2 := by
    rw [length_analyze, List.length_cons, List.length_singleton, hcount]
  apply List.ext_getElem
  · rw [hlength, List.length_zipWith]
    omega
  · intro o ho _
    have hcoefficient : (analyze mode [a, b] x).getD o 0
        = weightedSum [a, b] fun j =>
          extend mode (if mode = .periodization then padEven x else x).toArray
            (windowStart mode 2 o - j) :=
      getD_analyze (by rwa [← length_analyze])
    rw [hlength] at ho
    obtain ⟨hevenSample, hoddSample⟩ := getD_deinterleave x o
    have hinside : ∀ k < x.length, extend mode x.toArray (k : ℕ) = x.getD k 0 := by
      intro k hk
      rw [extend_of_lt mode (by simpa using hk), List.getD_eq_getElem _ _ hk]
      rfl
    have hwindow : (weightedSum [a, b] fun j => extend mode x.toArray ((2 * o + 1 : ℕ) - j))
        = b * extend mode x.toArray (2 * o : ℕ)
          + (a * extend mode x.toArray (2 * o + 1 : ℕ) + 0) := by
      simp [weightedSum]
    -- both positions of the window are inside of the signal
    rw [hsamples, hstart, hwindow, hinside _ (by omega), hinside _ (by omega), ← hevenSample,
      ← hoddSample] at hcoefficient
    rw [List.getElem_zipWith, ← List.getD_eq_getElem _ 0, ← List.getD_eq_getElem _ 0,
      ← List.getD_eq_getElem _ 0, hcoefficient]

lemma Stencil.lift_single (mode : BoundaryMode) (c : K) (combine : K → K → K)
    {target source : List K} (hlength : target.length = source.length) :
    Stencil.lift ⟨[c], 0⟩ mode combine target source
      = List.zipWith (fun t a => combine t (c * a + 0)) target source := by
  apply List.ext_getElem
  · rw [length_lift, List.length_zipWith, hlength, min_self]
  · intro i hi _
    rw [length_lift, hlength] at hi
    have hinside := extend_of_lt mode (x := source.toArray) (k := i) (by simpa using hi)
    simp [lift, apply, weightedSum, position_of_shift_le_one, hinside]

end Operations

/-! ### The two algorithms -/

section Haar

variable {K : Type} [Field K] {root2 : K}

lemma LiftingScheme.runSteps_haar (root2 : K) (mode : BoundaryMode) {even odd : List K}
    (hlength : even.length = odd.length) :
    (haar root2).runSteps mode (even, odd)
      = (List.zipWith (fun e o => (e + 1 / 2 * (o - e)) * root2) even odd,
          List.zipWith (fun e o => (o - e) * (-1 / root2)) even odd) := by
  -- the odd part after its step, and the even part after its own
  let odd₁ := Stencil.lift ⟨[-((1 : ℕ) : K)], 0⟩ mode (· + ·) odd even
  let even₁ := Stencil.lift ⟨[((1 : ℕ) : K) / (2 : ℕ)], 0⟩ mode (· + ·) even odd₁
  have hparts : (haar root2).runSteps mode (even, odd)
      = (even₁.map (· * root2), odd₁.map (· * (-((1 : ℕ) : K) / root2))) := rfl
  have hodd₁ : odd₁ = List.zipWith (fun e o => o - e) even odd := by
    rw [List.zipWith_comm]
    exact (Stencil.lift_single mode _ _ hlength.symm).trans (by simp [sub_eq_add_neg])
  have heven₁ : even₁ = List.zipWith (fun e o => e + 1 / 2 * (o - e)) even odd := by
    have hlift : even₁
        = List.zipWith (fun e d => e + (((1 : ℕ) : K) / (2 : ℕ) * d + 0)) even odd₁ :=
      Stencil.lift_single mode _ _ (hlength.trans (Stencil.length_lift ..).symm)
    rw [hlift, hodd₁, List.zipWith_zipWith_right, List.zipWith3_same_left]
    simp
  rw [hparts, heven₁, hodd₁, List.map_zipWith, List.map_zipWith, Nat.cast_one]

variable (h2 : root2 ^ 2 = 2) (htwo : (2 : K) ≠ 0)

include h2 htwo

lemma root2_ne_zero : root2 ≠ 0 := by
  rintro rfl
  rw [zero_pow two_ne_zero] at h2
  exact htwo h2.symm

/-- The approximation of the scheme and that of the bank, from a pair of samples. -/
lemma haar_low_eq (e o : K) :
    (e + 1 / 2 * (o - e)) * root2 = 1 / root2 * e + (1 / root2 * o + 0) := by
  have hroot2 := root2_ne_zero h2 htwo
  field_simp
  linear_combination (e + o) * h2

omit h2 htwo in
lemma haar_high_eq (e o : K) :
    (o - e) * (-1 / root2) = 1 / root2 * e + (-(1 / root2) * o + 0) := by
  ring

/-- The parts of a signal of even length after the steps of the scheme are the bands of the
bank. -/
lemma LiftingScheme.runSteps_haar_eq_analyze (mode mode' : BoundaryMode) {x : List K}
    (heven : x.length % 2 = 0) :
    (haar root2).runSteps mode (deinterleave x)
      = (analyze mode' [1 / root2, 1 / root2] x,
          analyze mode' (quadratureMirror [1 / root2, 1 / root2]) x) := by
  have hmirror : quadratureMirror [1 / root2, 1 / root2] = [-(1 / root2), 1 / root2] := by
    simp [quadratureMirror, alternate]
  obtain ⟨hevenLength, hoddLength⟩ := length_deinterleave x
  have hlength : (deinterleave x).1.length = (deinterleave x).2.length := by omega
  rw [← Prod.mk.eta (p := deinterleave x), runSteps_haar root2 mode hlength, hmirror,
    analyze_two mode' _ _ heven, analyze_two mode' _ _ heven]
  simp only [haar_low_eq h2 htwo, haar_high_eq]

lemma LiftingScheme.haar_forward_eq (mode mode' : BoundaryMode) {x : List K} (hx : x ≠ [])
    (heven : x.length % 2 = 0) :
    (haar root2).forward mode x
      = (FilterBank.ofLow [1 / root2, 1 / root2]).forward mode' x := by
  rw [forward_eq_ok mode hx, FilterBank.forward_eq_ok hx,
    runSteps_haar_eq_analyze h2 htwo mode mode' heven]
  rfl

/-- **The two algorithms on the Haar wavelet.**  On a signal of even length, and on a matrix with
even numbers of rows and of columns, the scheme and the bank compute the same bands, whichever
boundary mode each of them is given. -/
theorem LiftingScheme.haar_forward_eq_convolution (mode mode' : BoundaryMode) :
    (∀ x : List K, x ≠ [] → x.length % 2 = 0 → ∃ bands,
      (haar root2).forward mode x = .ok bands ∧
      (FilterBank.ofLow [1 / root2, 1 / root2]).forward mode' x = .ok bands) ∧
    ∀ m : Matrix K, 1 ≤ m.rows → 1 ≤ m.cols → m.rows % 2 = 0 → m.cols % 2 = 0 → ∃ bands,
      (haar root2).forwardMatrix mode m = .ok bands ∧
      (FilterBank.ofLow [1 / root2, 1 / root2]).forwardMatrix mode' m = .ok bands := by
  constructor
  · intro x hx heven
    exact ⟨_, forward_eq_ok mode hx,
      (haar_forward_eq h2 htwo mode mode' hx heven).symm.trans (forward_eq_ok mode hx)⟩
  · intro m hrows hcols hevenRows hevenCols
    obtain ⟨bands, hforward, -⟩ := ((haar root2).fits mode).forward_ok m hrows hcols
    have hkernels : ∀ n, 1 ≤ n → n % 2 = 0 → ∀ v : List K, v.length = n →
        (haar root2).forward mode v
          = (FilterBank.ofLow [1 / root2, 1 / root2]).forward mode' v := by
      rintro n hn heven v rfl
      exact haar_forward_eq h2 htwo mode mode' (List.length_pos_iff.mp hn) heven
    have hsame := Separable.forward_congr (hkernels _ hrows hevenRows)
      (hkernels _ hcols hevenCols)
    exact ⟨bands, hforward, hsame.symm.trans hforward⟩

end Haar

/-- A signal of two samples and a matrix of two rows and four columns over the real numbers, with
different modes for the two algorithms. -/
theorem LiftingScheme.haar_forward_eq_convolution_real :
    (√2 : ℝ) ^ 2 = 2 ∧ (2 : ℝ) ≠ 0 ∧
    (∃ bands, (haar (√2 : ℝ)).forward .smooth [3, 1] = .ok bands ∧
      (FilterBank.ofLow [1 / (√2 : ℝ), 1 / √2]).forward .periodization [3, 1] = .ok bands) ∧
    ∃ bands, (haar (√2 : ℝ)).forwardMatrix .smooth (.ofFn 2 4 fun r c => r + c ^ 2) = .ok bands ∧
      (FilterBank.ofLow [1 / (√2 : ℝ), 1 / √2]).forwardMatrix .periodization
        (.ofFn 2 4 fun r c => r + c ^ 2) = .ok bands := by
  have h2 : (√2 : ℝ) ^ 2 = 2 := Real.sq_sqrt zero_le_two
  have htwo : (2 : ℝ) ≠ 0 := two_ne_zero
  obtain ⟨hsignal, hmatrix⟩ := haar_forward_eq_convolution h2 htwo .smooth .periodization
  exact ⟨h2, htwo, hsignal [3, 1] (by simp) rfl,
    hmatrix _ (by decide) (by decide) rfl rfl⟩

end WaveletPrecision
