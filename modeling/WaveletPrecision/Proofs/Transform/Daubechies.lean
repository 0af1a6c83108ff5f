import Mathlib.Analysis.Real.Sqrt
import Mathlib.Tactic.FieldSimp
import WaveletPrecision.Proofs.Transform.Repeated

/-
The four-tap Daubechies wavelet, by lifting and by convolution.

On a signal that is repeated, both algorithms are sums over neighbouring samples, so they
can be compared one position at a time.  A lifting step adds to a part of the signal a sum
over the other part (`wrapped_lift`), and the two parts are every other sample of the
signal (`wrapped_deinterleave`).

The steps of the scheme then compute the four taps of the filter, but the stencils look at
other positions than the window of the filter: the approximation is that of the signal
read from its second sample on, and the detail comes one place later and with its sign
changed.

`LiftingScheme.daubechies2_forward_eq_convolution` says so for every signal of even length,
down to two samples, around which every stencil and every window wraps.
-/
namespace WaveletPrecision

/-! ### Lifting steps on repeated signals -/

/-- A step on two parts of one length adds to the one part a sum over the other, if it looks ahead
by one sample at the most. -/
lemma wrapped_lift {K : Type} [CommRing K] {mode : BoundaryMode}
    (hmode : mode = .periodic ∨ mode = .periodization) {stencil : Stencil K}
    {target source : List K} (hne : source ≠ []) (hlength : target.length = source.length)
    (hshift : stencil.shift ≤ 1) (k : ℤ) :
    wrapped (stencil.lift mode (· + ·) target source) k
      = wrapped target k + ∑ j ∈ Finset.range stencil.taps.length,
          stencil.taps.getD j 0 * wrapped source (k + stencil.shift + j) := by
  have hexact : stencil.Exact target.length := fun i _ j _ =>
    Stencil.position_of_shift_le_one hshift i j
  rw [wrapped_lift_eq_weightedSum hmode _ hne hlength hexact, weightedSum_eq_sum]

/-! ### The four-tap wavelet -/

/-- The low-pass taps of the four-tap Daubechies wavelet, from square roots of three and of
two. -/
def FilterBank.daubechies2Low {K : Type} [Field K] (root3 root2 : K) : List K :=
  [(1 - root3) / (4 * root2), (3 - root3) / (4 * root2), (3 + root3) / (4 * root2),
    (1 + root3) / (4 * root2)]

lemma wrapped_analyze_four {K : Type} [CommRing K] (a b c d : K) {x : List K} {m : ℕ} (hm : 0 < m)
    (hx : x.length = 2 * m) (k : ℤ) :
    wrapped (analyze .periodization [a, b, c, d] x) k
      = a * wrapped x (2 * k + 2) + b * wrapped x (2 * k + 1) + c * wrapped x (2 * k)
        + d * wrapped x (2 * k - 1) := by
  have hposition : ∀ j : ℤ, 2 + 2 * k - j = 2 * k + (2 - j) := fun j => by ring
  rw [wrapped_analyze _ hm hx]
  simp [Finset.sum_range_succ, hposition, sub_eq_add_neg]

lemma wrapped_runSteps_daubechies2 {K : Type} [Field K] (root3 root2 : K) {mode : BoundaryMode}
    (hmode : mode = .periodic ∨ mode = .periodization) {even odd : List K} (hne : odd ≠ [])
    (hlength : even.length = odd.length) (k : ℤ) :
    let parts := (LiftingScheme.daubechies2 root3 root2).runSteps mode (even, odd)
    let low : ℤ → K := fun k => wrapped even k + root3 * wrapped odd k
    let high : ℤ → K := fun k =>
      wrapped odd k + (-(root3 - 2) / 4 * low (k - 1) + -root3 / 4 * low k)
    wrapped parts.1 k = (low k - high (k + 1)) * ((root3 - 1) / root2) ∧
      wrapped parts.2 k = high k * ((root3 + 1) / root2) := by
  intro parts low high
  -- the even part after its first step, the odd part after its step, and the even part after both
  let even₁ := Stencil.lift ⟨[root3], 0⟩ mode (· + ·) even odd
  let odd₁ := Stencil.lift ⟨[-(root3 - (2 : ℕ)) / (4 : ℕ), -root3 / (4 : ℕ)], -1⟩ mode (· + ·)
    odd even₁
  let even₂ := Stencil.lift ⟨[-((1 : ℕ) : K)], 1⟩ mode (· + ·) even₁ odd₁
  have hparts : parts = (even₂.map (· * ((root3 - (1 : ℕ)) / root2)),
      odd₁.map (· * ((root3 + (1 : ℕ)) / root2))) := rfl
  have hpos : 0 < odd.length := List.length_pos_iff.mpr hne
  have heven₁ : even₁.length = odd.length := (Stencil.length_lift ..).trans hlength
  have hodd₁ : odd₁.length = odd.length := Stencil.length_lift ..
  have hlow : ∀ k, wrapped even₁ k = low k := by
    intro k
    rw [wrapped_lift hmode hne hlength (by norm_num)]
    simp [low]
  have hhigh : ∀ k, wrapped odd₁ k = high k := by
    intro k
    rw [wrapped_lift hmode (List.length_pos_iff.mp (by omega)) heven₁.symm (by norm_num)]
    simp [Finset.sum_range_succ, hlow, high, sub_eq_add_neg]
  have hboth : ∀ k, wrapped even₂ k = low k - high (k + 1) := by
    intro k
    rw [wrapped_lift hmode (List.length_pos_iff.mp (by omega)) (heven₁.trans hodd₁.symm) le_rfl]
    simp [hlow, hhigh, sub_eq_add_neg]
  have hscale : ∀ (c : K) (x : List K), wrapped (x.map (· * c)) k = wrapped x k * c :=
    fun c x => wrapped_map (zero_mul c) x k
  rw [hparts, hscale, hscale, hboth, hhigh, Nat.cast_one]
  exact ⟨rfl, rfl⟩

section Daubechies

variable {K : Type} [Field K] [CharZero K] {root3 root2 : K} {mode : BoundaryMode}

/-- The approximation of the scheme and that of the bank, from four neighbouring samples. -/
lemma daubechies2_low_eq (h3 : root3 ^ 2 = 3) (h2 : root2 ^ 2 = 2) (a b c d : K) :
    (a + root3 * b - (d + (-(root3 - 2) / 4 * (a + root3 * b) + -root3 / 4 * (c + root3 * d))))
        * ((root3 - 1) / root2)
      = (1 - root3) / (4 * root2) * d + (3 - root3) / (4 * root2) * c
        + (3 + root3) / (4 * root2) * b + (1 + root3) / (4 * root2) * a := by
  have hroot2 : root2 ≠ 0 := by
    rintro rfl
    norm_num at h2
  field_simp
  linear_combination (a + b * (root3 + 1) + c + d * (root3 - 1)) * h3

lemma daubechies2_high_eq (h3 : root3 ^ 2 = 3) (h2 : root2 ^ 2 = 2) (a b c d : K) :
    (d + (-(root3 - 2) / 4 * (a + root3 * b) + -root3 / 4 * (c + root3 * d)))
        * ((root3 + 1) / root2)
      = -(-((1 + root3) / (4 * root2)) * d + (3 + root3) / (4 * root2) * c
        + -((3 - root3) / (4 * root2)) * b + (1 - root3) / (4 * root2) * a) := by
  have hroot2 : root2 ≠ 0 := by
    rintro rfl
    norm_num at h2
  field_simp
  linear_combination -(a + b * (root3 - 1) + c + d * (root3 + 1)) * h3

lemma wrapped_daubechies2 (h3 : root3 ^ 2 = 3) (h2 : root2 ^ 2 = 2)
    (hmode : mode = .periodic ∨ mode = .periodization) {x : List K} {m : ℕ} (hm : 0 < m)
    (hx : x.length = 2 * m) (k : ℤ) :
    let parts := (LiftingScheme.daubechies2 root3 root2).runSteps mode (deinterleave x)
    let taps := FilterBank.daubechies2Low root3 root2
    wrapped parts.1 k = wrapped (analyze .periodization taps (x.rotate 1)) k ∧
      wrapped parts.2 k
        = -wrapped (analyze .periodization (quadratureMirror taps) (x.rotate 1)) (k - 1) := by
  intro parts taps
  have hrotate : (x.rotate 1).length = 2 * m := by rw [List.length_rotate, hx]
  obtain ⟨heven, hodd⟩ := length_deinterleave x
  have hne : (deinterleave x).2 ≠ [] := List.length_pos_iff.mp (by omega)
  have hhalves : (deinterleave x).1.length = (deinterleave x).2.length := by omega
  obtain ⟨hlow, hhigh⟩ := wrapped_runSteps_daubechies2 root3 root2 hmode hne hhalves k
  have htaps : taps = [(1 - root3) / (4 * root2), (3 - root3) / (4 * root2),
      (3 + root3) / (4 * root2), (1 + root3) / (4 * root2)] := rfl
  have hmirror : quadratureMirror taps = [-((1 + root3) / (4 * root2)),
      (3 + root3) / (4 * root2), -((3 - root3) / (4 * root2)), (1 - root3) / (4 * root2)] := by
    simp [quadratureMirror, alternate, htaps]
  constructor
  · rw [hlow, htaps, wrapped_analyze_four _ _ _ _ hm hrotate]
    simp only [wrapped_deinterleave hm hx, wrapped_rotate, add_sub_cancel_right,
      show 2 * (k + 1) = 2 * k + 2 by ring, show 2 * k + 2 + 1 = 2 * k + 3 by ring,
      show 2 * k + 1 + 1 = 2 * k + 2 by ring, sub_add_cancel, Nat.cast_one]
    exact daubechies2_low_eq h3 h2 _ _ _ _
  · rw [hhigh, hmirror, wrapped_analyze_four _ _ _ _ hm hrotate]
    simp only [wrapped_deinterleave hm hx, wrapped_rotate, sub_add_cancel, Nat.cast_one,
      show 2 * (k - 1) + 2 + 1 = 2 * k + 1 by ring, show 2 * (k - 1) + 1 + 1 = 2 * k by ring]
    exact daubechies2_high_eq h3 h2 _ _ _ _

/-- **The two algorithms on the four-tap wavelet.**  On a signal of even length that is
repeated, the scheme computes the approximation of the bank for the signal that starts one
sample later, and its detail one place later and with the sign changed. -/
theorem LiftingScheme.daubechies2_forward_eq_convolution (h3 : root3 ^ 2 = 3) (h2 : root2 ^ 2 = 2)
    (hmode : mode = .periodic ∨ mode = .periodization) {x : List K} (hx : x ≠ [])
    (heven : x.length % 2 = 0) :
    ∃ la ld ca cd, (daubechies2 root3 root2).forward mode x = .ok (la, ld) ∧
      (FilterBank.ofLow (FilterBank.daubechies2Low root3 root2)).forward .periodization (x.rotate 1)
        = .ok (ca, cd) ∧
      la.length = x.length / 2 ∧ la = ca ∧ ld = (cd.rotate (x.length / 2 - 1)).map (- ·) := by
  obtain ⟨m, hm⟩ : ∃ m, x.length = 2 * m := ⟨x.length / 2, by omega⟩
  have hpos : 0 < m := by
    have := List.length_pos_iff.mpr hx
    omega
  have hrotate : (x.rotate 1).length = x.length := List.length_rotate x 1
  have hrotateNe : x.rotate 1 ≠ [] := List.length_pos_iff.mp (by omega)
  obtain ⟨hevenLength, hoddLength⟩ := length_deinterleave x
  let parts := (daubechies2 root3 root2).runSteps mode (deinterleave x)
  obtain ⟨hla, hld⟩ : parts.1.length = _ ∧ parts.2.length = _ :=
    length_runSteps mode (daubechies2 root3 root2) (deinterleave x)
  have hpositions := wrapped_daubechies2 h3 h2 hmode hpos hm
  have hband : ∀ filter : List K, (analyze .periodization filter (x.rotate 1)).length = m := by
    intro filter
    rw [length_analyze_periodization]
    omega
  refine ⟨parts.1, parts.2, _, _, forward_eq_ok mode hx, FilterBank.forward_eq_ok hrotateNe,
    by omega, ?_, ?_⟩
  · refine ext_wrapped ?_ fun k => (hpositions k).1
    rw [FilterBank.ofLow, hband]
    omega
  · refine ext_wrapped ?_ fun k => ?_
    · rw [FilterBank.ofLow, List.length_map, List.length_rotate, hband]
      omega
    -- one place earlier is the whole band but for one place later
    have hearlier : k + (x.length / 2 - 1 : ℕ) = k - 1 + m * 1 := by omega
    have hwhole := wrapped_add_mul (analyze .periodization (quadratureMirror
      (FilterBank.daubechies2Low root3 root2)) (x.rotate 1)) (k - 1) 1
    rw [hband] at hwhole
    rw [(hpositions k).2, wrapped_map neg_zero, wrapped_rotate, hearlier, FilterBank.ofLow, hwhole]

/-- Two samples, around which the stencils and the window wrap, over the real numbers. -/
theorem LiftingScheme.daubechies2_forward_eq_convolution_two :
    (√3 : ℝ) ^ 2 = 3 ∧ (√2 : ℝ) ^ 2 = 2 ∧ ∃ la ld ca cd,
      (daubechies2 (√3) (√2)).forward .periodic [1, 2] = .ok (la, ld) ∧
      (FilterBank.ofLow (FilterBank.daubechies2Low (√3) (√2))).forward .periodization [2, 1]
        = .ok (ca, cd) ∧
      la.length = 1 ∧ la = ca ∧ ld = (cd.rotate 0).map (- ·) :=
  have h3 : (√3 : ℝ) ^ 2 = 3 := Real.sq_sqrt (by norm_num)
  have h2 : (√2 : ℝ) ^ 2 = 2 := Real.sq_sqrt (by norm_num)
  ⟨h3, h2, daubechies2_forward_eq_convolution h3 h2 (Or.inl rfl) (List.cons_ne_nil 1 [2]) rfl⟩

end Daubechies

end WaveletPrecision
