import WaveletPrecision.Proofs.Matrix.TensorProduct
import WaveletPrecision.Proofs.Transform.Lifting
import WaveletPrecision.Proofs.Transform.Periodized
import WaveletPrecision.Transform.Engine

/-
Both transforms are linear, in every boundary mode.

A sample beyond the ends of a signal is read from the signal without regard to what the samples
are: it is one of them, with or without its sign changed, a point on a line through two of them,
or nothing (`Reading.value_mem_linearForms`).  So the coefficients of a filter bank are linear
forms of the samples (`LinearForms.analyze`), and a step of a lifting scheme, which adds to one
part a sum over the other, or multiplies both, makes linear forms from linear forms
(`LiftingStep.linear_run`).

`Separable.bands_eq_tensor` says what follows for the four bands of a matrix: each of them is
the tensor product that its name says, for any filters, any steps and any boundary mode.
-/
namespace WaveletPrecision

open Finset

variable {K : Type} [CommRing K] {m n : ℕ}

/-- The sum that a filter computes over linear forms. -/
lemma weightedSum_mem_linearForms (taps : List K) {meets : (Fin n → K) → ℕ → K}
    (h : ∀ j, (fun v => meets v j) ∈ linearForms K n) :
    (fun v => weightedSum taps (meets v)) ∈ linearForms K n := by
  have hsum : (fun v => weightedSum taps (meets v))
      = ∑ j ∈ range taps.length, taps.getD j 0 • fun v => meets v j := by
    ext v
    simp [weightedSum_eq_sum]
  rw [hsum]
  exact Submodule.sum_mem _ fun j _ => Submodule.smul_mem _ _ (h j)

/-! ### Lists of linear forms -/

namespace LinearForms

variable {l : (Fin n → K) → List K}

lemma map_mul (h : LinearForms m l) (c : K) : LinearForms m fun v => (l v).map (· * c) := by
  refine ⟨fun v => by rw [List.length_map, h.length_eq], fun i => ?_⟩
  have hmul : (fun v => ((l v).map (· * c)).getD i 0) = c • fun v => (l v).getD i 0 := by
    ext v
    have hmap := List.getD_map (l := l v) (d := 0) (n := i) (· * c)
    rw [zero_mul] at hmap
    rw [hmap, Pi.smul_apply, smul_eq_mul, mul_comm]
  rw [hmul]
  exact Submodule.smul_mem _ _ (h.getD_mem i)

lemma padEven (h : LinearForms m l) :
    LinearForms (2 * ((m + 1) / 2)) fun v => WaveletPrecision.padEven (l v) := by
  refine of_lt (fun v => by rw [length_padEven, h.length_eq]) fun i hi => ?_
  have hsample : (fun v => (WaveletPrecision.padEven (l v)).getD i 0)
      = fun v => (l v).getD (min i (m - 1)) 0 := by
    ext v
    rw [getD_padEven (by rwa [length_padEven, h.length_eq]), h.length_eq]
  rw [hsample]
  exact h.getD_mem _

lemma deinterleave (h : LinearForms m l) :
    LinearForms ((m + 1) / 2) (fun v => (WaveletPrecision.deinterleave (l v)).1) ∧
      LinearForms (m / 2) fun v => (WaveletPrecision.deinterleave (l v)).2 := by
  constructor
  · refine ⟨fun v => by rw [(length_deinterleave _).1, h.length_eq], fun i => ?_⟩
    simp only [(getD_deinterleave _ i).1]
    exact h.getD_mem _
  · refine ⟨fun v => by rw [(length_deinterleave _).2, h.length_eq], fun i => ?_⟩
    simp only [(getD_deinterleave _ i).2]
    exact h.getD_mem _

end LinearForms

/-- Both parts of a signal are lists of linear forms. -/
def LinearParts (p q : ℕ) (parts : (Fin n → K) → List K × List K) : Prop :=
  LinearForms p (fun v => (parts v).1) ∧ LinearForms q fun v => (parts v).2

/-! ### Samples beyond the ends -/

section Modes

/- The only use of a number as an element of the ring is the factor of an extrapolation, and no
law is asked of it: the second way to read a number stands for any map of the numbers into the
ring, beside the one that the ring comes with. -/
variable [NatCast K] (mode : BoundaryMode)

set_option linter.overlappingInstances false in
/-- What a reading finds in a list of linear forms is a linear form. -/
lemma Reading.value_mem_linearForms (reading : Reading m) {x : (Fin n → K) → Fin m → K}
    (hx : ∀ i, (fun v => x v i) ∈ linearForms K n) :
    (fun v => reading.value (x v)) ∈ linearForms K n := by
  cases reading with
  | zero => exact Submodule.zero_mem _
  | sample i => exact hx i
  | negated i => exact Submodule.neg_mem _ (hx i)
  | line edge inner steps =>
    have hline : (fun v => (x v edge - x v inner) * (steps : K) + x v edge)
        = (steps : K) • ((fun v => x v edge) - fun v => x v inner) + fun v => x v edge := by
      ext v
      simp [mul_comm]
    exact hline ▸ Submodule.add_mem _
      (Submodule.smul_mem _ _ (Submodule.sub_mem _ (hx edge) (hx inner))) (hx edge)

namespace LinearForms

variable {l : (Fin n → K) → List K}

set_option linter.overlappingInstances false in
lemma extend_mem (h : LinearForms m l) (k : ℤ) :
    (fun v => extend mode (l v).toArray k) ∈ linearForms K n := by
  rcases Nat.eq_zero_or_pos m with rfl | hm
  · have hempty : (fun v => extend mode (l v).toArray k) = 0 := by
      ext v
      rw [List.eq_nil_of_length_eq_zero (h.length_eq v)]
      rfl
    rw [hempty]
    exact Submodule.zero_mem _
  · simp only [extend_eq_value mode hm (h.length_eq _)]
    exact Reading.value_mem_linearForms _ fun i => h.getD_mem i

set_option linter.overlappingInstances false in
/-- **The coefficients of a band.** -/
lemma analyze (h : LinearForms m l) (filter : List K) :
    LinearForms (coefficientCount mode filter.length m)
      fun v => WaveletPrecision.analyze mode filter (l v) := by
  refine of_lt (fun v => by rw [length_analyze, h.length_eq]) fun o ho => ?_
  have hcoefficient : (fun v => (WaveletPrecision.analyze mode filter (l v)).getD o 0)
      = fun v => weightedSum filter fun i =>
        extend mode (if mode = .periodization then WaveletPrecision.padEven (l v) else l v).toArray
          (windowStart mode filter.length o - i) := by
    ext v
    exact getD_analyze (by rwa [h.length_eq])
  rw [hcoefficient]
  refine weightedSum_mem_linearForms filter fun i => ?_
  by_cases hmode : mode = .periodization
  · simp only [if_pos hmode]
    exact h.padEven.extend_mem mode _
  · simp only [if_neg hmode]
    exact h.extend_mem mode _

/-! ### Lifting steps -/

set_option linter.overlappingInstances false in
/-- A part with what a stencil computes from the other part added. -/
lemma lift {p q : ℕ} {target source : (Fin n → K) → List K} (htarget : LinearForms p target)
    (hsource : LinearForms q source) (stencil : Stencil K) :
    LinearForms p fun v => stencil.lift mode (· + ·) (target v) (source v) := by
  refine of_lt (fun v => by rw [Stencil.length_lift, htarget.length_eq]) fun i hi => ?_
  have hsum : (fun v => (stencil.lift mode (· + ·) (target v) (source v)).getD i 0)
      = (fun v => (target v).getD i 0) + fun v => weightedSum stencil.taps fun j =>
        extend mode (source v).toArray (stencil.position i j) := by
    ext v
    have hi' : i < (target v).length := by rwa [htarget.length_eq]
    rw [Pi.add_apply, List.getD_eq_getElem _ _ hi', List.getD_eq_getElem _ _ (by simpa using hi')]
    simp [Stencil.lift, Stencil.apply]
  rw [hsum]
  exact Submodule.add_mem _ (htarget.getD_mem i)
    (weightedSum_mem_linearForms _ fun j => hsource.extend_mem mode _)

end LinearForms

set_option linter.overlappingInstances false in
/-- A step of a lifting scheme makes linear forms from linear forms. -/
lemma LiftingStep.linear_run (step : LiftingStep K) {p q : ℕ}
    {parts : (Fin n → K) → List K × List K} (h : LinearParts p q parts) :
    LinearParts p q fun v => step.run mode (parts v) := by
  obtain ⟨heven, hodd⟩ := h
  cases step with
  | predict stencil => exact ⟨heven, hodd.lift mode heven stencil⟩
  | update stencil => exact ⟨heven.lift mode hodd stencil, hodd⟩
  | scale even odd => exact ⟨heven.map_mul even, hodd.map_mul odd⟩

set_option linter.overlappingInstances false in
/-- **The parts after all steps** of a lifting scheme. -/
lemma LiftingScheme.linear_runSteps (scheme : LiftingScheme K) {p q : ℕ}
    {parts : (Fin n → K) → List K × List K} (h : LinearParts p q parts) :
    LinearParts p q fun v => scheme.runSteps mode (parts v) := by
  obtain ⟨steps⟩ := scheme
  induction steps generalizing parts with
  | nil => exact h
  | cons step steps ih => exact ih (step.linear_run mode h)

/-! ### The two kernels -/

set_option linter.overlappingInstances false in
lemma FilterBank.linear_forward (bank : FilterBank K) :
    Separable.Linear (coefficientCount mode bank.low.length)
      (coefficientCount mode bank.high.length) (bank.forward mode) := by
  intro n hn
  refine ⟨_, _, LinearForms.ofFn.analyze mode bank.low, LinearForms.ofFn.analyze mode bank.high,
    fun v => forward_eq_ok ?_⟩
  exact List.length_pos_iff.mp (by rwa [List.length_ofFn])

set_option linter.overlappingInstances false in
lemma LiftingScheme.linear_forward (scheme : LiftingScheme K) :
    Separable.Linear (fun n => (n + 1) / 2) (fun n => n / 2) (scheme.forward mode) := by
  intro n hn
  have hsignal : LinearForms n (List.ofFn : (Fin n → K) → List K) := LinearForms.ofFn
  obtain ⟨heven, hodd⟩ := scheme.linear_runSteps mode hsignal.deinterleave
  refine ⟨_, _, heven, hodd, fun v => forward_eq_ok mode ?_⟩
  exact List.length_pos_iff.mp (by rwa [List.length_ofFn])

/-! ### The bands of a matrix -/

lemma coefficientCount_ne_zero {F : ℕ} (hF : 0 < F) (hn : 2 ≤ n) :
    coefficientCount mode F n ≠ 0 := by
  rw [coefficientCount]
  split <;> omega

set_option linter.overlappingInstances false in
/-- **The four bands of a matrix are the products that their names say**, for both kernels, and
the transform of the transposed matrix exchanges rows with columns in the bands and in their
names.  A filter without taps has no coefficient for two samples, and its band of no rows has no
columns either; there and for a single row or column the entries are exchanged but not the
shapes. -/
theorem Separable.bands_eq_tensor (x : Matrix K) (hrows : 1 ≤ x.rows) (hcols : 1 ≤ x.cols) :
    (∀ bank : FilterBank K, ∃ bands bands', bank.forwardMatrix mode x = .ok bands ∧
      bank.forwardMatrix mode x.transpose = .ok bands' ∧
      TensorBands (bank.forward mode) x bands ∧ bands'.Mirrors bands ∧
      (2 ≤ x.rows → 2 ≤ x.cols → bank.low ≠ [] → bank.high ≠ [] → bands' = bands.transpose)) ∧
    ∀ scheme : LiftingScheme K, ∃ bands bands', scheme.forwardMatrix mode x = .ok bands ∧
      scheme.forwardMatrix mode x.transpose = .ok bands' ∧
      TensorBands (scheme.forward mode) x bands ∧ bands'.Mirrors bands ∧
      (2 ≤ x.rows → 2 ≤ x.cols → bands' = bands.transpose) := by
  constructor
  · intro bank
    obtain ⟨bands, bands', hx, hxt, htensor, hmirrors, htranspose⟩ :=
      (bank.linear_forward mode).exists_bands x hrows hcols
    refine ⟨bands, bands', hx, hxt, htensor, hmirrors, fun hrows₂ hcols₂ hlow hhigh => ?_⟩
    have hlong : ∀ n ∈ [x.rows, x.cols], 2 ≤ n := by simp [hrows₂, hcols₂]
    exact htranspose fun n hn =>
      ⟨coefficientCount_ne_zero mode (List.length_pos_iff.mpr hlow) (hlong n hn),
        coefficientCount_ne_zero mode (List.length_pos_iff.mpr hhigh) (hlong n hn)⟩
  · intro scheme
    obtain ⟨bands, bands', hx, hxt, htensor, hmirrors, htranspose⟩ :=
      (scheme.linear_forward mode).exists_bands x hrows hcols
    refine ⟨bands, bands', hx, hxt, htensor, hmirrors, fun hrows₂ hcols₂ => ?_⟩
    have hlong : ∀ n ∈ [x.rows, x.cols], 2 ≤ n := by simp [hrows₂, hcols₂]
    refine htranspose fun n hn => ?_
    have := hlong n hn
    omega

end Modes

/-- A matrix with two rows and three columns, continued along straight lines: a bank with filters
of two lengths, and a scheme that predicts, updates and scales. -/
theorem Separable.bands_eq_tensor_lines :
    let x : Matrix ℤ := .ofFn 2 3 fun r c => 3 * r + c
    let bank : FilterBank ℤ := ⟨[1, 2, 1], [1, -1]⟩
    let scheme : LiftingScheme ℤ := ⟨[.predict ⟨[-1, -1], 0⟩, .update ⟨[1, 1], -1⟩, .scale 2 3]⟩
    1 ≤ x.rows ∧ 1 ≤ x.cols ∧
      (∃ bands, bank.forwardMatrix .smooth x = .ok bands ∧
        bank.forwardMatrix .smooth x.transpose = .ok bands.transpose ∧
        TensorBands (bank.forward .smooth) x bands) ∧
      ∃ bands, scheme.forwardMatrix .smooth x = .ok bands ∧
        scheme.forwardMatrix .smooth x.transpose = .ok bands.transpose ∧
        TensorBands (scheme.forward .smooth) x bands := by
  intro x bank scheme
  have hrows : 1 ≤ x.rows := by decide
  have hcols : 1 ≤ x.cols := by decide
  obtain ⟨hbank, hscheme⟩ := bands_eq_tensor .smooth x hrows hcols
  refine ⟨hrows, hcols, ?_, ?_⟩
  · obtain ⟨bands, bands', hx, hxt, htensor, -, htranspose⟩ := hbank bank
    rw [htranspose (by decide) (by decide) (by decide) (by decide)] at hxt
    exact ⟨bands, hx, hxt, htensor⟩
  · obtain ⟨bands, bands', hx, hxt, htensor, -, htranspose⟩ := hscheme scheme
    rw [htranspose (by decide) (by decide)] at hxt
    exact ⟨bands, hx, hxt, htensor⟩

end WaveletPrecision
