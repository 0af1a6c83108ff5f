import WaveletPrecision.Experiment.TransformRun
import WaveletPrecision.Proofs.Matrix.Tensor
import WaveletPrecision.Proofs.Transform.Acceptance
import WaveletPrecision.Proofs.Transform.Windowed

/-
Every transform of a signal can be taken back.

The kernels of the two algorithms keep to lengths that only depend on the mode, the number of
taps and the number of samples (`FilterBank.fits`, `LiftingScheme.fits`), so what an engine has
computed from a signal that is not empty is always accepted by its inverse, although the values
have been rounded into the sample type and widened again in between (`Engine.reconstructs_of`).
The results of a signal with one or two dimensions therefore exist (`Engine.results_isOk`).
-/
namespace WaveletPrecision

/-! ### The two kernels -/

section Kernels

variable {K : Type} [Zero K] [Add K] [Sub K] [Mul K] [Neg K] [NatCast K]

/-- A filter bank keeps one number of coefficients in both bands, and reconstructs an even number
of samples. -/
lemma FilterBank.fits {bank : FilterBank K} (mode : BoundaryMode)
    (hbank : bank.high.length = bank.low.length) (heven : Even bank.low.length)
    (htaps : 2 ≤ bank.low.length) :
    Separable.Fits (coefficientCount mode bank.low.length) (coefficientCount mode bank.low.length)
      (fun n => n + n % 2) (bank.forward mode) (bank.inverse mode) := by
  have hcount : ∀ n, 1 ≤ n → 1 ≤ coefficientCount mode bank.low.length n := by
    intro n hn
    rw [coefficientCount]
    split <;> omega
  refine ⟨fun v hv => ⟨_, _, forward_eq_ok hv, length_analyze .., ?_⟩, hcount, ?_, fun n _ => ?_⟩
  · rw [length_analyze, hbank]
  · intro n hn a d ha hd
    have hpos := hcount n hn
    by_cases hmode : mode = .periodization
    · subst hmode
      have hne : a ≠ [] := List.length_pos_iff.mp (by omega)
      refine ⟨_, inverse_periodization_eq_ok hne (hd.trans ha.symm), ?_⟩
      rw [length_synthesizePeriodized hbank (hd.trans ha.symm), ha, coefficientCount, if_pos rfl]
      omega
    · have htwo := two_mul_coefficientCount hmode heven hn
      refine ⟨_, inverse_eq_ok_of_ne hmode ha hd hpos (by rw [FilterBank.size]; omega), ?_⟩
      rw [synthesizeWindowed, List.length_map, List.length_range, FilterBank.size]
      omega
  · exact Nat.le_add_right _ _

/-- A lifting scheme halves a signal, and puts the halves together to its length. -/
lemma LiftingScheme.fits [Div K] (scheme : LiftingScheme K) (mode : BoundaryMode) :
    Separable.Fits (fun n => (n + 1) / 2) (fun n => n / 2) (fun n => n) (scheme.forward mode)
      (scheme.inverse mode) := by
  refine ⟨fun v hv => ?_, fun n hn => by omega, fun n hn a d ha hd => ?_, fun n _ => le_rfl⟩
  · have hok : scheme.forward mode v = .ok _ := forward_eq_ok mode hv
    exact ⟨_, _, hok, length_forward hok⟩
  · have hhalves : Halves a d := ⟨List.length_pos_iff.mp (by omega), by omega⟩
    have hok : scheme.inverse mode a d = .ok _ := inverse_eq_ok mode hhalves
    refine ⟨_, hok, ?_⟩
    rw [length_inverse hok, ha, hd]
    omega

end Kernels

/-! ### Engines -/

section Seam

variable {T : Type} [Sample T] {A D L : Nat → Nat} {split : List T → Except Error (List T × List T)}
  {join : List T → List T → Except Error (List T)}

/-- Bands that have been widened and rounded again are accepted by the inverse kernel. -/
lemma Separable.Fits.exists_vector (h : Fits A D L split join) {x : List Binary64} (hx : x ≠ []) :
    ∃ bands y, split (Sample.narrowAll T x) = .ok bands ∧
      join (Sample.narrowAll T (Sample.widenAll bands.1))
        (Sample.narrowAll T (Sample.widenAll bands.2)) = .ok y := by
  have hlength : 1 ≤ (Sample.narrowAll T x).length := by
    rw [Sample.narrowAll, List.length_map]
    exact List.length_pos_iff.mpr hx
  obtain ⟨a, d, hsplit, ha, hd⟩ := h.split_ok _ (List.length_pos_iff.mp hlength)
  obtain ⟨y, hjoin, -⟩ := h.join_ok _ hlength (Sample.narrowAll T (Sample.widenAll a))
    (Sample.narrowAll T (Sample.widenAll d))
    (by rw [Sample.narrowAll, Sample.widenAll, List.length_map, List.length_map, ha])
    (by rw [Sample.narrowAll, Sample.widenAll, List.length_map, List.length_map, hd])
  exact ⟨(a, d), y, hsplit, hjoin⟩

/-- Four bands that have been widened and rounded again are accepted by the inverse transform. -/
lemma Separable.Fits.exists_matrix (h : Fits A D L split join) {m : Matrix Binary64}
    (hrows : 1 ≤ m.rows) (hcols : 1 ≤ m.cols) :
    ∃ bands y, forward split (m.narrow T) = .ok bands ∧
      (bands.widen.narrow T).Sized A D m.rows m.cols ∧
      inverse join (bands.widen.narrow T) = .ok y := by
  obtain ⟨bands, hforward, hsized⟩ := h.forward_ok (m.narrow T) hrows hcols
  have hsized' := (hsized.map Sample.widen).map (Sample.narrow : Binary64 → T)
  obtain ⟨y, hinverse, -⟩ := h.inverse_ok hrows hcols hsized'
  exact ⟨bands, y, hforward, hsized', hinverse⟩

end Seam

lemma Wavelet.fits_bankIn (T : Type) [Sample T] (w : Wavelet) (mode : BoundaryMode) :
    Separable.Fits (coefficientCount mode w.filterSize) (coefficientCount mode w.filterSize)
      (fun n => n + n % 2) ((w.bankIn T).forward mode) ((w.bankIn T).inverse mode) := by
  obtain ⟨heven, htaps⟩ := w.even_filterSize
  have hlow := w.size_bankIn T
  rw [← hlow]
  exact FilterBank.fits mode (by rw [hlow, w.length_high_bankIn T]) (by rwa [hlow]) (by rwa [hlow])

namespace Engine

variable {engine : Engine} {w : Wavelet} {mode : BoundaryMode}

/-- What an engine computes from a signal that is not empty is accepted by its inverse. -/
structure Reconstructs (engine : Engine) (w : Wavelet) (mode : BoundaryMode) : Prop where
  vector : ∀ x, x ≠ [] → ∃ bands y,
    engine.forward w mode x = .ok bands ∧ engine.inverse w mode bands = .ok y
  matrix : ∀ m, 1 ≤ m.rows → 1 ≤ m.cols → ∃ bands y,
    engine.forwardMatrix w mode m = .ok bands ∧ engine.inverseMatrix w mode bands = .ok y

lemma reconstructs_convolution (T : Type) [Sample T] (label : String) (w : Wavelet)
    (mode : BoundaryMode) : (convolution T label).Reconstructs w mode := by
  have hfits := w.fits_bankIn T mode
  constructor
  · intro x hx
    obtain ⟨bands, y, hforward, hinverse⟩ := hfits.exists_vector hx
    exact ⟨_, _, bind_eq_ok_iff.mpr ⟨bands, hforward, rfl⟩, bind_eq_ok_iff.mpr ⟨y, hinverse, rfl⟩⟩
  · intro m hrows hcols
    obtain ⟨bands, y, hforward, hsized, hinverse⟩ := hfits.exists_matrix hrows hcols
    have hcount := hfits.one_le_approx m.rows hrows
    rw [← FilterBank.inverseMatrix_of_uniform (hsized.uniform (by omega))] at hinverse
    exact ⟨_, _, bind_eq_ok_iff.mpr ⟨bands, hforward, rfl⟩, bind_eq_ok_iff.mpr ⟨y, hinverse, rfl⟩⟩

lemma exists_forwardMatrix_convolution (T : Type) [Sample T] (label : String) (w : Wavelet)
    (mode : BoundaryMode) {m : Matrix Binary64} (hrows : 1 ≤ m.rows) (hcols : 1 ≤ m.cols) :
    ∃ bands, (convolution T label).forwardMatrix w mode m = .ok bands ∧
      bands.Sized (coefficientCount mode w.filterSize) (coefficientCount mode w.filterSize)
        m.rows m.cols := by
  obtain ⟨bands, hforward, hsized⟩ := (w.fits_bankIn T mode).forward_ok (m.narrow T) hrows hcols
  exact ⟨bands.widen, bind_eq_ok_iff.mpr ⟨bands, hforward, rfl⟩, hsized.map Sample.widen⟩

lemma reconstructs_lifting (T : Type) [Sample T] (label : String) {family : LiftingFamily}
    (h : w.lifting? = some family) (mode : BoundaryMode) :
    (lifting T label).Reconstructs w mode := by
  have hscheme : LiftingScheme.ofWavelet w = .ok (LiftingScheme.ofFamily family) := by
    rw [LiftingScheme.ofWavelet, h]
  have hfits := ((LiftingScheme.ofFamily family).map (Sample.narrow : Binary64 → T)).fits mode
  constructor
  · intro x hx
    obtain ⟨bands, y, hforward, hinverse⟩ := hfits.exists_vector hx
    refine ⟨.ofSamples bands, Sample.widenAll y, ?_, ?_⟩
    · exact bind_eq_ok_iff.mpr ⟨_, hscheme, bind_eq_ok_iff.mpr ⟨bands, hforward, rfl⟩⟩
    · exact bind_eq_ok_iff.mpr ⟨_, hscheme, bind_eq_ok_iff.mpr ⟨y, hinverse, rfl⟩⟩
  · intro m hrows hcols
    obtain ⟨bands, y, hforward, -, hinverse⟩ := hfits.exists_matrix hrows hcols
    refine ⟨bands.widen, y.widen, ?_, ?_⟩
    · exact bind_eq_ok_iff.mpr ⟨_, hscheme, bind_eq_ok_iff.mpr ⟨bands, hforward, rfl⟩⟩
    · exact bind_eq_ok_iff.mpr ⟨_, hscheme, bind_eq_ok_iff.mpr ⟨y, hinverse, rfl⟩⟩

/-- **Every transform can be taken back**, in every precision and mode, if there is a lifting
scheme where one is asked for. -/
lemma reconstructs_of {algorithm : Algorithm} (precision : Precision) (mode : BoundaryMode)
    (h : algorithm = .lifting → ∃ family, w.lifting? = some family) :
    (Engine.of algorithm precision).Reconstructs w mode := by
  cases algorithm with
  | convolution => exact reconstructs_convolution _ _ w mode
  | lifting =>
    obtain ⟨family, hfamily⟩ := h rfl
    exact reconstructs_lifting _ _ hfamily mode

/-- **The results of a signal** with one or two dimensions, none of them zero, exist, if a word can
count its samples. -/
lemma results_isOk (h : engine.Reconstructs w mode) {signal : Tensor Binary64}
    (hshape : signal.shape.length = 1 ∨ signal.shape.length = 2)
    (hpos : ∀ n ∈ signal.shape, 1 ≤ n) (hcount : signal.shape.prod < wordCount) :
    ∃ results, engine.results w mode signal = .ok results := by
  obtain ⟨shape, data, hdata⟩ := signal
  rcases hshape with hdim | hdim
  · obtain ⟨n, rfl⟩ := List.length_eq_one_iff.mp hdim
    have hne : data ≠ [] := by
      rw [← List.length_pos_iff, hdata, elementCount_singleton]
      exact hpos n (by simp)
    obtain ⟨bands, y, hforward, hinverse⟩ := h.vector data hne
    exact ⟨_, bind_eq_ok_iff.mpr ⟨bands, hforward, bind_eq_ok_iff.mpr ⟨y, hinverse, rfl⟩⟩⟩
  · obtain ⟨rows, cols, rfl⟩ := List.length_eq_two.mp hdim
    simp only [List.forall_mem_cons] at hpos
    have hlength := Tensor.length_data_of_shape_eq (t := ⟨[rows, cols], data, hdata⟩) rfl
      (by simpa using hcount)
    have hmatrix := Tensor.toMatrix_of_shape_eq (t := ⟨[rows, cols], data, hdata⟩) rfl hlength
    obtain ⟨bands, y, hforward, hinverse⟩ := h.matrix
      ⟨rows, cols, data.toArray, by simpa using hlength⟩ hpos.1 hpos.2.1
    exact ⟨_, bind_eq_ok_iff.mpr ⟨_, hmatrix, bind_eq_ok_iff.mpr ⟨bands, hforward,
      bind_eq_ok_iff.mpr ⟨y, hinverse, rfl⟩⟩⟩⟩

end Engine

end WaveletPrecision
