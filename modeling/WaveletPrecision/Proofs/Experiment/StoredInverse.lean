import WaveletPrecision.Proofs.Experiment.TransformRun
import WaveletPrecision.Proofs.Storage.Codec
import WaveletPrecision.Proofs.Transform.Seam

/-
Nothing is lost at the seam to binary64.

The bands that a unit stores are the bands that its reconstruction has been computed from, so
whoever reads the stored bands and puts them together finds the stored reconstruction, bit for bit
(`TransformRun.StoresInverse`).  An engine that narrows them again finds the samples that it has
widened.  Between the narrowing of a signal and the widening of its reconstruction there are then
only the two transforms of the sample type (`Engine.seam_lossless`), and every error that an
experiment measures is an error of these.
-/
namespace WaveletPrecision

namespace TransformRun

variable {run : TransformRun} {before after : FileTree} {unit : WaveletEntry × InputEntry}

/-- The values that are read from the file of a result. -/
def Stored (run : TransformRun) (after : FileTree) (unit : WaveletEntry × InputEntry)
    (suffix : Suffix) (values : List Binary64) : Prop :=
  after.run (Artifact.readValues (run.resultPath unit suffix)) = (.ok values, after)

/-- The reconstruction that is stored for a unit is the inverse transform of the bands that are
stored for it, and these are the bands of the signal that was there before. -/
inductive StoresInverse (run : TransformRun) (before after : FileTree)
    (unit : WaveletEntry × InputEntry) (w : Wavelet) (mode : BoundaryMode) : Prop where
  | list {signal : Tensor Binary64} {c : Coefficients} {y : List Binary64}
      (hdim : unit.2.shape.length = 1)
      (hsignal : before.run (Artifact.readTensor (run.signalPath unit) unit.2.shape)
        = (.ok signal, before))
      (hforward : run.engine.forward w mode signal.data = .ok c)
      (hinverse : run.engine.inverse w mode c = .ok y)
      (happrox : run.Stored after unit .approx c.approx)
      (hdetail : run.Stored after unit .detail c.detail)
      (hstored : run.Stored after unit .inverse y)
  | matrix {signal : Tensor Binary64} {m : Matrix Binary64} {bands : Bands Binary64}
      {y : Matrix Binary64} (hdim : unit.2.shape.length = 2)
      (hsignal : before.run (Artifact.readTensor (run.signalPath unit) unit.2.shape)
        = (.ok signal, before))
      (hm : signal.toMatrix = .ok m)
      (hforward : run.engine.forwardMatrix w mode m = .ok bands)
      (hinverse : run.engine.inverseMatrix w mode bands = .ok y)
      (hll : run.Stored after unit .approxApprox bands.ll.toList)
      (hlh : run.Stored after unit .detailApprox bands.lh.toList)
      (hhl : run.Stored after unit .approxDetail bands.hl.toList)
      (hhh : run.Stored after unit .detailDetail bands.hh.toList)
      (hstored : run.Stored after unit .inverse y.toList)

/-- **A unit that ends well stores the inverse of what it stores.** -/
lemma storesInverse_of_runUnit {files : ℕ}
    (h : before.run (run.runUnit unit.1 unit.2) = (.ok files, after)) :
    ∃ w mode, unit.1.wavelet = .ok w ∧ unit.1.boundaryMode = .ok mode ∧
      run.StoresInverse before after unit w mode := by
  obtain ⟨w, mode, signal, results, hwavelet, hmode, hsignal, hresults, -, -, -, hread⟩ :=
    exists_results_of_runUnit h
  obtain ⟨-, hshape, -⟩ := Artifact.run_readTensor_eq_ok_iff.mp hsignal
  have hstored : ∀ result ∈ results, run.Stored after unit result.1 result.2 :=
    fun result hmem => Artifact.run_readValues_of_read (hread result hmem)
  refine ⟨w, mode, hwavelet, hmode, ?_⟩
  rw [Engine.results] at hresults
  split at hresults
  · rename_i hdim
    obtain ⟨c, hforward, hresults⟩ := bind_eq_ok_iff.mp hresults
    obtain ⟨y, hinverse, hresults⟩ := bind_eq_ok_iff.mp hresults
    cases hresults
    simp only [List.forall_mem_cons] at hstored
    obtain ⟨happrox, hdetail, hreconstruction, -⟩ := hstored
    exact .list (hshape ▸ hdim) hsignal hforward hinverse happrox hdetail hreconstruction
  · rename_i hdim
    obtain ⟨m, hm, hresults⟩ := bind_eq_ok_iff.mp hresults
    obtain ⟨bands, hforward, hresults⟩ := bind_eq_ok_iff.mp hresults
    obtain ⟨y, hinverse, hresults⟩ := bind_eq_ok_iff.mp hresults
    cases hresults
    simp only [List.forall_mem_cons] at hstored
    obtain ⟨hll, hlh, hhl, hhh, hreconstruction, -⟩ := hstored
    exact .matrix (hshape ▸ hdim) hsignal hm hforward hinverse hll hlh hhl hhh hreconstruction
  · cases hresults

end TransformRun

/-- **The seam is lossless.**  A sample of any precision that is not a not-a-number is the same
sample when it is widened and narrowed.  So of any engine, the inverse transform of a signal's
bands is the reconstruction in the sample type, widened, with nothing rounded in between, if the
bands are numbers; the bands of a reconstruction are those of the sample type, widened, if the
reconstruction has only numbers; and both hold in two dimensions.  The reconstruction that a unit
stores is the inverse transform of the bands that it stores. -/
theorem Engine.seam_lossless :
    (∀ (p : Precision) (v : p.Carrier), ¬v.isNaN → Sample.narrow (Sample.widen v) = v) ∧
    (∀ algorithm p w mode x,
      (∀ c, (of algorithm p).forward w mode x = .ok c → AllNumbers c.values) →
      ((of algorithm p).forward w mode x >>= (of algorithm p).inverse w mode)
        = (algorithm.forwardIn p.Carrier w mode (Sample.narrowAll p.Carrier x)
            >>= algorithm.inverseIn p.Carrier w mode).map Sample.widenAll) ∧
    (∀ algorithm p w mode c,
      (∀ x, (of algorithm p).inverse w mode c = .ok x → AllNumbers x) →
      ((of algorithm p).inverse w mode c >>= (of algorithm p).forward w mode)
        = (algorithm.inverseIn p.Carrier w mode (c.narrow p.Carrier)
            >>= algorithm.forwardIn p.Carrier w mode).map .ofSamples) ∧
    (∀ algorithm p w mode m,
      (∀ bands, (of algorithm p).forwardMatrix w mode m = .ok bands → AllNumbers bands.values) →
      ((of algorithm p).forwardMatrix w mode m >>= (of algorithm p).inverseMatrix w mode)
        = (algorithm.forwardMatrixIn p.Carrier w mode (m.narrow p.Carrier)
            >>= algorithm.inverseMatrixIn p.Carrier w mode).map Matrix.widen) ∧
    (∀ algorithm p w mode bands,
      (∀ m, (of algorithm p).inverseMatrix w mode bands = .ok m → AllNumbers m.toList) →
      ((of algorithm p).inverseMatrix w mode bands >>= (of algorithm p).forwardMatrix w mode)
        = (algorithm.inverseMatrixIn p.Carrier w mode (bands.narrow p.Carrier)
            >>= algorithm.forwardMatrixIn p.Carrier w mode).map Bands.widen) ∧
    ∀ (run : TransformRun) (before after : FileTree) (unit : WaveletEntry × InputEntry)
      (files : ℕ), before.run (run.runUnit unit.1 unit.2) = (.ok files, after) →
        ∃ w mode, unit.1.wavelet = .ok w ∧ unit.1.boundaryMode = .ok mode ∧
          run.StoresInverse before after unit w mode :=
  ⟨fun p _ => Sample.narrow_widen p, fun _ _ _ _ _ => forward_bind_inverse,
    fun _ _ _ _ _ => inverse_bind_forward, fun _ _ _ _ _ => forwardMatrix_bind_inverseMatrix,
    fun _ _ _ _ _ => inverseMatrix_bind_forwardMatrix,
    fun _ _ _ _ _ => TransformRun.storesInverse_of_runUnit⟩

/-- The least positive value of bfloat16, a signal that lifting transforms in bfloat16, and a unit
of the same engine that stores its results. -/
theorem Engine.seam_lossless_bfloat16 :
    let least : Precision.bfloat16.Carrier := .ofWord 1
    let engine := of .lifting .bfloat16
    let w : Wavelet := ⟨"db2", .daubechies2⟩
    let x : List Binary64 := [1.0, 0.1, 3.0]
    let run : TransformRun := ⟨engine, .ofString "in", .ofString "out"⟩
    let unit : WaveletEntry × InputEntry := (⟨"long", "db2", "periodization"⟩, ⟨"first", [4], 1.0⟩)
    ¬least.isNaN ∧ Sample.narrow (Sample.widen least) = least ∧
      (∃ c, engine.forward w .symmetric x = .ok c ∧ AllNumbers c.values) ∧
      (engine.forward w .symmetric x >>= engine.inverse w .symmetric)
        = (Algorithm.lifting.forwardIn BFloat16 w .symmetric (Sample.narrowAll BFloat16 x)
            >>= Algorithm.lifting.inverseIn BFloat16 w .symmetric).map Sample.widenAll ∧
      ∃ after w mode, TransformRun.quartetSignals.run (run.runUnit unit.1 unit.2) = (.ok 3, after) ∧
        unit.1.wavelet = .ok w ∧ unit.1.boundaryMode = .ok mode ∧
          run.StoresInverse TransformRun.quartetSignals after unit w mode := by
  intro least engine w x run unit
  obtain ⟨hnarrow, hforward, -, -, -, hstored⟩ := seam_lossless
  have hleast : ¬least.isNaN := by decide
  have hok : ∃ c, engine.forward w .symmetric x = .ok c ∧ AllNumbers c.values := by
    have hbands : (engine.forward w .symmetric x).map
        (fun c => c.values.all fun v => !v.isNaN) = .ok true := by decide +kernel
    obtain ⟨c, hc, hvalues⟩ := map_eq_ok_iff.mp hbands
    exact ⟨c, hc, by simpa [AllNumbers] using hvalues⟩
  have hnumbers : ∀ c, engine.forward w .symmetric x = .ok c → AllNumbers c.values := by
    obtain ⟨c, hc, hvalues⟩ := hok
    intro c' hc'
    rw [hc, Except.ok.injEq] at hc'
    exact hc' ▸ hvalues
  refine ⟨hleast, hnarrow .bfloat16 least hleast, hok,
    hforward .lifting .bfloat16 w .symmetric x hnumbers, ?_⟩
  have hresult : (TransformRun.quartetSignals.run (run.runUnit unit.1 unit.2)).1 = .ok 3 := by
    decide +kernel
  rcases hrun : TransformRun.quartetSignals.run (run.runUnit unit.1 unit.2) with ⟨result, after⟩
  rw [hrun] at hresult
  obtain rfl : result = .ok 3 := hresult
  obtain ⟨w, mode, hwavelet, hmode, hinverse⟩ := hstored run _ after unit 3 hrun
  exact ⟨after, w, mode, rfl, hwavelet, hmode, hinverse⟩

end WaveletPrecision
