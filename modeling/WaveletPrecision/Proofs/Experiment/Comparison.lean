import WaveletPrecision.Experiment.Comparison
import WaveletPrecision.Proofs.Experiment.TransformRun
import WaveletPrecision.Proofs.Transform.Lengths

/-
What a comparison finds in the results of two runs.

A comparison reads each kind of result with the number of values that halving the signal
leaves: half of the samples, rounded up, for the approximation, half of them, rounded down,
for the detail, and all of them for the reconstruction.  The lifting transform gives these
numbers of values.  The filter bank gives them only for some filters, boundary modes and
numbers of samples (`Algorithm.Comparable`); all its other results are there, but cannot be
read.

* `run_compareUnit` is the outcome of a unit in terms of what reading the two files gives;
* `Engine.Yields.length_eq_iff` compares the number of values of a result with the expected
  one;
* `TransformRun.compareUnit_runUnit` puts the stages together: which results of a unit can be
  read, and which outcomes two runs of it have.
-/
namespace WaveletPrecision

/-! ### One unit of a comparison -/

/-- One side of a unit: the tensor in a file of a tree, or the outcome if it cannot be read. -/
def FileTree.side (tree : FileTree) (path : Path) (shape : List Nat) :
    Except Outcome (Tensor Binary64) :=
  (tree.run (Artifact.readTensor path shape)).1.mapError (.ofError path)

/-- The outcome of a unit with the given two sides. -/
def Outcome.ofSides : Except Outcome (Tensor Binary64) → Except Outcome (Tensor Binary64) → Outcome
  | .ok left, .ok right => ofTensors left right
  | .ok _, .error outcome => outcome
  | .error outcome, _ => outcome

lemma run_loadSide (tree : FileTree) (root : Path) (input wavelet : String) (suffix : Suffix)
    (shape : List Nat) :
    (loadSide (M := StateM FileTree) root input wavelet suffix shape).run.run tree
      = pure (tree.side (Artifact.path root input wavelet suffix) shape, tree) := by
  have hread : ∀ path,
      (ExceptT.run (m := StateM FileTree) (Artifact.readTensor path shape)).run tree
        = pure ((tree.run (Artifact.readTensor path shape)).1, tree) := by
    intro path
    have hkept : (tree.run (Artifact.readTensor path shape)).2 = tree := by
      rw [Artifact.run_readTensor]
    exact Prod.ext rfl hkept
  rw [loadSide, ExceptT.run_mk, StateT.run_bind, hread, pure_bind, FileTree.side]
  cases (tree.run (Artifact.readTensor (Artifact.path root input wavelet suffix) shape)).1 <;> rfl

/-- **A unit is compared** by what reading its two sides gives, and leaves the tree as it is. -/
lemma run_compareUnit (tree : FileTree) (pair : ComparisonPair) (input wavelet : String)
    (suffix : Suffix) (shape : List Nat) :
    (compareUnit (M := StateM FileTree) pair input wavelet suffix shape).run tree
      = pure (.ofSides (tree.side (Artifact.path pair.compared input wavelet suffix) shape)
          (tree.side (Artifact.path pair.reference input wavelet suffix) shape), tree) := by
  rw [compareUnit]
  simp only [ExceptT.run_bind, StateT.run_bind, run_loadSide, pure_bind]
  cases tree.side (Artifact.path pair.compared input wavelet suffix) shape with
  | error outcome => rfl
  | ok left =>
    simp only [StateT.run_bind, run_loadSide, pure_bind]
    cases tree.side (Artifact.path pair.reference input wavelet suffix) shape <;> rfl

/-! ### Stored values as a side -/

variable {tree : FileTree} {path : Path} {values : List Binary64} {shape : List Nat}

lemma exists_readTensor_iff (h : tree.read path = .ok (Artifact.encode values)) :
    (∃ t, tree.run (Artifact.readTensor path shape) = (.ok t, tree))
      ↔ values.length = elementCount shape := by
  simp only [Artifact.run_readTensor_of_read h, Prod.mk.injEq, and_true]
  exact Tensor.exists_ofData_iff

lemma side_of_length_eq (h : tree.read path = .ok (Artifact.encode values))
    (hlength : values.length = elementCount shape) :
    tree.side path shape = .ok ⟨shape, values, hlength⟩ := by
  rw [FileTree.side, Artifact.run_readTensor_of_read h, Tensor.ofData_of_length_eq hlength]
  rfl

lemma side_of_length_ne (h : tree.read path = .ok (Artifact.encode values))
    (hlength : values.length ≠ elementCount shape) :
    tree.side path shape = .error (.failed (Error.shapeMismatch shape values.length).message) := by
  rw [FileTree.side, Artifact.run_readTensor_of_read h, Tensor.ofData_of_length_ne hlength]
  rfl

/-- Two files with as many values as the shape has room for are compared value by value. -/
lemma ofSides_of_length_eq {path' : Path} {values' : List Binary64}
    (h : tree.read path = .ok (Artifact.encode values)) (hlength : values.length = elementCount shape)
    (h' : tree.read path' = .ok (Artifact.encode values'))
    (hlength' : values'.length = elementCount shape) :
    Outcome.ofSides (tree.side path shape) (tree.side path' shape)
      = .compared (.between values values') := by
  rw [side_of_length_eq h hlength, side_of_length_eq h' hlength']
  simp [Outcome.ofSides, Outcome.ofTensors, ErrorStats.betweenTensors]

/-- **Two files of values** are compared if the shape has room for the values of both, and fail
otherwise. -/
lemma ofSides_of_read {path' : Path} {values' : List Binary64}
    (h : tree.read path = .ok (Artifact.encode values))
    (h' : tree.read path' = .ok (Artifact.encode values')) :
    ((∃ stats, Outcome.ofSides (tree.side path shape) (tree.side path' shape) = .compared stats)
        ↔ values.length = elementCount shape ∧ values'.length = elementCount shape) ∧
      (¬(values.length = elementCount shape ∧ values'.length = elementCount shape) →
        ∃ message, Outcome.ofSides (tree.side path shape) (tree.side path' shape)
          = .failed message) := by
  by_cases hlength : values.length = elementCount shape
  · by_cases hlength' : values'.length = elementCount shape
    · rw [ofSides_of_length_eq h hlength h' hlength']
      simp [hlength, hlength']
    · rw [side_of_length_eq h hlength, side_of_length_ne h' hlength']
      simp [hlength', Outcome.ofSides]
  · rw [side_of_length_ne h hlength]
    simp [hlength, Outcome.ofSides]

/-! ### How many values are expected -/

/-- The kinds of results that a comparison can read, for filters of so many taps and a signal of
`n` samples. -/
def Algorithm.Comparable (algorithm : Algorithm) (mode : BoundaryMode) (taps n : Nat)
    (suffix : Suffix) : Prop :=
  match algorithm, suffix with
  | .lifting, _ => True
  | .convolution, .approx => taps = 2 ∨ mode = .periodization
  | .convolution, .detail => n % 2 = 0 ∧ (taps = 2 ∨ mode = .periodization)
  | .convolution, .inverse => n % 2 = 0
  | .convolution, _ => False

/-- **The number of values of a result** is the expected one exactly for the kinds that can be
compared. -/
lemma Engine.Yields.length_eq_iff {algorithm : Algorithm} {precision : Precision} {w : Wavelet}
    {mode : BoundaryMode} {signal : Tensor Binary64} {n : Nat} {suffix : Suffix}
    {values : List Binary64}
    (h : (Engine.of algorithm precision).Yields w mode signal suffix values)
    (hshape : signal.shape = [n]) (hsuffix : (suffix, shape) ∈ expectedShapes n) :
    values.length = elementCount shape ↔ algorithm.Comparable mode w.filterSize n suffix := by
  have hn : signal.data.length = n := by
    rw [signal.length_eq, hshape, elementCount_singleton]
  obtain ⟨heven, htaps⟩ := w.even_filterSize
  obtain ⟨bands, hforward, hkind⟩ := h.exists_bands (congrArg List.length hshape)
  cases algorithm with
  | convolution =>
    obtain ⟨happrox, hdetail⟩ := length_forward_convolution hforward
    rw [hn] at happrox hdetail
    rcases hkind with ⟨rfl, rfl⟩ | ⟨rfl, rfl⟩ | ⟨rfl, hinverse⟩
    · obtain rfl : shape = [(n + 1) / 2] := by simpa [expectedShapes] using hsuffix
      rw [happrox, elementCount_singleton]
      exact coefficientCount_eq_half_up_iff heven htaps
    · obtain rfl : shape = [n / 2] := by simpa [expectedShapes] using hsuffix
      rw [hdetail, elementCount_singleton]
      exact coefficientCount_eq_half_down_iff heven htaps
    · obtain rfl : shape = [n] := by simpa [expectedShapes] using hsuffix
      have hlength := length_inverse_convolution hinverse
      rw [happrox] at hlength
      rw [elementCount_singleton]
      exact reconstructionLength_coefficientCount_iff heven htaps hlength
  | lifting =>
    obtain ⟨happrox, hdetail⟩ := length_forward_lifting hforward
    rw [hn] at happrox hdetail
    -- both sides hold for every kind of result
    refine iff_of_true ?_ trivial
    rcases hkind with ⟨rfl, rfl⟩ | ⟨rfl, rfl⟩ | ⟨rfl, hinverse⟩
    · obtain rfl : shape = [(n + 1) / 2] := by simpa [expectedShapes] using hsuffix
      rw [happrox, elementCount_singleton]
    · obtain rfl : shape = [n / 2] := by simpa [expectedShapes] using hsuffix
      rw [hdetail, elementCount_singleton]
    · obtain rfl : shape = [n] := by simpa [expectedShapes] using hsuffix
      rw [length_inverse_lifting hinverse, happrox, hdetail, elementCount_singleton]
      omega

/-! ### Results of two runs -/

/-- The results of a unit for a signal with one dimension, as a comparison reads them. -/
lemma TransformRun.HoldsResults.exists_read {run : TransformRun} {algorithm : Algorithm}
    {precision : Precision} (hengine : run.engine = .of algorithm precision) {before : FileTree}
    {wavelet : WaveletEntry} {input : InputEntry} {n : Nat} (hshape : input.shape = [n])
    {w : Wavelet} (hw : wavelet.wavelet = .ok w) {mode : BoundaryMode}
    (hmode : wavelet.boundaryMode = .ok mode)
    (h : run.HoldsResults before tree (wavelet, input)) {suffix : Suffix}
    (hsuffix : (suffix, shape) ∈ expectedShapes n) :
    ∃ values, tree.read (run.resultPath (wavelet, input) suffix) = .ok (Artifact.encode values) ∧
      (values.length = elementCount shape ↔ algorithm.Comparable mode w.filterSize n suffix) := by
  obtain ⟨w', mode', signal, hw', hmode', hsignal, hresults⟩ := h
  cases hw.symm.trans hw'
  cases hmode.symm.trans hmode'
  obtain ⟨-, hsignalShape, -⟩ := Artifact.run_readTensor_eq_ok_iff.mp hsignal
  have hkind : suffix ∈ input.suffixes := by
    rw [InputEntry.suffixes, hshape]
    exact List.mem_map_of_mem (f := Prod.fst) hsuffix
  obtain ⟨values, hyields, hread⟩ := hresults suffix hkind
  rw [hengine] at hyields
  exact ⟨values, hread, hyields.length_eq_iff (hsignalShape.trans hshape) hsuffix⟩

/-- **What a comparison finds in the results of two runs.**  Let a run, of one of the known
algorithms at one of the precisions, have done the unit of a wavelet and an input of `n`
samples, and let a tree have the results that it has left.  A result can be read with the
shape that the comparison expects exactly if it is comparable.  If the tree also has the
results of another such run of the unit, then the unit is compared exactly if the result is
comparable for both algorithms; otherwise it fails, and it is never missing; and comparing
leaves the tree as it is. -/
theorem TransformRun.compareUnit_runUnit {run : TransformRun} {algorithm : Algorithm}
    {precision : Precision} (hengine : run.engine = .of algorithm precision)
    {wavelet : WaveletEntry} {input : InputEntry} {n : Nat} (hshape : input.shape = [n])
    {w : Wavelet} (hw : wavelet.wavelet = .ok w)
    {mode : BoundaryMode} (hmode : wavelet.boundaryMode = .ok mode)
    {before after tree : FileTree} {files : Nat}
    (hrun : before.run (run.runUnit wavelet input) = (.ok files, after))
    (hkept : ∀ suffix ∈ input.suffixes,
      tree.read (run.resultPath (wavelet, input) suffix)
        = after.read (run.resultPath (wavelet, input) suffix))
    {suffix : Suffix} {shape : List Nat} (hsuffix : (suffix, shape) ∈ expectedShapes n) :
    ((∃ t, tree.run (Artifact.readTensor (run.resultPath (wavelet, input) suffix) shape)
          = (.ok t, tree))
        ↔ algorithm.Comparable mode w.filterSize n suffix) ∧
      ∀ {run' : TransformRun} {algorithm' : Algorithm} {precision' : Precision}
        {before' after' : FileTree} {files' : Nat},
        run'.engine = .of algorithm' precision' →
        before'.run (run'.runUnit wavelet input) = (.ok files', after') →
        (∀ suffix ∈ input.suffixes,
          tree.read (run'.resultPath (wavelet, input) suffix)
            = after'.read (run'.resultPath (wavelet, input) suffix)) →
        ∃ outcome : Outcome,
          (compareUnit (M := StateM FileTree) ⟨run.output, run'.output⟩ input.name wavelet.name
            suffix shape).run tree = pure (outcome, tree) ∧
          ((∃ stats, outcome = .compared stats)
            ↔ algorithm.Comparable mode w.filterSize n suffix
              ∧ algorithm'.Comparable mode w.filterSize n suffix) ∧
          (¬(algorithm.Comparable mode w.filterSize n suffix
              ∧ algorithm'.Comparable mode w.filterSize n suffix) →
            ∃ message, outcome = .failed message) := by
  have hunit : _ ∧ run.HoldsResults before after (wavelet, input) ∧ _ := runUnit_eq_ok hrun
  have hholds : run.HoldsResults before tree (wavelet, input) :=
    hunit.2.1.of_read fun suffix hkind _ hread => (hkept suffix hkind).trans hread
  obtain ⟨values, hread, hlength⟩ := hholds.exists_read hengine hshape hw hmode hsuffix
  rw [← hlength]
  refine ⟨exists_readTensor_iff hread, ?_⟩
  intro run' algorithm' precision' before' after' files' hengine' hrun' hkept'
  have hunit' : _ ∧ run'.HoldsResults before' after' (wavelet, input) ∧ _ := runUnit_eq_ok hrun'
  have hholds' : run'.HoldsResults before' tree (wavelet, input) :=
    hunit'.2.1.of_read fun suffix hkind _ hread => (hkept' suffix hkind).trans hread
  obtain ⟨values', hread', hlength'⟩ := hholds'.exists_read hengine' hshape hw hmode hsuffix
  rw [← hlength']
  exact ⟨_, run_compareUnit .., ofSides_of_read hread hread'⟩

/-- Runs of the lifting transform in single precision. -/
def TransformRun.lifted : TransformRun where
  engine := .of .lifting .binary32
  input := .ofString "in"
  output := .ofString "out-lifted"

/-- A tree with a signal of three samples below the directory `in`. -/
def TransformRun.threeSamples : FileTree where
  entries := [
    (["in"], .directory),
    (["signal", "in"], .file (Artifact.encode [1.0, 2.0, 3.0]))]

theorem TransformRun.compareUnit_runUnit_three :
    let wavelet : WaveletEntry := ⟨"w", "haar", "symmetric"⟩
    let input : InputEntry := ⟨"signal", [3], 1.0⟩
    ∃ between tree t stats message,
      threeSamples.run (reference.runUnit wavelet input) = (.ok 3, between) ∧
        between.run (lifted.runUnit wavelet input) = (.ok 3, tree) ∧
        tree.run (Artifact.readTensor (reference.resultPath (wavelet, input) .approx) [2])
          = (.ok t, tree) ∧
        (compareUnit (M := StateM FileTree) ⟨reference.output, lifted.output⟩ input.name
          wavelet.name .approx [2]).run tree = pure (.compared stats, tree) ∧
        (compareUnit (M := StateM FileTree) ⟨reference.output, lifted.output⟩ input.name
          wavelet.name .detail [1]).run tree = pure (.failed message, tree) := by
  intro wavelet input
  have hresult : (threeSamples.run (reference.runUnit wavelet input)).1 = .ok 3 := by
    decide +kernel
  have hresult' : ((threeSamples.run (reference.runUnit wavelet input)).2.run
      (lifted.runUnit wavelet input)).1 = .ok 3 := by decide +kernel
  have hkept : ∀ suffix ∈ input.suffixes,
      ((threeSamples.run (reference.runUnit wavelet input)).2.run
          (lifted.runUnit wavelet input)).2.read (reference.resultPath (wavelet, input) suffix)
        = (threeSamples.run (reference.runUnit wavelet input)).2.read
          (reference.resultPath (wavelet, input) suffix) := by
    decide +kernel
  rcases hrun : threeSamples.run (reference.runUnit wavelet input) with ⟨result, between⟩
  rw [hrun] at hresult hresult' hkept
  obtain rfl : result = .ok 3 := hresult
  rcases hrun' : between.run (lifted.runUnit wavelet input) with ⟨result', tree⟩
  rw [hrun'] at hresult' hkept
  obtain rfl : result' = .ok 3 := hresult'
  have hw : wavelet.wavelet = .ok ⟨"haar", .haar⟩ := by decide +kernel
  have hmode : wavelet.boundaryMode = .ok .symmetric := by decide +kernel
  have hengine : reference.engine = .of .convolution .binary64 := rfl
  have hengine' : lifted.engine = .of .lifting .binary32 := rfl
  have htaps : (⟨"haar", .haar⟩ : Wavelet).filterSize = 2 := rfl
  have happrox : (Suffix.approx, [2]) ∈ expectedShapes 3 := by decide
  have hdetail : (Suffix.detail, [1]) ∈ expectedShapes 3 := by decide
  obtain ⟨hread, hpair⟩ := compareUnit_runUnit hengine rfl hw hmode hrun hkept happrox
  obtain ⟨t, ht⟩ := hread.mpr (Or.inl htaps)
  obtain ⟨outcome, hunit, hcompared, -⟩ := hpair hengine' hrun' fun _ _ => rfl
  obtain ⟨stats, rfl⟩ := hcompared.mpr ⟨Or.inl htaps, trivial⟩
  obtain ⟨-, hpair'⟩ := compareUnit_runUnit hengine rfl hw hmode hrun hkept hdetail
  obtain ⟨outcome', hunit', -, hfailed⟩ := hpair' hengine' hrun' fun _ _ => rfl
  obtain ⟨message, rfl⟩ := hfailed fun h => absurd h.1.1 (by decide)
  exact ⟨between, tree, t, stats, message, rfl, hrun', ht, hunit, hunit'⟩

end WaveletPrecision
