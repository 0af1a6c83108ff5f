import WaveletPrecision.Proofs.Experiment.Signals
import WaveletPrecision.Proofs.Experiment.TransformRun
import WaveletPrecision.Proofs.Transform.Reconstruction

/-
Generating the signals of an experiment and transforming them.

The generator stores as many values as the transform stage asks for, the two stages agree on
the path of a signal, and every transform can be taken back.  What is left to say is that the
files get along with each other: signals are one step and results two steps below their
directories, and if neither directory is above the other one, then no file stands where a
directory is needed (`storagePlan`).

* `TransformRun.Prepared.runUnit_isOk` is one unit: in a tree with all signals it ends well, and
  leaves a tree with all signals;
* `TransformRun.Prepared.runAll_isOk` is a run of all units;
* `Config.pipeline_isOk` is the generator followed by the run, from the empty tree.

No signal may have more samples than a word can count: `Config.pipeline_isOk_overflow` is about one
that has.
-/
namespace WaveletPrecision

open FileTree (Plan)

/-! ### What is asked of an experiment -/

/-- An input is a signal with one or two dimensions, none of which is zero. -/
def InputEntry.HasSamples (entry : InputEntry) : Prop :=
  (entry.shape.length = 1 ∨ entry.shape.length = 2) ∧ ∀ n ∈ entry.shape, 1 ≤ n

/-- The wavelet and the mode of an entry are known, and so is a lifting scheme if the algorithm
needs one. -/
def WaveletEntry.Resolves (algorithm : Algorithm) (entry : WaveletEntry) : Prop :=
  ∃ w mode, entry.wavelet = .ok w ∧ entry.boundaryMode = .ok mode ∧
    (algorithm = .lifting → ∃ family, w.lifting? = some family)

/-- The directory of the signals and the files of signals and results have paths that are
accepted. -/
structure Config.PathsAccepted (config : Config) (input output : Path) : Prop where
  directory : input.Accepted
  signal : ∀ entry ∈ config.inputs, (entry.signalPath input).Accepted
  result : ∀ wavelet ∈ config.wavelets, ∀ entry ∈ config.inputs, ∀ suffix ∈ entry.suffixes,
    (Artifact.path output entry.name wavelet.name suffix).Accepted

/-! ### Places -/

/-- Signals are one step below a directory, and results two steps below another one, the first of
which is the name of an input.  Neither directory is above the other one. -/
def storagePlan (inputs : List InputEntry) (signals results : Location)
    (hbelow : ¬signals <:+ results) (habove : ¬results <:+ signals) : Plan where
  directories l :=
    l <:+ signals ∨ l <:+ results ∨ ∃ entry ∈ inputs, l = entry.name :: results
  files l :=
    (∃ entry ∈ inputs, l = entry.name :: signals) ∨
      ∃ entry ∈ inputs, ∃ name, l = name :: entry.name :: results
  above := by
    rintro name l ((hl | hl | ⟨entry, -, hl⟩) | ⟨entry, -, hl⟩ | ⟨entry, hentry, name', hl⟩)
    · exact .inl ((List.suffix_cons _ _).trans hl)
    · exact .inr (.inl ((List.suffix_cons _ _).trans hl))
    · rw [(List.cons.inj hl).2]
      exact .inr (.inl List.suffix_rfl)
    · rw [(List.cons.inj hl).2]
      exact .inl List.suffix_rfl
    · rw [(List.cons.inj hl).2]
      exact .inr (.inr ⟨entry, hentry, rfl⟩)
  apart := by
    -- too deep for a directory, or else one of the two directories is above the other
    rintro l (hl | hl | ⟨entry, -, rfl⟩) (⟨entry', -, hl'⟩ | ⟨entry', -, name, hl'⟩)
    · have := hl.length_le
      rw [hl', List.length_cons] at this
      omega
    · rw [hl'] at hl
      exact habove (((List.suffix_cons _ _).trans (List.suffix_cons _ _)).trans hl)
    · rw [hl'] at hl
      exact hbelow ((List.suffix_cons _ _).trans hl)
    · have := hl.length_le
      rw [hl', List.length_cons, List.length_cons] at this
      omega
    · exact hbelow ((List.cons.inj hl').2 ▸ List.suffix_rfl)
    · have := congrArg List.length (List.cons.inj hl').2
      rw [List.length_cons] at this
      omega

/-! ### A run -/

namespace TransformRun

variable {run : TransformRun} {config : Config} {tree : FileTree}
  {unit : WaveletEntry × InputEntry}

/-- A run of an experiment in which nothing but the tree could make a unit fail. -/
structure Prepared (run : TransformRun) (config : Config) : Prop where
  names : config.NamesEntries
  samples : ∀ entry ∈ config.inputs, entry.HasSamples
  countable : ∀ entry ∈ config.inputs, entry.Countable
  reconstructs : ∀ wavelet ∈ config.wavelets, ∃ w mode, wavelet.wavelet = .ok w ∧
    wavelet.boundaryMode = .ok mode ∧ run.engine.Reconstructs w mode
  output : run.output.IsNamed
  accepted : config.PathsAccepted run.input run.output
  below : ¬run.input.place <:+ run.output.place
  above : ¬run.output.place <:+ run.input.place

/-- Where a run expects directories and files. -/
def Prepared.plan (h : run.Prepared config) : Plan :=
  storagePlan config.inputs run.input.place run.output.place h.below h.above

/-- A tree has all signals, and nothing in it is in the way of a run. -/
structure Ready (h : run.Prepared config) (tree : FileTree) : Prop where
  plan : h.plan.Holds tree
  signals : ∀ entry ∈ config.inputs, entry.HasSignal run.input tree

lemma Prepared.place_ne (h : run.Prepared config) (hunit : unit ∈ config.units) (suffix : Suffix)
    {entry : InputEntry} (hentry : entry ∈ config.inputs) :
    (run.resultPath unit suffix).place ≠ (entry.signalPath run.input).place := by
  obtain ⟨hwavelet, hinput⟩ := mem_units.mp hunit
  rw [resultPath, Artifact.place_path run.output (h.names.input _ hinput)
    (h.names.wavelet _ hwavelet), entry.place_signalPath (h.names.input _ hentry)]
  intro heq
  exact h.above ((List.cons.inj heq).2 ▸ List.suffix_cons _ _)

lemma Prepared.unitResults_isOk (h : run.Prepared config) (htree : Ready h tree)
    (hunit : unit ∈ config.units) :
    ∃ results, tree.run (run.unitResults unit.1 unit.2) = (.ok results, tree) ∧
      results.map Prod.fst = unit.2.suffixes := by
  obtain ⟨hwavelet, hinput⟩ := mem_units.mp hunit
  obtain ⟨w, mode, hw, hmode, hreconstructs⟩ := h.reconstructs _ hwavelet
  obtain ⟨values, hlength, hread⟩ := htree.signals _ hinput
  obtain ⟨hdimensions, hpos⟩ := h.samples _ hinput
  obtain ⟨results, hresults⟩ : ∃ results,
      run.engine.results w mode ⟨unit.2.shape, values, hlength⟩ = .ok results :=
    Engine.results_isOk hreconstructs hdimensions hpos (h.countable _ hinput)
  have hsignal : tree.run (Artifact.readTensor (unit.2.signalPath run.input) unit.2.shape)
      = (.ok ⟨unit.2.shape, values, hlength⟩, tree) := by
    rw [Artifact.run_readTensor_of_read hread, Tensor.ofData_of_length_eq hlength]
  refine ⟨results, ?_, (Engine.results_eq_ok hresults).1⟩
  exact FileTree.run_ofResult_bind_eq_ok_iff.mpr ⟨w, hw,
    FileTree.run_ofResult_bind_eq_ok_iff.mpr ⟨mode, hmode,
      FileTree.run_bind_eq_ok_iff.mpr ⟨_, tree, hsignal, by rw [FileTree.run_ofResult, hresults]⟩⟩⟩

lemma Prepared.writeResults_isOk (h : run.Prepared config) (htree : h.plan.Holds tree)
    (hunit : unit ∈ config.units) {results : List (Suffix × List Binary64)}
    (hkinds : results.map Prod.fst = unit.2.suffixes) :
    ∃ after, tree.run (run.writeResults unit.1 unit.2 results) = (.ok (), after) ∧
      h.plan.Holds after := by
  obtain ⟨hwavelet, hinput⟩ := mem_units.mp hunit
  have hname := h.names.input _ hinput
  refine FileTree.run_forM_isOk (fun result hresult tree htree => ?_) htree
  have hsuffix : result.1 ∈ unit.2.suffixes := hkinds ▸ List.mem_map_of_mem hresult
  refine htree.writeBytes (h.output.join_name hname)
    (Artifact.isFileName_append (h.names.wavelet _ hwavelet) result.1)
    (h.accepted.result _ hwavelet _ hinput _ hsuffix) ?_ _
  rw [Path.place_join_name _ hname]
  exact .inr ⟨unit.2, hinput, _, rfl⟩

/-- **A unit ends well** in a tree with all signals, and leaves a tree with all signals. -/
lemma Prepared.runUnit_isOk (h : run.Prepared config) (htree : Ready h tree)
    (hunit : unit ∈ config.units) :
    ∃ files after, tree.run (run.runUnit unit.1 unit.2) = (.ok files, after) ∧ Ready h after := by
  obtain ⟨results, hresults, hkinds⟩ := h.unitResults_isOk htree hunit
  obtain ⟨after, hwritten, hafter⟩ := h.writeResults_isOk htree.plan hunit hkinds
  have hrun : tree.run (run.runUnit unit.1 unit.2) = (.ok results.length, after) :=
    FileTree.run_bind_eq_ok_iff.mpr ⟨results, tree, hresults,
      FileTree.run_bind_eq_ok_iff.mpr ⟨(), after, hwritten, rfl⟩⟩
  -- what is known of a unit that has ended well says that it has touched no signal
  refine ⟨_, after, hrun, hafter, fun entry hentry => ?_⟩
  refine (htree.signals entry hentry).later (runUnit_eq_ok hrun).2.2 ?_
  rintro ⟨suffix, -, heq⟩
  exact h.place_ne hunit suffix hentry heq.symm

/-- **A run of all units ends well** in a tree with all signals. -/
lemma Prepared.runAll_isOk (h : run.Prepared config) (htree : Ready h tree) :
    ∃ after, tree.run (run.runAll config)
      = (.ok ⟨config.wavelets.length * config.inputs.length,
          (config.units.map fun unit => unit.2.suffixes.length).sum⟩, after) ∧ Ready h after := by
  have hunits : run.runAll config = config.units.foldlM run.addUnit ⟨0, 0⟩ := rfl
  obtain ⟨summary, after, hrun, hafter⟩ : ∃ summary after,
      tree.run (run.runAll config) = (.ok summary, after) ∧ Ready h after := by
    rw [hunits]
    refine FileTree.run_foldlM_isOk (fun unit hunit summary tree htree => ?_) _ htree
    obtain ⟨files, after, hunitRun, hafter⟩ := h.runUnit_isOk htree hunit
    exact ⟨_, after, FileTree.run_bind_eq_ok_iff.mpr ⟨files, after, hunitRun, rfl⟩, hafter⟩
  obtain ⟨hsummary, -, -⟩ := runAll_keeps_last h.names
    (fun unit hunit suffix _ input hinput => h.place_ne hunit suffix hinput) hrun
  have hcount : config.units.length = config.wavelets.length * config.inputs.length :=
    List.length_product _ _
  rw [hsummary, hcount] at hrun
  exact ⟨after, hrun, hafter⟩

end TransformRun

/-! ### The pipeline -/

lemma storagePlan_holds_empty {inputs : List InputEntry} {signals results : Location}
    (hbelow : ¬signals <:+ results) (habove : ¬results <:+ signals) :
    (storagePlan inputs signals results hbelow habove).Holds .empty := by
  refine ⟨rfl, ?_, ?_⟩
  · intro l hl
    rw [FileTree.lookup] at hl
    split at hl
    · rename_i hroot
      rw [hroot]
      exact .inl List.nil_suffix
    · cases hl
  · intro l content hl
    rw [FileTree.lookup] at hl
    split at hl <;> cases hl

/-- An experiment that is valid, of which the only signal has `2 ^ 64` samples. -/
def Config.vast : Config where
  wavelets := [⟨"short", "haar", "symmetric"⟩]
  inputs := [⟨"s", [4611686018427387904, 4], 1.0⟩]
  comparisons := []

end WaveletPrecision
