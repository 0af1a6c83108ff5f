import WaveletPrecision.Experiment.Comparison
import WaveletPrecision.Proofs.Experiment.TransformRun
import WaveletPrecision.Proofs.Storage.Component
import WaveletPrecision.Proofs.Storage.Confined

/-
The stages of an experiment keep to their directories.

The entries of a valid experiment have names for entries of directories, so signals and results
stand below the directories that a stage is given (`below_signalPath`, `below_path`), whatever else
is in the names.  Each part of a stage reads and writes files of these paths only, and so does the
stage (`FileTree.Confined`): generating has to do with the directory of the signals, transforming
reads below that directory and writes below the one of the results, and comparing reads below the
two directories of each pair and writes nothing.

`artifacts_confined` states this together with the form of the paths of artifacts.
-/
namespace WaveletPrecision

open FileTree (Confined)

/-! ### Places below directories -/

/-- A location below one of some directories. -/
def Below (directories : List Path) (l : Location) : Prop :=
  ∃ directory ∈ directories, ∃ names ≠ [], l = names ++ directory.place

variable {directories : List Path} {directory : Path}

lemma below_signalPath {input : InputEntry} (h : Path.isFileName input.name = true)
    (hdirectory : directory ∈ directories) :
    Below directories (input.signalPath directory).place :=
  ⟨directory, hdirectory, [input.name], by simp, input.place_signalPath h directory⟩

lemma below_path {input wavelet : String} (hinput : Path.isFileName input = true)
    (hwavelet : Path.isFileName wavelet = true) (hdirectory : directory ∈ directories)
    (suffix : Suffix) : Below directories (Artifact.path directory input wavelet suffix).place :=
  ⟨directory, hdirectory, [wavelet ++ "_" ++ suffix.name, input], by simp,
    Artifact.place_path directory hinput hwavelet⟩

variable {reads writes : Location → Prop} {config : Config}

/-! ### Generating -/

section Signals

variable {S : Type} [RandomSource S]

lemma confined_writeSignals {output : Path} {inputs : List InputEntry}
    (h : ∀ entry ∈ inputs, writes (entry.signalPath output).place) (source : S) :
    Confined reads writes (writeSignals (M := StateM FileTree) output inputs source).run := by
  induction inputs generalizing source with
  | nil => exact .pure _
  | cons entry rest ih =>
    rw [List.forall_mem_cons] at h
    rw [writeSignals]
    exact (Confined.writeBytes h.1 _).bindResult fun _ =>
      (ih h.2 _).bindResult fun _ => .pure _

/-- **Generating** reads no file and writes below its directory. -/
lemma confined_generateSignals (hnames : config.NamesEntries) (output : Path) (source : S) :
    Confined (fun _ => False) (Below [output])
      (generateSignals (M := StateM FileTree) config.inputs output source).run :=
  (Confined.createDirectories output).bindResult fun _ =>
    confined_writeSignals (fun entry hentry =>
      below_signalPath (hnames.input entry hentry) List.mem_cons_self) source

end Signals

/-! ### Transforming -/

namespace TransformRun

lemma confined_runUnit (run : TransformRun) {wavelet : WaveletEntry} {input : InputEntry}
    (hsignal : reads (input.signalPath run.input).place)
    (hresults : ∀ suffix, writes (Artifact.path run.output input.name wavelet.name suffix).place) :
    Confined reads writes (run.runUnit (M := StateM FileTree) wavelet input).run := by
  have hunit : Confined reads writes (run.unitResults (M := StateM FileTree) wavelet input).run :=
    (Confined.ofResult _).bindResult fun w => (Confined.ofResult _).bindResult fun mode =>
      (Confined.readTensor hsignal _).bindResult fun signal => .ofResult _
  refine hunit.bindResult fun results => Confined.bindResult (.forM ?_) fun _ => .pure _
  rintro ⟨suffix, values⟩ -
  exact .writeBytes (hresults suffix) _

/-- **Transforming** reads below the directory of the signals and writes below the directory of the
results. -/
lemma confined_runAll (run : TransformRun) (hnames : config.NamesEntries) :
    Confined (Below [run.input]) (Below [run.output])
      (run.runAll (M := StateM FileTree) config).run := by
  refine Confined.foldlM (fun unit hunit summary => ?_) _
  obtain ⟨hwavelet, hinput⟩ := mem_units.mp hunit
  refine (run.confined_runUnit ?_ fun suffix => ?_).bindResult fun _ => .pure _
  · exact below_signalPath (hnames.input _ hinput) List.mem_cons_self
  · exact below_path (hnames.input _ hinput) (hnames.wavelet _ hwavelet) List.mem_cons_self suffix

end TransformRun

/-! ### Comparing -/

section Comparisons

variable {pair : ComparisonPair}

lemma confined_loadSide {root : Path} {input wavelet : String} {suffix : Suffix}
    (hplace : reads (Artifact.path root input wavelet suffix).place) (shape : List Nat) :
    Confined reads writes
      (loadSide (M := StateM FileTree) root input wavelet suffix shape).run := by
  rw [loadSide, ExceptT.run_mk]
  refine (Confined.readTensor hplace shape).bind fun result => ?_
  cases result <;> exact .pure _

lemma confined_compareUnit {input wavelet : String} {suffix : Suffix}
    (hplaces : ∀ root ∈ [pair.compared, pair.reference],
      reads (Artifact.path root input wavelet suffix).place) (shape : List Nat) :
    Confined reads writes
      (compareUnit (M := StateM FileTree) pair input wavelet suffix shape) := by
  have hleft := hplaces pair.compared (by simp)
  have hright := hplaces pair.reference (by simp)
  refine Confined.bind ((confined_loadSide hleft shape).bindResult fun left =>
    (confined_loadSide hright shape).bindResult fun right => .pure _) fun result => ?_
  cases result <;> exact .pure _

lemma confined_compareInput {input : InputEntry}
    (hplaces : ∀ root ∈ [pair.compared, pair.reference], ∀ wavelet ∈ config.wavelets, ∀ suffix,
      reads (Artifact.path root input.name wavelet.name suffix).place) :
    Confined reads writes (compareInput (M := StateM FileTree) config pair input) := by
  have hwavelet : ∀ n, ∀ wavelet ∈ config.wavelets,
      Confined reads writes
        (compareWavelet (M := StateM FileTree) pair input.name n wavelet.name) := by
    intro n wavelet hwavelet
    refine Confined.bind (.mapM ?_) fun _ => .pure _
    rintro ⟨suffix, shape⟩ -
    exact (confined_compareUnit (fun root hroot => hplaces root hroot wavelet hwavelet suffix)
      shape).bind fun _ => .pure _
  rw [compareInput]
  split
  · exact (Confined.mapM (hwavelet _)).bind fun _ => .pure _
  · exact .pure _
  · exact .pure _

/-- **Comparing** reads below the directories of the pairs and writes nothing. -/
lemma confined_comparePairs (hnames : config.NamesEntries) (pairs : List ComparisonPair) :
    Confined (Below (pairs.flatMap fun pair => [pair.compared, pair.reference])) (fun _ => False)
      (comparePairs (M := StateM FileTree) config pairs) := by
  refine Confined.bind (.mapM fun pair hpair => ?_) fun _ => .pure _
  refine Confined.bind (.mapM fun input hinput => ?_) fun _ => .pure _
  refine confined_compareInput fun root hroot wavelet hwavelet suffix => ?_
  exact below_path (hnames.input _ hinput) (hnames.wavelet _ hwavelet)
    (List.mem_flatMap.mpr ⟨pair, hpair, hroot⟩) suffix

end Comparisons

/-! ### Artifacts and stages -/

/-- **Artifacts are told apart by their paths and stay in their directories.**

Let the names of inputs and wavelets be accepted.  Then two paths below a directory are equal, as
texts or step by step, only if the inputs, the wavelets and the kinds of results are; and the steps
of a path are those of the directory and two more, whose names are ordinary pieces.

So the stages of a valid experiment, whether they succeed or fail, have to do with files of their
directories only: generating reads no file and writes below its directory, transforming reads below
the directory of the signals and writes below the one of the results, and comparing reads below the
directories of the pairs and writes nothing. -/
theorem artifacts_confined :
    (∀ (root : Path) (input input' wavelet wavelet' : String) (suffix suffix' : Suffix),
      Config.checkName "input" input = .ok () → Config.checkName "input" input' = .ok () →
      Config.checkName "wavelet" wavelet = .ok () → Config.checkName "wavelet" wavelet' = .ok () →
      (Artifact.path root input wavelet suffix = Artifact.path root input' wavelet' suffix' ↔
        input = input' ∧ wavelet = wavelet' ∧ suffix = suffix') ∧
      ((Artifact.path root input wavelet suffix).components
          = (Artifact.path root input' wavelet' suffix').components ↔
        input = input' ∧ wavelet = wavelet' ∧ suffix = suffix')) ∧
    (∀ (root : Path) (input wavelet : String) (suffix : Suffix),
      Config.checkName "input" input = .ok () → Config.checkName "wavelet" wavelet = .ok () →
      (Artifact.path root input wavelet suffix).components
          = root.components ++ [.name input, .name (wavelet ++ "_" ++ suffix.name)] ∧
        Path.IsOrdinary input ∧ Path.IsOrdinary (wavelet ++ "_" ++ suffix.name)) ∧
    ∀ config : Config, config.validate = .ok () →
      (∀ {S : Type} [RandomSource S] (output : Path) (source : S),
        Confined (fun _ => False) (Below [output])
          (generateSignals (M := StateM FileTree) config.inputs output source).run) ∧
      (∀ run : TransformRun, Confined (Below [run.input]) (Below [run.output])
        (run.runAll (M := StateM FileTree) config).run) ∧
      ∀ pairs : List ComparisonPair,
        Confined (Below (pairs.flatMap fun pair => [pair.compared, pair.reference]))
          (fun _ => False) (comparePairs (M := StateM FileTree) config pairs) := by
  refine ⟨?_, ?_, ?_⟩
  · intro root input input' wavelet wavelet' suffix suffix' hinput hinput' hwavelet hwavelet'
    rw [Config.checkName_eq_ok_iff] at hinput hinput' hwavelet hwavelet'
    have happart : (Artifact.path root input wavelet suffix).components
          = (Artifact.path root input' wavelet' suffix').components →
        input = input' ∧ wavelet = wavelet' ∧ suffix = suffix' :=
      Artifact.components_path_injective hinput hinput' hwavelet hwavelet'
    refine ⟨⟨fun h => happart (congrArg Path.components h), ?_⟩, ⟨happart, ?_⟩⟩
    · rintro ⟨rfl, rfl, rfl⟩
      rfl
    · rintro ⟨rfl, rfl, rfl⟩
      rfl
  · intro root input wavelet suffix hinput hwavelet
    rw [Config.checkName_eq_ok_iff] at hinput hwavelet
    exact ⟨Artifact.components_path root suffix hinput hwavelet,
      Path.isOrdinary_of_isFileName hinput,
      Path.isOrdinary_of_isFileName (Artifact.isFileName_append hwavelet suffix)⟩
  · intro config hvalid
    obtain ⟨hnames, -⟩ := Config.validate_eq_ok_iff.mp hvalid
    exact ⟨fun output source => confined_generateSignals hnames output source,
      fun run => run.confined_runAll hnames, fun pairs => confined_comparePairs hnames pairs⟩

/-- The signals of an experiment, with a note beside their directory. -/
def notedSignals (note : ByteArray) : FileTree :=
  TransformRun.quartetSignals.put ["note"] (.file note)

/-- Names that are alike up to where a mark stands, a directory with a dot and empty pieces in its
text, and runs beside two different notes. -/
theorem artifacts_confined_quartet :
    Artifact.path (.ofString "out") "first" "w" .detailApprox
        ≠ Artifact.path (.ofString "out") "first" "w_l" .detail ∧
      (Artifact.path (.ofString "/data/./out//") "first" "w_l" .detail).components
        = [.root, .name "data", .name "out", .name "first", .name "w_l_h_fwd"] ∧
      ∃ after after',
        (notedSignals ⟨#[1]⟩).run (TransformRun.reference.runAll .quartet) = (.ok ⟨4, 16⟩, after) ∧
        (notedSignals ⟨#[2, 3]⟩).run (TransformRun.reference.runAll .quartet)
          = (.ok ⟨4, 16⟩, after') ∧
        after.lookup ["note"] = some (.file ⟨#[1]⟩) := by
  have houtside : ∀ directory : String, (Path.ofString directory).place = [directory] →
      directory ≠ "note" → ¬Below [.ofString directory] ["note"] := by
    rintro directory hplace hne ⟨_, hmem, names, -, heq⟩
    rw [List.mem_singleton.mp hmem, hplace] at heq
    obtain ⟨-, hlast⟩ := List.append_inj' (show [] ++ ["note"] = names ++ [directory] from heq) rfl
    exact hne (List.singleton_injective hlast).symm
  obtain ⟨hpaths, hsteps, hstages⟩ := artifacts_confined
  have hconfined := (hstages .quartet (by decide)).2.1 TransformRun.reference
  obtain ⟨after, hrun⟩ := FileTree.exists_run_eq (show ((notedSignals ⟨#[1]⟩).run
    (TransformRun.reference.runAll .quartet)).1 = .ok ⟨4, 16⟩ by decide +kernel)
  have hsame : ((notedSignals ⟨#[2, 3]⟩).run (TransformRun.reference.runAll .quartet)).1
      = ((notedSignals ⟨#[1]⟩).run (TransformRun.reference.runAll .quartet)).1 :=
    hconfined.result_eq (FileTree.sameWithin_put_file TransformRun.quartetSignals
      (by simp) (houtside "in" (by decide) (by decide)) ⟨#[1]⟩ ⟨#[2, 3]⟩)
  have hkept := hconfined.changesOnly_run (notedSignals ⟨#[1]⟩)
  rw [hrun] at hsame hkept
  obtain ⟨after', hrun'⟩ := FileTree.exists_run_eq hsame
  refine ⟨?_, ?_, after, after', hrun, hrun', ?_⟩
  · rw [Ne, (hpaths _ _ _ _ _ _ _ (by decide) (by decide) (by decide) (by decide)).1]
    decide
  · rw [(hsteps _ _ _ _ (by decide) (by decide)).1]
    decide +kernel
  · refine (hkept.file _ _ (houtside "out" (by decide) (by decide))).mpr ?_
    rw [notedSignals, FileTree.lookup_put (by simp), if_pos rfl]

end WaveletPrecision
