import WaveletPrecision.Proofs.Experiment.Comparison

/-
The sweep of a comparison over its units.

A report is nested: pairs hold inputs, inputs hold wavelets, and wavelets hold the outcomes of
their units.  `Config.comparisonUnits` lists the units of a comparison in one line, in the order
in which they are compared.  Every level of the comparison leaves the tree as it is and has
the outcomes of exactly the units below it (`Sweeps`), whatever the files are; a level that runs
through a list has the outcomes of its elements one after the other (`Sweeps.mapM`).

* `comparePairs_sweeps` is the whole comparison;
* `ComparisonUnit.outcome_congr` says on which files the outcome of a unit depends;
* `comparePairs_complete` states what a report is: every unit is in it, once and in its
  place, and a file that is broken changes only the outcomes of the units that it belongs to.
-/
namespace WaveletPrecision

/-! ### The units of a comparison -/

/-- One kind of result, of one input and one wavelet, in the two directories of a pair. -/
structure ComparisonUnit where
  pair : ComparisonPair
  input : String
  wavelet : String
  suffix : Suffix
  shape : List Nat

namespace ComparisonUnit

/-- The two files of a unit. -/
def paths (unit : ComparisonUnit) : List Path :=
  [Artifact.path unit.pair.compared unit.input unit.wavelet unit.suffix,
    Artifact.path unit.pair.reference unit.input unit.wavelet unit.suffix]

/-- What comparing a unit, and nothing else, gives in a tree. -/
def outcome (unit : ComparisonUnit) (tree : FileTree) : Outcome :=
  ((compareUnit (M := StateM FileTree) unit.pair unit.input unit.wavelet unit.suffix
    unit.shape).run tree).1

/-- The units of one wavelet for an input of so many samples. -/
def ofWavelet (pair : ComparisonPair) (input : String) (n : Nat) (wavelet : String) :
    List ComparisonUnit :=
  [⟨pair, input, wavelet, .approx, [(n + 1) / 2]⟩,
    ⟨pair, input, wavelet, .detail, [n / 2]⟩,
    ⟨pair, input, wavelet, .inverse, [n]⟩]

end ComparisonUnit

namespace Config

/-- The units of one input, of which there are none unless the input has one dimension. -/
def inputUnits (config : Config) (pair : ComparisonPair) (input : InputEntry) :
    List ComparisonUnit :=
  match input.shape with
  | [n] => config.wavelets.flatMap fun wavelet =>
      ComparisonUnit.ofWavelet pair input.name n wavelet.name
  | _ => []

/-- The units of a comparison: all inputs of a pair before the next pair, all wavelets of an
input before the next input. -/
def comparisonUnits (config : Config) (pairs : List ComparisonPair) : List ComparisonUnit :=
  pairs.flatMap fun pair => config.inputs.flatMap fun input => config.inputUnits pair input

/-- The number of inputs that are compared. -/
def comparedInputs (config : Config) : Nat :=
  config.inputs.countP fun input => input.shape.length = 1

lemma inputUnits_of_shape_eq {config : Config} {pair : ComparisonPair} {input : InputEntry}
    {n : Nat} (h : input.shape = [n]) :
    config.inputUnits pair input = config.wavelets.flatMap fun wavelet =>
      ComparisonUnit.ofWavelet pair input.name n wavelet.name := by
  rw [inputUnits, h]

lemma inputUnits_of_shape_ne {config : Config} {pair : ComparisonPair} {input : InputEntry}
    (h : ∀ n, input.shape ≠ [n]) : config.inputUnits pair input = [] := by
  rw [inputUnits]
  split
  · rename_i n hshape
    exact absurd hshape (h n)
  · rfl

lemma length_inputUnits (config : Config) (pair : ComparisonPair) (input : InputEntry) :
    (config.inputUnits pair input).length
      = if input.shape.length = 1 then 3 * config.wavelets.length else 0 := by
  split
  · rename_i hlength
    obtain ⟨n, hshape⟩ := List.length_eq_one_iff.mp hlength
    rw [inputUnits_of_shape_eq hshape]
    simp [List.length_flatMap, ComparisonUnit.ofWavelet, Nat.mul_comm]
  · rename_i hlength
    rw [inputUnits_of_shape_ne fun n hshape => hlength (congrArg List.length hshape)]
    rfl

/-- **The number of units** of a comparison. -/
lemma length_comparisonUnits (config : Config) (pairs : List ComparisonPair) :
    (config.comparisonUnits pairs).length
      = 3 * pairs.length * config.wavelets.length * config.comparedInputs := by
  have hpair : ∀ pair, (config.inputs.flatMap (config.inputUnits pair)).length
      = 3 * config.wavelets.length * config.comparedInputs := by
    intro pair
    rw [comparedInputs]
    induction config.inputs with
    | nil => rfl
    | cons input inputs ih =>
      rw [List.flatMap_cons, List.length_append, ih, length_inputUnits, List.countP_cons]
      by_cases hlength : input.shape.length = 1 <;>
        simp [hlength, Nat.mul_add, Nat.add_comm]
  simp only [comparisonUnits, List.length_flatMap, hpair]
  rw [List.map_const', List.sum_replicate, smul_eq_mul]
  ring

end Config

/-! ### What a unit depends on -/

lemma FileTree.side_congr {tree other : FileTree} {path : Path}
    (h : other.read path = tree.read path) (shape : List Nat) :
    other.side path shape = tree.side path shape := by
  rw [side, side, Artifact.run_readTensor, Artifact.run_readTensor, h]

lemma ComparisonUnit.outcome_eq (unit : ComparisonUnit) (tree : FileTree) :
    unit.outcome tree = .ofSides
      (tree.side (Artifact.path unit.pair.compared unit.input unit.wavelet unit.suffix) unit.shape)
      (tree.side (Artifact.path unit.pair.reference unit.input unit.wavelet unit.suffix)
        unit.shape) := by
  rw [outcome, run_compareUnit]
  rfl

/-- **The outcome of a unit** depends on what is read at its two paths only. -/
lemma ComparisonUnit.outcome_congr {unit : ComparisonUnit} {tree other : FileTree}
    (h : ∀ path ∈ unit.paths, other.read path = tree.read path) :
    unit.outcome other = unit.outcome tree := by
  rw [outcome_eq, outcome_eq, FileTree.side_congr (h _ (by simp [paths])),
    FileTree.side_congr (h _ (by simp [paths]))]

/-! ### The levels of a comparison -/

/-- An action that leaves a tree as it is and whose result has the outcomes of some units. -/
def Sweeps {A : Type} (tree : FileTree) (action : StateM FileTree A) (outcomes : A → List Outcome)
    (units : List ComparisonUnit) : Prop :=
  ∃ result, action.run tree = pure (result, tree) ∧
    outcomes result = units.map fun unit => unit.outcome tree

namespace Sweeps

variable {A B : Type} {tree : FileTree} {action : StateM FileTree A}
  {outcomes : A → List Outcome} {units : List ComparisonUnit}

/-- The result can be put into something with the same outcomes. -/
lemma bind_pure (h : Sweeps tree action outcomes units) {g : A → B} {outcomes' : B → List Outcome}
    (hg : ∀ a, outcomes' (g a) = outcomes a) :
    Sweeps tree (action >>= fun a => pure (g a)) outcomes' units := by
  obtain ⟨result, hrun, houtcomes⟩ := h
  refine ⟨g result, ?_, (hg result).trans houtcomes⟩
  rw [StateT.run_bind, hrun, pure_bind]
  rfl

/-- **A list** of actions has the outcomes of the actions, one after the other. -/
lemma mapM {f : B → StateM FileTree A} {unitsOf : B → List ComparisonUnit} {l : List B}
    (h : ∀ b ∈ l, Sweeps tree (f b) outcomes (unitsOf b)) :
    Sweeps tree (l.mapM f) (fun results => results.flatMap outcomes) (l.flatMap unitsOf) := by
  -- the rest of the list starts from the same tree, because the first action has kept it
  induction l with
  | nil => exact ⟨[], rfl, rfl⟩
  | cons b l ih =>
    obtain ⟨first, hfirst, houtcomes⟩ := h b List.mem_cons_self
    obtain ⟨rest, hrest, houtcomes'⟩ := ih fun b' hb' => h b' (List.mem_cons_of_mem _ hb')
    refine ⟨first :: rest, ?_, ?_⟩
    · rw [List.mapM_cons, StateT.run_bind, hfirst, pure_bind, StateT.run_bind, hrest, pure_bind]
      rfl
    · rw [List.flatMap_cons, List.map_append, ← houtcomes, ← houtcomes']
      exact List.flatMap_cons

end Sweeps

/-- The outcomes of a wavelet. -/
def WaveletSection.outcomes (part : WaveletSection) : List Outcome :=
  part.units.map UnitReport.outcome

/-- The outcomes of an input. -/
def InputBody.outcomes (body : InputBody) : List Outcome :=
  body.waveletSections.flatMap WaveletSection.outcomes

/-- The outcomes of a pair. -/
def PairSection.outcomes (part : PairSection) : List Outcome :=
  part.inputs.flatMap fun input => input.body.outcomes

lemma Report.outcomes_eq (report : Report) :
    report.outcomes = report.pairs.flatMap PairSection.outcomes := by
  simp only [outcomes, List.flatMap_assoc, List.map_flatMap]
  rfl

section Levels

variable (tree : FileTree) (config : Config) (pair : ComparisonPair)

lemma compareUnit_sweeps (unit : ComparisonUnit) :
    Sweeps tree (compareUnit unit.pair unit.input unit.wavelet unit.suffix unit.shape)
      (fun outcome => [outcome]) [unit] :=
  ⟨unit.outcome tree, by rw [unit.outcome_eq]; exact run_compareUnit .., rfl⟩

lemma compareWavelet_sweeps (input : String) (n : Nat) (wavelet : String) :
    Sweeps tree (compareWavelet pair input n wavelet) WaveletSection.outcomes
      (ComparisonUnit.ofWavelet pair input n wavelet) := by
  have hunits : ComparisonUnit.ofWavelet pair input n wavelet
      = (expectedShapes n).flatMap fun kind => [⟨pair, input, wavelet, kind.1, kind.2⟩] := rfl
  have hkind : ∀ kind ∈ expectedShapes n,
      Sweeps tree (do return UnitReport.mk kind.1 (← compareUnit pair input wavelet kind.1 kind.2))
        (fun report => [report.outcome]) [⟨pair, input, wavelet, kind.1, kind.2⟩] :=
    fun kind _ =>
      (compareUnit_sweeps tree ⟨pair, input, wavelet, kind.1, kind.2⟩).bind_pure fun _ => rfl
  rw [hunits, compareWavelet]
  refine (Sweeps.mapM hkind).bind_pure fun reports => ?_
  rw [WaveletSection.outcomes, List.map_eq_flatMap]

/-- An input of another number of dimensions has no units. -/
lemma compareInput_sweeps (input : InputEntry) :
    Sweeps tree (compareInput config pair input) (fun part => part.body.outcomes)
      (config.inputUnits pair input) := by
  rw [compareInput]
  simp only [pure_bind]
  split
  · rename_i hshape
    rw [Config.inputUnits_of_shape_eq hshape]
    exact (Sweeps.mapM fun wavelet _ => compareWavelet_sweeps ..).bind_pure fun _ => rfl
  · -- two dimensions
    rename_i hshape
    rw [Config.inputUnits_of_shape_ne (by simp [hshape])]
    exact ⟨_, rfl, rfl⟩
  · -- any other number of dimensions
    rename_i hshape _
    rw [Config.inputUnits_of_shape_ne hshape]
    exact ⟨_, rfl, rfl⟩

lemma comparePair_sweeps :
    Sweeps tree (comparePair config pair) PairSection.outcomes
      (config.inputs.flatMap (config.inputUnits pair)) :=
  (Sweeps.mapM fun input _ => compareInput_sweeps tree config pair input).bind_pure fun _ => rfl

/-- **A comparison** has the outcomes of its units. -/
lemma comparePairs_sweeps (pairs : List ComparisonPair) :
    Sweeps tree (comparePairs config pairs) Report.outcomes (config.comparisonUnits pairs) :=
  (Sweeps.mapM fun pair _ => comparePair_sweeps tree config pair).bind_pure fun _ =>
    Report.outcomes_eq _

end Levels

/-! ### The report -/

lemma Report.compared_add_missing_add_failures (report : Report) :
    report.compared + report.missing + report.failures = report.outcomes.length := by
  rw [compared, missing, failures]
  induction report.outcomes with
  | nil => rfl
  | cons outcome outcomes ih =>
    simp only [List.countP_cons, List.length_cons]
    cases outcome <;> simp [Outcome.isCompared, Outcome.isMissing, Outcome.isFailure] <;> omega

/-- The files of a set of units. -/
def artifactPaths (units : Set ComparisonUnit) : Set Path :=
  {path | ∃ unit ∈ units, path ∈ unit.paths}

/-- **A comparison is complete, and its units do not disturb each other.**  For every tree there
is a report, and the tree is left as it is.  The outcomes of the report are those of the units in
their order, each one as if its unit were compared alone, and each unit counts once as compared,
as missing or as a failure.  In another tree, in which every file of the comparison reads the same
unless it belongs to one of some units, there is a report too, and all units that share no file
with those have the same outcomes in both reports. -/
theorem comparePairs_complete (config : Config) (pairs : List ComparisonPair) (tree : FileTree) :
    ∃ report, (comparePairs (M := StateM FileTree) config pairs).run tree = pure (report, tree) ∧
      report.compared + report.missing + report.failures
        = 3 * pairs.length * config.wavelets.length * config.comparedInputs ∧
      report.outcomes = (config.comparisonUnits pairs).map (fun unit => unit.outcome tree) ∧
      ∀ (other : FileTree) (touched : Set ComparisonUnit),
        (∀ unit ∈ config.comparisonUnits pairs, ∀ path ∈ unit.paths,
          path ∉ artifactPaths touched → other.read path = tree.read path) →
        ∃ report', (comparePairs (M := StateM FileTree) config pairs).run other
            = pure (report', other) ∧
          ∀ (i : Nat) (unit : ComparisonUnit), (config.comparisonUnits pairs)[i]? = some unit →
            (∀ path ∈ unit.paths, path ∉ artifactPaths touched) →
            report'.outcomes[i]? = report.outcomes[i]? := by
  obtain ⟨report, hrun, houtcomes⟩ := comparePairs_sweeps tree config pairs
  refine ⟨report, hrun, ?_, houtcomes, ?_⟩
  · rw [report.compared_add_missing_add_failures, houtcomes, List.length_map,
      config.length_comparisonUnits]
  · intro other touched hread
    obtain ⟨report', hrun', houtcomes'⟩ := comparePairs_sweeps other config pairs
    refine ⟨report', hrun', fun i unit hunit hclear => ?_⟩
    have hmem : unit ∈ config.comparisonUnits pairs := List.mem_of_getElem? hunit
    have houtcome : unit.outcome other = unit.outcome tree :=
      ComparisonUnit.outcome_congr fun path hpath =>
        hread unit hmem path hpath (hclear path hpath)
    rw [houtcomes, houtcomes', List.getElem?_map, List.getElem?_map, hunit, Option.map_some,
      Option.map_some, houtcome]

/-- An experiment with one signal of three samples and a picture, which is not compared. -/
def Config.signalAndPicture : Config where
  wavelets := [⟨"w", "haar", "symmetric"⟩]
  inputs := [⟨"picture", [2, 2], 1.0⟩, ⟨"signal", [3], 1.0⟩]
  comparisons := [⟨.ofString "a", .ofString "b"⟩]

/-- The results for the signal in two directories, with something else in place of a detail. -/
def FileTree.withDetail (entry : TreeEntry) : FileTree where
  entries := [
    (["a"], .directory),
    (["signal", "a"], .directory),
    (["w_l_fwd", "signal", "a"], .file (Artifact.encode [1.0, 2.0])),
    (["w_h_fwd", "signal", "a"], entry),
    (["w_inv", "signal", "a"], .file (Artifact.encode [1.0, 2.0, 3.0])),
    (["b"], .directory),
    (["signal", "b"], .directory),
    (["w_l_fwd", "signal", "b"], .file (Artifact.encode [1.0, 2.5])),
    (["w_h_fwd", "signal", "b"], .file (Artifact.encode [0.5])),
    (["w_inv", "signal", "b"], .file (Artifact.encode [1.0, 2.0, 3.0]))]

/-- The detail of the signal. -/
def ComparisonUnit.signalDetail : ComparisonUnit :=
  ⟨⟨.ofString "a", .ofString "b"⟩, "signal", "w", .detail, [1]⟩

theorem comparePairs_complete_directory :
    let config := Config.signalAndPicture
    let intact := FileTree.withDetail (.file (Artifact.encode [0.5]))
    let broken := FileTree.withDetail .directory
    ∃ report report',
      (comparePairs (M := StateM FileTree) config config.comparisons).run intact
          = pure (report, intact) ∧
        (comparePairs (M := StateM FileTree) config config.comparisons).run broken
          = pure (report', broken) ∧
        report.compared + report.missing + report.failures = 3 ∧
        report'.outcomes[0]? = report.outcomes[0]? ∧
        report'.outcomes[1]? ≠ report.outcomes[1]? ∧
        report'.outcomes[2]? = report.outcomes[2]? := by
  intro config intact broken
  have hread : ∀ unit ∈ config.comparisonUnits config.comparisons, ∀ path ∈ unit.paths,
      path ∉ ComparisonUnit.signalDetail.paths → broken.read path = intact.read path := by
    decide +kernel
  have hdetail : ComparisonUnit.signalDetail.outcome broken
      ≠ ComparisonUnit.signalDetail.outcome intact := by
    decide +kernel
  have hclear : ∀ i < 3, i ≠ 1 → ∀ unit ∈ (config.comparisonUnits config.comparisons)[i]?,
      ∀ path ∈ unit.paths, path ∉ ComparisonUnit.signalDetail.paths := by
    decide +kernel
  have htouched : ∀ path, path ∈ artifactPaths {ComparisonUnit.signalDetail}
      ↔ path ∈ ComparisonUnit.signalDetail.paths := by
    simp [artifactPaths]
  obtain ⟨report, hrun, hcount, houtcomes, hsame⟩ :=
    comparePairs_complete config config.comparisons intact
  obtain ⟨report', hrun', -, houtcomes', -⟩ :=
    comparePairs_complete config config.comparisons broken
  obtain ⟨report'', hrun'', hsame⟩ :=
    hsame broken {ComparisonUnit.signalDetail} (by simpa only [htouched] using hread)
  obtain rfl : report'' = report' := congrArg Prod.fst (hrun''.symm.trans hrun')
  simp only [htouched] at hsame
  refine ⟨report, report'', hrun, hrun', hcount, ?_, ?_, ?_⟩
  · exact hsame 0 _ rfl (hclear 0 (by decide) (by decide) _ rfl)
  · rw [houtcomes, houtcomes']
    intro h
    exact hdetail (Option.some.inj h)
  · exact hsame 2 _ rfl (hclear 2 (by decide) (by decide) _ rfl)

end WaveletPrecision
