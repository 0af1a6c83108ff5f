import Mathlib.Algebra.GroupWithZero.Nat
import Mathlib.Data.List.ProdSigma
import WaveletPrecision.Proofs.Experiment.Layout
import WaveletPrecision.Proofs.Storage.Store

/-
What a run of the transform stage leaves behind.

`Engine.Yields` says which list of values is the result of a kind, in terms of the engine
alone.  A unit that ends well has read its signal and has stored one file for every kind of
result (`TransformRun.HoldsResults`), and no other file has changed
(`TransformRun.runUnit_eq_ok`).

A run takes its units one after the other.  A unit finds its signal as it was at the start if
no unit before it has touched a signal, and its results stay if no unit after it has the same
paths (`TransformRun.runUnits_eq_ok`).  In an experiment that comes down to names: of the units
of the same names the last one keeps its results (`TransformRun.runAll_keeps_last`), and if all
names are different, then all units do (`TransformRun.runAll_eq_ok`).
-/
namespace WaveletPrecision

/-- The kinds of results that are stored for an input. -/
def InputEntry.suffixes (input : InputEntry) : List Suffix :=
  if input.shape.length = 1 then Suffix.oneDimensional else Suffix.twoDimensional

lemma InputEntry.length_suffixes (input : InputEntry) :
    input.suffixes.length = if input.shape.length = 1 then 3 else 5 := by
  rw [InputEntry.suffixes]
  split <;> rfl

lemma InputEntry.nodup_suffixes (input : InputEntry) : input.suffixes.Nodup := by
  rw [InputEntry.suffixes]
  split <;> decide

/-- The results of a kind that an engine finds for a signal. -/
inductive Engine.Yields (engine : Engine) (w : Wavelet) (mode : BoundaryMode)
    (signal : Tensor Binary64) : Suffix → List Binary64 → Prop where
  | approx {bands : Coefficients} (hdim : signal.dimensions = 1)
      (hforward : engine.forward w mode signal.data = .ok bands) :
      Yields engine w mode signal .approx bands.approx
  | detail {bands : Coefficients} (hdim : signal.dimensions = 1)
      (hforward : engine.forward w mode signal.data = .ok bands) :
      Yields engine w mode signal .detail bands.detail
  | inverse {bands : Coefficients} {x : List Binary64} (hdim : signal.dimensions = 1)
      (hforward : engine.forward w mode signal.data = .ok bands)
      (hinverse : engine.inverse w mode bands = .ok x) :
      Yields engine w mode signal .inverse x
  | approxApprox {m : Matrix Binary64} {bands : Bands Binary64} (hm : signal.toMatrix = .ok m)
      (hforward : engine.forwardMatrix w mode m = .ok bands) :
      Yields engine w mode signal .approxApprox bands.ll.toList
  | detailApprox {m : Matrix Binary64} {bands : Bands Binary64} (hm : signal.toMatrix = .ok m)
      (hforward : engine.forwardMatrix w mode m = .ok bands) :
      Yields engine w mode signal .detailApprox bands.lh.toList
  | approxDetail {m : Matrix Binary64} {bands : Bands Binary64} (hm : signal.toMatrix = .ok m)
      (hforward : engine.forwardMatrix w mode m = .ok bands) :
      Yields engine w mode signal .approxDetail bands.hl.toList
  | detailDetail {m : Matrix Binary64} {bands : Bands Binary64} (hm : signal.toMatrix = .ok m)
      (hforward : engine.forwardMatrix w mode m = .ok bands) :
      Yields engine w mode signal .detailDetail bands.hh.toList
  | inverseMatrix {m x : Matrix Binary64} {bands : Bands Binary64} (hm : signal.toMatrix = .ok m)
      (hforward : engine.forwardMatrix w mode m = .ok bands)
      (hinverse : engine.inverseMatrix w mode bands = .ok x) :
      Yields engine w mode signal .inverse x.toList

/-- The results for a signal with one dimension come from one pair of bands. -/
lemma Engine.Yields.exists_bands {engine : Engine} {w : Wavelet} {mode : BoundaryMode}
    {signal : Tensor Binary64} {suffix : Suffix} {values : List Binary64}
    (h : engine.Yields w mode signal suffix values) (hdim : signal.dimensions = 1) :
    ∃ bands, engine.forward w mode signal.data = .ok bands ∧
      (suffix = .approx ∧ values = bands.approx ∨ suffix = .detail ∧ values = bands.detail ∨
        suffix = .inverse ∧ engine.inverse w mode bands = .ok values) := by
  have hmatrix : ∀ m, signal.toMatrix ≠ .ok m := by
    intro m hm
    rw [Tensor.dimensions_of_toMatrix hm] at hdim
    cases hdim
  cases h with
  | approx _ hforward => exact ⟨_, hforward, .inl ⟨rfl, rfl⟩⟩
  | detail _ hforward => exact ⟨_, hforward, .inr (.inl ⟨rfl, rfl⟩)⟩
  | inverse _ hforward hinverse => exact ⟨_, hforward, .inr (.inr ⟨rfl, hinverse⟩)⟩
  | approxApprox hm => exact absurd hm (hmatrix _)
  | detailApprox hm => exact absurd hm (hmatrix _)
  | approxDetail hm => exact absurd hm (hmatrix _)
  | detailDetail hm => exact absurd hm (hmatrix _)
  | inverseMatrix hm => exact absurd hm (hmatrix _)

/-- The results that an engine gives are those of the kinds for the dimension. -/
lemma Engine.results_eq_ok {engine : Engine} {w : Wavelet} {mode : BoundaryMode}
    {signal : Tensor Binary64} {results : List (Suffix × List Binary64)}
    (h : engine.results w mode signal = .ok results) :
    (results.map Prod.fst =
        if signal.dimensions = 1 then Suffix.oneDimensional else Suffix.twoDimensional) ∧
      ∀ result ∈ results, engine.Yields w mode signal result.1 result.2 := by
  rw [Engine.results] at h
  split at h
  · rename_i hdim
    obtain ⟨bands, hforward, h⟩ := bind_eq_ok_iff.mp h
    obtain ⟨x, hinverse, h⟩ := bind_eq_ok_iff.mp h
    cases h
    refine ⟨by rw [if_pos hdim]; rfl, ?_⟩
    simp only [List.forall_mem_cons, List.not_mem_nil, false_implies, implies_true, and_true]
    exact ⟨.approx hdim hforward, .detail hdim hforward, .inverse hdim hforward hinverse⟩
  · rename_i hdim
    obtain ⟨m, hm, h⟩ := bind_eq_ok_iff.mp h
    obtain ⟨bands, hforward, h⟩ := bind_eq_ok_iff.mp h
    obtain ⟨x, hinverse, h⟩ := bind_eq_ok_iff.mp h
    cases h
    refine ⟨by rw [hdim]; rfl, ?_⟩
    simp only [List.forall_mem_cons, List.not_mem_nil, false_implies, implies_true, and_true]
    exact ⟨.approxApprox hm hforward, .detailApprox hm hforward, .approxDetail hm hforward,
      .detailDetail hm hforward, .inverseMatrix hm hforward hinverse⟩
  · cases h

namespace TransformRun

open FileTree (ChangesOnly)

variable {run : TransformRun} {before between after : FileTree}
  {unit : WaveletEntry × InputEntry}

/-- The path of a result of a unit. -/
def resultPath (run : TransformRun) (unit : WaveletEntry × InputEntry) (suffix : Suffix) : Path :=
  Artifact.path run.output unit.2.name unit.1.name suffix

/-- The path of the signal of a unit. -/
def signalPath (run : TransformRun) (unit : WaveletEntry × InputEntry) : Path :=
  unit.2.signalPath run.input

/-- A location is the place of a result of a unit. -/
def IsResultPlace (run : TransformRun) (unit : WaveletEntry × InputEntry) (l : Location) : Prop :=
  ∃ suffix ∈ unit.2.suffixes, l = (run.resultPath unit suffix).place

/-- Two units have no place in common. -/
def Apart (run : TransformRun) (unit unit' : WaveletEntry × InputEntry) : Prop :=
  ∀ l, run.IsResultPlace unit l → ¬run.IsResultPlace unit' l

/-- The tree `after` holds the results of a unit for the signal that is in the tree `before`. -/
def HoldsResults (run : TransformRun) (before after : FileTree)
    (unit : WaveletEntry × InputEntry) : Prop :=
  ∃ w mode signal, unit.1.wavelet = .ok w ∧ unit.1.boundaryMode = .ok mode ∧
    before.run (Artifact.readTensor (run.signalPath unit) unit.2.shape) = (.ok signal, before) ∧
    ∀ suffix ∈ unit.2.suffixes, ∃ values, run.engine.Yields w mode signal suffix values ∧
      after.read (run.resultPath unit suffix) = .ok (Artifact.encode values)

/-! ### One unit -/

/-- The results of a unit come from its entries and its signal, and leave the tree as it is. -/
lemma unitResults_eq_ok {results : List (Suffix × List Binary64)}
    (h : before.run (run.unitResults unit.1 unit.2) = (.ok results, after)) :
    ∃ w mode signal, unit.1.wavelet = .ok w ∧ unit.1.boundaryMode = .ok mode ∧
      before.run (Artifact.readTensor (run.signalPath unit) unit.2.shape) = (.ok signal, before) ∧
      run.engine.results w mode signal = .ok results ∧ after = before := by
  obtain ⟨w, hwavelet, h⟩ := FileTree.run_ofResult_bind_eq_ok_iff.mp h
  obtain ⟨mode, hmode, h⟩ := FileTree.run_ofResult_bind_eq_ok_iff.mp h
  obtain ⟨signal, between, hsignal, hresults⟩ := FileTree.run_bind_eq_ok_iff.mp h
  obtain ⟨rfl, -⟩ := Artifact.run_readTensor_eq_ok_iff.mp hsignal
  rw [FileTree.run_ofResult, Prod.mk.injEq] at hresults
  exact ⟨w, mode, signal, hwavelet, hmode, hsignal, hresults.1, hresults.2.symm⟩

/-- Results that end up stored can be read, and no other file has changed. -/
lemma writeResults_eq_ok {results : List (Suffix × List Binary64)}
    (hnodup : (results.map Prod.fst).Nodup)
    (h : before.run (run.writeResults unit.1 unit.2 results) = (.ok (), after)) :
    ChangesOnly (fun l => ∃ suffix ∈ results.map Prod.fst, l = (run.resultPath unit suffix).place)
        before after ∧
      ∀ result ∈ results,
        after.read (run.resultPath unit result.1) = .ok (Artifact.encode result.2) := by
  induction results generalizing before with
  | nil =>
    cases h
    exact ⟨.refl _ _, by simp⟩
  | cons result results ih =>
    obtain ⟨⟨⟩, between, hfirst, hrest⟩ := FileTree.run_bind_eq_ok_iff.mp h
    rw [List.map_cons, List.nodup_cons] at hnodup
    obtain ⟨hchanges, hread⟩ := ih hnodup.2 hrest
    have hstored := FileTree.read_writeBytes hfirst
    constructor
    · refine ((FileTree.changesOnly_writeBytes hfirst).mono ?_).trans (hchanges.mono ?_)
      · rintro l rfl
        exact ⟨result.1, by simp, rfl⟩
      · rintro l ⟨suffix, hsuffix, rfl⟩
        exact ⟨suffix, by simp [hsuffix], rfl⟩
    · rw [List.forall_mem_cons]
      refine ⟨hchanges.read ?_ hstored, hread⟩
      rintro ⟨suffix, hsuffix, hplace⟩
      refine Artifact.place_path_ne _ _ _ ?_ hplace
      rintro rfl
      exact hnodup.1 hsuffix

/-- A unit that ends well has stored what its engine has found for its signal. -/
lemma exists_results_of_runUnit {files : Nat}
    (h : before.run (run.runUnit unit.1 unit.2) = (.ok files, after)) :
    ∃ w mode signal results, unit.1.wavelet = .ok w ∧ unit.1.boundaryMode = .ok mode ∧
      before.run (Artifact.readTensor (run.signalPath unit) unit.2.shape) = (.ok signal, before) ∧
      run.engine.results w mode signal = .ok results ∧ files = results.length ∧
      results.map Prod.fst = unit.2.suffixes ∧ ChangesOnly (run.IsResultPlace unit) before after ∧
      ∀ result ∈ results,
        after.read (run.resultPath unit result.1) = .ok (Artifact.encode result.2) := by
  obtain ⟨results, between, hunit, h⟩ := FileTree.run_bind_eq_ok_iff.mp h
  obtain ⟨⟨⟩, _, hwrite, hfiles⟩ := FileTree.run_bind_eq_ok_iff.mp h
  cases hfiles
  obtain ⟨w, mode, signal, hwavelet, hmode, hsignal, hresults, rfl⟩ := unitResults_eq_ok hunit
  obtain ⟨-, hshape, -⟩ := Artifact.run_readTensor_eq_ok_iff.mp hsignal
  have hkinds := (Engine.results_eq_ok hresults).1
  rw [Tensor.dimensions, hshape, ← InputEntry.suffixes] at hkinds
  obtain ⟨hchanges, hread⟩ := writeResults_eq_ok (hkinds ▸ unit.2.nodup_suffixes) hwrite
  rw [hkinds] at hchanges
  exact ⟨w, mode, signal, results, hwavelet, hmode, hsignal, hresults, rfl, hkinds, hchanges, hread⟩

/-- **A unit that ends well** holds the results of its signal, has told their number and has
changed no other file. -/
lemma runUnit_eq_ok {files : Nat}
    (h : before.run (run.runUnit unit.1 unit.2) = (.ok files, after)) :
    files = unit.2.suffixes.length ∧ run.HoldsResults before after unit ∧
      ChangesOnly (run.IsResultPlace unit) before after := by
  obtain ⟨w, mode, signal, results, hwavelet, hmode, hsignal, hresults, rfl, hkinds, hchanges,
    hread⟩ := exists_results_of_runUnit h
  refine ⟨by rw [← hkinds, List.length_map], ⟨w, mode, signal, hwavelet, hmode, hsignal, ?_⟩,
    hchanges⟩
  intro suffix hsuffix
  rw [← hkinds, List.mem_map] at hsuffix
  obtain ⟨result, hmem, rfl⟩ := hsuffix
  exact ⟨result.2, (Engine.results_eq_ok hresults).2 result hmem, hread result hmem⟩

/-! ### Units one after the other -/

lemma HoldsResults.of_read (h : run.HoldsResults before between unit)
    (hkept : ∀ suffix ∈ unit.2.suffixes, ∀ content,
      between.read (run.resultPath unit suffix) = .ok content →
        after.read (run.resultPath unit suffix) = .ok content) :
    run.HoldsResults before after unit := by
  obtain ⟨w, mode, signal, hwavelet, hmode, hsignal, hresults⟩ := h
  refine ⟨w, mode, signal, hwavelet, hmode, hsignal, fun suffix hsuffix => ?_⟩
  obtain ⟨values, hyields, hread⟩ := hresults suffix hsuffix
  exact ⟨values, hyields, hkept suffix hsuffix _ hread⟩

lemma HoldsResults.later {places : Location → Prop} (h : run.HoldsResults before between unit)
    (hchanges : ChangesOnly places between after)
    (hplaces : ∀ l, run.IsResultPlace unit l → ¬places l) : run.HoldsResults before after unit :=
  h.of_read fun suffix hsuffix _ hread => hchanges.read (hplaces _ ⟨suffix, hsuffix, rfl⟩) hread

/-- The way to the signal of a unit that holds its results. -/
lemma HoldsResults.locate (h : run.HoldsResults before after unit) :
    before.locate (run.signalPath unit) = .ok (run.signalPath unit).place := by
  obtain ⟨w, mode, signal, -, -, hsignal, -⟩ := h
  obtain ⟨-, -, content, hread, -⟩ := Artifact.run_readTensor_eq_ok_iff.mp hsignal
  exact (FileTree.read_eq_ok_iff.mp hread).1

/-- Results for a signal that was there before are results for that signal, if there was a way
to the signal of another unit. -/
lemma HoldsResults.earlier {places : Location → Prop} {other : WaveletEntry × InputEntry}
    (h : run.HoldsResults between after unit) (hchanges : ChangesOnly places before between)
    (hplaces : ¬places (run.signalPath unit).place)
    (hother : before.locate (run.signalPath other) = .ok (run.signalPath other).place)
    (hname : Path.separator ∉ unit.2.name.toList) (hname' : Path.separator ∉ other.2.name.toList) :
    run.HoldsResults before after unit := by
  have hlocate := FileTree.locate_sibling hname' hname hother
    (FileTree.locate_eq_ok_iff.mp h.locate).1
  obtain ⟨w, mode, signal, hwavelet, hmode, hsignal, hresults⟩ := h
  refine ⟨w, mode, signal, hwavelet, hmode, ?_, hresults⟩
  rw [Artifact.run_readTensor_eq_ok_iff] at hsignal ⊢
  obtain ⟨-, hshape, content, hread, hvalues⟩ := hsignal
  exact ⟨rfl, hshape, content, hchanges.read_before hplaces hlocate hread, hvalues⟩

/-- One more unit of a run. -/
def addUnit (run : TransformRun) (summary : RunSummary) (unit : WaveletEntry × InputEntry) :
    StoreM (StateM FileTree) RunSummary := do
  let files ← run.runUnit unit.1 unit.2
  return ⟨summary.units + 1, summary.files + files⟩

/-- **Units that are taken one after the other.**  If no unit touches a signal, then a unit
holds the results of the signal that was there before the first unit, unless a unit after it
has results at the same places; and no other file has changed. -/
lemma runUnits_eq_ok {units : List (WaveletEntry × InputEntry)} {start summary : RunSummary}
    (hsignals : ∀ unit ∈ units, ∀ unit' ∈ units,
      ¬run.IsResultPlace unit (run.signalPath unit').place)
    (hnames : ∀ unit ∈ units, Path.separator ∉ unit.2.name.toList)
    (h : before.run (units.foldlM run.addUnit start) = (.ok summary, after)) :
    summary = ⟨start.units + units.length,
        start.files + (units.map fun unit => unit.2.suffixes.length).sum⟩ ∧
      (∀ front unit back, units = front ++ unit :: back →
        (∀ unit' ∈ back, run.Apart unit unit') → run.HoldsResults before after unit) ∧
      ChangesOnly (fun l => ∃ unit ∈ units, run.IsResultPlace unit l) before after := by
  induction units generalizing before start with
  | nil =>
    cases h
    exact ⟨rfl, by simp, .refl _ _⟩
  | cons first rest ih =>
    rw [List.foldlM_cons, FileTree.run_bind_eq_ok_iff] at h
    obtain ⟨between, middle, hfirst, hrest⟩ := h
    obtain ⟨files, _, hunit, hsum⟩ := FileTree.run_bind_eq_ok_iff.mp hfirst
    cases hsum
    obtain ⟨rfl, hholds, hchanges⟩ := runUnit_eq_ok hunit
    rw [List.forall_mem_cons] at hnames
    obtain ⟨rfl, hholdsRest, hchangesRest⟩ := ih
      (fun unit hunit unit' hunit' => hsignals unit (.tail _ hunit) unit' (.tail _ hunit'))
      hnames.2 hrest
    refine ⟨?_, ?_, ?_⟩
    · simp only [List.length_cons, List.map_cons, List.sum_cons, RunSummary.mk.injEq]
      omega
    · intro front unit back hunits hapart
      cases front with
      | nil =>
        -- the first unit: the units after it leave its results alone
        obtain ⟨rfl, rfl⟩ : first = unit ∧ rest = back := by simpa using hunits
        refine hholds.later hchangesRest ?_
        rintro l hl ⟨unit', hmem, hplace⟩
        exact hapart unit' hmem l hl hplace
      | cons _ front =>
        -- a unit of the rest: the first unit has left its signal alone
        obtain ⟨-, rfl⟩ : _ ∧ rest = front ++ unit :: back := by simpa using hunits
        have hmem : unit ∈ front ++ unit :: back := by simp
        exact (hholdsRest front unit back rfl hapart).earlier hchanges
          (hsignals first List.mem_cons_self unit (.tail _ hmem)) hholds.locate
          (hnames.2 unit hmem) hnames.1
    · refine (hchanges.mono ?_).trans (hchangesRest.mono ?_)
      · exact fun l hl => ⟨first, List.mem_cons_self, hl⟩
      · rintro l ⟨unit, hmem, hplace⟩
        exact ⟨unit, .tail _ hmem, hplace⟩

/-! ### All units of an experiment -/

lemma mem_units {config : Config} :
    unit ∈ config.units ↔ unit.1 ∈ config.wavelets ∧ unit.2 ∈ config.inputs :=
  List.mem_product

/-- **The last unit of its names keeps its results.**  In a run that ends well, and that stores
nothing at the place of a signal, a unit holds its results at the end if no unit after it has
the names of both of its entries. -/
theorem runAll_keeps_last {config : Config} {summary : RunSummary} (hnames : config.NamesEntries)
    (hsignals : ∀ unit ∈ config.units, ∀ suffix ∈ unit.2.suffixes, ∀ input ∈ config.inputs,
      (run.resultPath unit suffix).place ≠ (input.signalPath run.input).place)
    (h : before.run (run.runAll config) = (.ok summary, after)) :
    summary = ⟨config.units.length, (config.units.map fun unit => unit.2.suffixes.length).sum⟩ ∧
      (∀ front unit back, config.units = front ++ unit :: back →
        (∀ unit' ∈ back, (unit'.1.name, unit'.2.name) ≠ (unit.1.name, unit.2.name)) →
        run.HoldsResults before after unit) ∧
      ChangesOnly (fun l => ∃ unit ∈ config.units, run.IsResultPlace unit l) before after := by
  have hunits : run.runAll config = config.units.foldlM run.addUnit ⟨0, 0⟩ := rfl
  rw [hunits] at h
  obtain ⟨rfl, hholds, hchanges⟩ := runUnits_eq_ok
    (fun unit hunit unit' hunit' ⟨suffix, hsuffix, hplace⟩ =>
      hsignals unit hunit suffix hsuffix unit'.2 (mem_units.mp hunit').2 hplace.symm)
    (fun unit hunit => Path.separator_notMem_of_isFileName
      (hnames.input _ (mem_units.mp hunit).2)) h
  refine ⟨by simp only [Nat.zero_add], fun front unit back hsplit hlast => ?_, hchanges⟩
  refine hholds front unit back hsplit fun unit' hunit' => ?_
  rintro l ⟨suffix, -, rfl⟩ ⟨suffix', -, hplace⟩
  have hmem := mem_units.mp (show unit ∈ config.units by simp [hsplit])
  have hmem' := mem_units.mp (show unit' ∈ config.units by simp [hsplit, hunit'])
  obtain ⟨hinput, hwavelet, -⟩ := Artifact.place_path_injective (hnames.input _ hmem.2)
    (hnames.input _ hmem'.2) (hnames.wavelet _ hmem.1) (hnames.wavelet _ hmem'.1) hplace
  exact hlast unit' hunit' (by rw [hinput, hwavelet])

lemma nodup_names_units {config : Config} (hwavelets : (config.wavelets.map (·.name)).Nodup)
    (hinputs : (config.inputs.map (·.name)).Nodup) :
    (config.units.map fun unit => (unit.1.name, unit.2.name)).Nodup := by
  refine (hwavelets.of_map.product hinputs.of_map).map_on ?_
  intro unit hunit unit' hunit' hnames
  rw [Prod.mk.injEq] at hnames
  exact Prod.ext
    (List.inj_on_of_nodup_map hwavelets (mem_units.mp hunit).1 (mem_units.mp hunit').1 hnames.1)
    (List.inj_on_of_nodup_map hinputs (mem_units.mp hunit).2 (mem_units.mp hunit').2 hnames.2)

/-- **A run that ends well.**  Let the wavelets of an experiment have different names, and its
inputs, and let no result be stored at the place of a signal.  Then a run that ends well has
done every unit once and has told the number of files; every unit holds the results of the
signal that was there before the run; and no file has changed but those of the results. -/
theorem runAll_eq_ok {config : Config} {summary : RunSummary} (hnames : config.NamesEntries)
    (hwavelets : (config.wavelets.map (·.name)).Nodup)
    (hinputs : (config.inputs.map (·.name)).Nodup)
    (hsignals : ∀ unit ∈ config.units, ∀ suffix ∈ unit.2.suffixes, ∀ input ∈ config.inputs,
      (run.resultPath unit suffix).place ≠ (input.signalPath run.input).place)
    (h : before.run (run.runAll config) = (.ok summary, after)) :
    summary.units = config.wavelets.length * config.inputs.length ∧
      summary.files
        = (config.units.map fun unit => if unit.2.shape.length = 1 then 3 else 5).sum ∧
      (∀ wavelet ∈ config.wavelets, ∀ input ∈ config.inputs,
        run.HoldsResults before after (wavelet, input)) ∧
      ∀ l content,
        (∀ unit ∈ config.units, ∀ suffix ∈ unit.2.suffixes,
          l ≠ (run.resultPath unit suffix).place) →
        (after.lookup l = some (.file content) ↔ before.lookup l = some (.file content)) := by
  obtain ⟨rfl, hholds, hchanges⟩ := runAll_keeps_last hnames hsignals h
  refine ⟨?_, ?_, ?_, ?_⟩
  · exact List.length_product _ _
  · simp only [InputEntry.length_suffixes]
  · intro wavelet hwavelet input hinput
    obtain ⟨front, back, hsplit⟩ := List.append_of_mem
      (show (wavelet, input) ∈ config.units from mem_units.mpr ⟨hwavelet, hinput⟩)
    have hnodup := nodup_names_units hwavelets hinputs
    rw [hsplit, List.map_append, List.map_cons] at hnodup
    refine hholds front _ back hsplit fun unit' hunit' hsame => ?_
    exact (List.nodup_cons.mp hnodup.of_append_right).1 (List.mem_map.mpr ⟨unit', hunit', hsame⟩)
  · intro l content hl
    refine hchanges.file l content ?_
    rintro ⟨unit, hunit, suffix, hsuffix, rfl⟩
    exact hl unit hunit suffix hsuffix rfl

/-- Runs of the filter bank in double precision. -/
def reference : TransformRun where
  engine := .of .convolution .binary64
  input := .ofString "in"
  output := .ofString "out"

/-- The signals of an experiment with two wavelets and two inputs. -/
def quartetSignals : FileTree where
  entries := [
    (["in"], .directory),
    (["first", "in"], .file (Artifact.encode [1.0, 2.0, 3.0, 4.0])),
    (["second", "in"], .file (Artifact.encode [1.0, 2.0, 3.0, 4.0]))]

theorem runAll_eq_ok_quartet :
    ∃ after, quartetSignals.run (reference.runAll .quartet) = (.ok ⟨4, 16⟩, after) ∧
      (∀ wavelet ∈ Config.quartet.wavelets, ∀ input ∈ Config.quartet.inputs,
        reference.HoldsResults quartetSignals after (wavelet, input)) ∧
      after.lookup ["first", "in"] = some (.file (Artifact.encode [1.0, 2.0, 3.0, 4.0])) := by
  have hresult : (quartetSignals.run (reference.runAll .quartet)).1 = .ok ⟨4, 16⟩ := by
    decide +kernel
  have hsignals : ∀ unit ∈ Config.quartet.units, ∀ suffix ∈ unit.2.suffixes,
      ∀ input ∈ Config.quartet.inputs,
        (reference.resultPath unit suffix).place ≠ (input.signalPath reference.input).place := by
    decide +kernel
  have hother : ∀ unit ∈ Config.quartet.units, ∀ suffix ∈ unit.2.suffixes,
      ["first", "in"] ≠ (reference.resultPath unit suffix).place := by
    decide +kernel
  rcases h : quartetSignals.run (reference.runAll .quartet) with ⟨result, after⟩
  rw [h] at hresult
  obtain rfl : result = .ok ⟨4, 16⟩ := hresult
  obtain ⟨-, -, hholds, hkept⟩ :=
    runAll_eq_ok ⟨by decide, by decide⟩ (by decide) (by decide) hsignals h
  exact ⟨after, rfl, hholds, (hkept _ _ hother).mpr rfl⟩

end TransformRun

end WaveletPrecision
