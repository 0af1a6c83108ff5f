import WaveletPrecision.Proofs.Experiment.TransformRun

/-
What a run of the transform stage that fails leaves behind.

The results of a unit are all there before the first of them is stored, and finding them only
reads (`TransformRun.unitResults_snd`).  So a unit fails in one of two ways
(`TransformRun.runUnit_eq_error`): it has no results, and then the tree is as it was; or it
cannot store one of them (`TransformRun.StopsStoring`), and then those before it, in the order
of their kinds, are stored.  Of the one that could not be stored nothing is in the tree, or, where
the write was broken off, its first bytes are (`TransformRun.StopsAt`).  No other file has changed.

A run that fails has taken the units before the failing one as a run of these alone does
(`TransformRun.runAll_eq_error`).
-/
namespace WaveletPrecision

namespace TransformRun

open FileTree (ChangesOnly FailsToStore)

variable {run : TransformRun} {before between after : FileTree}
  {unit : WaveletEntry × InputEntry} {e : Error}

/-- The tree `after` holds results of some kinds of a unit, for the signal that is in the tree
`before`.  With all kinds of the unit this is `HoldsResults`. -/
def HoldsKinds (run : TransformRun) (before after : FileTree) (unit : WaveletEntry × InputEntry)
    (kinds : List Suffix) : Prop :=
  ∃ w mode signal, unit.1.wavelet = .ok w ∧ unit.1.boundaryMode = .ok mode ∧
    before.run (Artifact.readTensor (run.signalPath unit) unit.2.shape) = (.ok signal, before) ∧
    ∀ suffix ∈ kinds, ∃ values, run.engine.Yields w mode signal suffix values ∧
      after.read (run.resultPath unit suffix) = .ok (Artifact.encode values)

/-- The tree `after` holds the first bytes of the result of a kind of a unit, for the signal that is
in the tree `before`. -/
def HoldsStart (run : TransformRun) (before after : FileTree) (unit : WaveletEntry × InputEntry)
    (suffix : Suffix) : Prop :=
  ∃ w mode signal values n, unit.1.wavelet = .ok w ∧ unit.1.boundaryMode = .ok mode ∧
    before.run (Artifact.readTensor (run.signalPath unit) unit.2.shape) = (.ok signal, before) ∧
    run.engine.Yields w mode signal suffix values ∧
    after.read (run.resultPath unit suffix) = .ok ((Artifact.encode values).extract 0 n)

/-- A location is the place of a result of a unit of one of some kinds. -/
def IsPlaceOf (run : TransformRun) (unit : WaveletEntry × InputEntry) (kinds : List Suffix)
    (l : Location) : Prop :=
  ∃ kind ∈ kinds, l = (run.resultPath unit kind).place

/-- How a unit fails to store its result of a kind when it has stored those of some other kinds, and
which files have changed.  If the directory cannot be made, or the file cannot be created, then only
those of the stored results have; if writing to the file fails, then the first bytes of the result
are in it. -/
inductive StopsAt (run : TransformRun) (before after : FileTree)
    (unit : WaveletEntry × InputEntry) (stored : List Suffix) (suffix : Suffix) : Error → Prop where
  | directory {parent : Path} (fault : Fault)
      (hparent : (run.resultPath unit suffix).parent? = some parent)
      (hchanges : ChangesOnly (run.IsPlaceOf unit stored) before after) :
      StopsAt run before after unit stored suffix (.io .createDirectory parent fault)
  | create (fault : Fault) (hchanges : ChangesOnly (run.IsPlaceOf unit stored) before after) :
      StopsAt run before after unit stored suffix (.io .create (run.resultPath unit suffix) fault)
  | write (fault : Fault) (hstart : run.HoldsStart before after unit suffix)
      (hchanges : ChangesOnly (run.IsPlaceOf unit (stored ++ [suffix])) before after) :
      StopsAt run before after unit stored suffix (.io .write (run.resultPath unit suffix) fault)

/-- A unit has stored its results of the kinds before `suffix`, and has failed to store that one
with the error `e`. -/
structure StopsStoring (run : TransformRun) (before after : FileTree)
    (unit : WaveletEntry × InputEntry) (e : Error) (stored : List Suffix) (suffix : Suffix) :
    Prop where
  kinds : stored ++ [suffix] <+: unit.2.suffixes
  holds : run.HoldsKinds before after unit stored
  stops : run.StopsAt before after unit stored suffix e

/-! ### One unit -/

lemma unitResults_snd (run : TransformRun) (before : FileTree)
    (unit : WaveletEntry × InputEntry) :
    (before.run (run.unitResults unit.1 unit.2)).2 = before := by
  have hsignal : (before.run
      (Artifact.readTensor (run.signalPath unit) unit.2.shape)).2 = before := by
    rw [Artifact.run_readTensor]
  exact FileTree.snd_run_bind rfl fun _ => FileTree.snd_run_bind rfl fun _ =>
    FileTree.snd_run_bind hsignal fun _ => rfl

/-- Results of which one could not be stored: those before it are stored. -/
lemma writeResults_eq_error {results : List (Suffix × List Binary64)}
    (h : before.run (run.writeResults unit.1 unit.2 results) = (.error e, after)) :
    ∃ stored result rest between, results = stored ++ result :: rest ∧
      before.run (run.writeResults unit.1 unit.2 stored) = (.ok (), between) ∧
      FailsToStore (run.resultPath unit result.1) (Artifact.encode result.2) between after e := by
  induction results generalizing before with
  | nil => cases h
  | cons result results ih =>
    rcases FileTree.run_bind_eq_error_iff.mp h with hfirst | ⟨⟨⟩, between, hfirst, hrest⟩
    · exact ⟨[], result, results, before, rfl, rfl, FileTree.run_writeBytes_eq_error hfirst⟩
    · obtain ⟨stored, last, rest, between', rfl, hstored, hfails⟩ := ih hrest
      refine ⟨result :: stored, last, rest, between', rfl, ?_, hfails⟩
      exact FileTree.run_bind_eq_ok_iff.mpr ⟨(), between, hfirst, hstored⟩

/-- A failure to store one of the results of a unit, after those of some kinds are stored. -/
lemma stopsAt_of_failsToStore {w : Wavelet} {mode : BoundaryMode} {signal : Tensor Binary64}
    {stored : List Suffix} {suffix : Suffix} {values : List Binary64}
    (hwavelet : unit.1.wavelet = .ok w) (hmode : unit.1.boundaryMode = .ok mode)
    (hsignal : before.run (Artifact.readTensor (run.signalPath unit) unit.2.shape)
      = (.ok signal, before)) (hyields : run.engine.Yields w mode signal suffix values)
    (hstored : ChangesOnly (run.IsPlaceOf unit stored) before between)
    (hfails : FailsToStore (run.resultPath unit suffix) (Artifact.encode values) between after e) :
    run.StopsAt before after unit stored suffix e := by
  cases hfails with
  | directory fault hparent hchanges =>
    exact .directory fault hparent (hstored.trans (hchanges.mono fun _ => False.elim))
  | create fault hchanges => exact .create fault (hstored.trans (hchanges.mono fun _ => False.elim))
  | write fault hread hchanges =>
    refine .write fault ⟨w, mode, signal, values, _, hwavelet, hmode, hsignal, hyields, hread⟩
      ((hstored.mono ?_).trans (hchanges.mono ?_))
    · rintro l ⟨kind, hkind, rfl⟩
      exact ⟨kind, List.mem_append_left _ hkind, rfl⟩
    · rintro l rfl
      exact ⟨suffix, by simp, rfl⟩

/-- **A unit that fails** leaves the tree as it was, or has stored the results before the one
that it has failed to store. -/
lemma runUnit_eq_error (h : before.run (run.runUnit unit.1 unit.2) = (.error e, after)) :
    after = before ∨ ∃ stored suffix, run.StopsStoring before after unit e stored suffix := by
  rcases FileTree.run_bind_eq_error_iff.mp h with hunit | ⟨results, between, hunit, hrest⟩
  · left
    rw [← run.unitResults_snd before unit, hunit]
  · right
    obtain ⟨w, mode, signal, hwavelet, hmode, hsignal, hresults, rfl⟩ := unitResults_eq_ok hunit
    obtain ⟨-, hshape, -⟩ := Artifact.run_readTensor_eq_ok_iff.mp hsignal
    obtain ⟨hkinds, hyields⟩ := Engine.results_eq_ok hresults
    rw [Tensor.dimensions, hshape, ← InputEntry.suffixes] at hkinds
    have hwrite : between.run (run.writeResults unit.1 unit.2 results) = (.error e, after) := by
      rcases FileTree.run_bind_eq_error_iff.mp hrest with hwrite | ⟨_, _, _, hreturn⟩
      · exact hwrite
      · cases hreturn
    obtain ⟨stored, result, rest, middle, rfl, hstored, hfails⟩ := writeResults_eq_error hwrite
    have hpart : stored.map Prod.fst ++ [result.1] <+: unit.2.suffixes :=
      ⟨rest.map Prod.fst, by rw [← hkinds]; simp⟩
    have hnodup := unit.2.nodup_suffixes.sublist hpart.sublist
    obtain ⟨hchanges, hread⟩ := writeResults_eq_ok hnodup.of_append_left hstored
    refine ⟨stored.map Prod.fst, result.1, hpart, ?_, stopsAt_of_failsToStore hwavelet hmode hsignal
      (hyields result (by simp)) hchanges hfails⟩
    refine ⟨w, mode, signal, hwavelet, hmode, hsignal, fun suffix hsuffix => ?_⟩
    have hother : suffix ≠ result.1 := fun heq =>
      (List.nodup_append.mp hnodup).2.2 suffix hsuffix result.1 (by simp) heq
    obtain ⟨last, hlast, rfl⟩ := List.mem_map.mp hsuffix
    exact ⟨last.2, hyields last (List.mem_append_left _ hlast),
      hfails.changesOnly.read (Artifact.place_path_ne _ _ _ hother) (hread last hlast)⟩

/-! ### A whole run -/

/-- **A run that fails** fails at the first of its units that fails on the tree that the units
before it have left: a run of these units alone ends well.  What that run leaves is what the
failed run leaves, unless the failure is that a result of the failing unit could not be stored.
Then the results of that unit before it, in the order of their kinds, have been stored as well, and
if it was created but not written to the end, then its first bytes are in its file; no other file
has changed. -/
theorem runAll_eq_error {config : Config}
    (h : before.run (run.runAll config) = (.error e, after)) :
    ∃ front unit back summary between, config.units = front ++ unit :: back ∧
      before.run (run.runUnits front) = (.ok summary, between) ∧
      between.run (run.runUnit unit.1 unit.2) = (.error e, after) ∧
      (after = between ∨ ∃ stored suffix, run.StopsStoring between after unit e stored suffix) := by
  have hunits : run.runAll config = config.units.foldlM run.addUnit ⟨0, 0⟩ := rfl
  rw [hunits] at h
  obtain ⟨front, unit, back, summary, between, hsplit, hfront, hfails⟩ :=
    FileTree.run_foldlM_eq_error h
  have hunit : between.run (run.runUnit unit.1 unit.2) = (.error e, after) := by
    rcases FileTree.run_bind_eq_error_iff.mp hfails with hunit | ⟨_, _, _, hreturn⟩
    · exact hunit
    · cases hreturn
  exact ⟨front, unit, back, summary, between, hsplit, hfront, hunit, runUnit_eq_error hunit⟩

/-- The signals of an experiment, with a directory at the place of the second result. -/
def blockedSignals : FileTree where
  entries := quartetSignals.entries ++ [
    (["out"], .directory),
    (["first", "out"], .directory),
    (["short_h_fwd", "first", "out"], .directory)]

/-- The signals of an experiment, on a device that is full three bytes into the second result. -/
def crampedSignals : FileTree where
  entries := quartetSignals.entries
  interruptions := [none, some ⟨3, .other "No space left on device (os error 28)"⟩]

/-- The first unit of an experiment fails at its second result, which cannot be created in one of
the trees, and cannot be written to the end in the other. -/
theorem runAll_eq_error_first :
    let unit : WaveletEntry × InputEntry := (⟨"short", "haar", "symmetric"⟩, ⟨"first", [4], 1.0⟩)
    let path : Path := .ofString "out/first/short_h_fwd"
    let noSpace : Fault := .other "No space left on device (os error 28)"
    (∃ after stored suffix,
      blockedSignals.run (reference.runAll .quartet)
        = (.error (.io .create path .isADirectory), after) ∧
      reference.StopsStoring blockedSignals after unit (.io .create path .isADirectory)
        stored suffix) ∧
    ∃ after stored suffix,
      crampedSignals.run (reference.runAll .quartet) = (.error (.io .write path noSpace), after) ∧
      reference.StopsStoring crampedSignals after unit (.io .write path noSpace) stored suffix := by
  intro unit path noSpace
  -- the first unit fails, so no unit is before the failing one
  have hfirst : ∀ {tree : FileTree} {e : Error},
      (tree.run (reference.runAll .quartet)).1 = .error e →
      (tree.run (reference.runUnit unit.1 unit.2)).1.toOption = none →
      ((tree.run (reference.runAll .quartet)).2.lookup ["short_l_fwd", "first", "out"]).isSome
        ≠ (tree.lookup ["short_l_fwd", "first", "out"]).isSome →
      ∃ after stored suffix, tree.run (reference.runAll .quartet) = (.error e, after) ∧
        reference.StopsStoring tree after unit e stored suffix := by
    intro tree e hresult hunit hleft
    obtain ⟨after, h⟩ := FileTree.exists_run_eq hresult
    rw [h] at hleft
    obtain ⟨front, last, back, summary, between, hsplit, hfront, -, hafter⟩ := runAll_eq_error h
    cases front with
    | cons unit' front =>
      obtain ⟨rfl, -⟩ : unit = unit' ∧ _ := List.cons.inj hsplit
      obtain ⟨_, _, hsum, -⟩ := FileTree.run_bind_eq_ok_iff.mp hfront
      obtain ⟨_, _, hdone, -⟩ := FileTree.run_bind_eq_ok_iff.mp hsum
      rw [hdone] at hunit
      cases hunit
    | nil =>
      obtain ⟨rfl, -⟩ : unit = last ∧ _ := List.cons.inj hsplit
      cases hfront
      rcases hafter with rfl | ⟨stored, suffix, hstops⟩
      · exact absurd rfl hleft
      · exact ⟨after, stored, suffix, h, hstops⟩
  exact ⟨hfirst (by decide +kernel) (by decide +kernel) (by decide +kernel),
    hfirst (by decide +kernel) (by decide +kernel) (by decide +kernel)⟩

end TransformRun

end WaveletPrecision
