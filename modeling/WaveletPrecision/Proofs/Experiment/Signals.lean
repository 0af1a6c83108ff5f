import WaveletPrecision.Experiment.Signals
import WaveletPrecision.Proofs.Experiment.Layout
import WaveletPrecision.Proofs.Storage.Creation

/-
Storing the signals of an experiment.

A signal has as many values as are counted for its input (`InputEntry.length_signal`), whatever the
source.  These are all samples of the input, if a word can count them (`InputEntry.Countable`).
The signals of inputs with different names are stored one after the other in files of their own,
so all of them can be read when the last one is stored (`generateSignals_eq_ok`).
-/
namespace WaveletPrecision

open FileTree (ChangesOnly Plan)

/-! ### The length of a signal -/

/-- The samples of an input are so few that a word can count them. -/
def InputEntry.Countable (entry : InputEntry) : Prop := entry.shape.prod < wordCount

instance (entry : InputEntry) : Decidable entry.Countable :=
  inferInstanceAs (Decidable (entry.shape.prod < wordCount))

variable {S : Type} [RandomSource S]

lemma InputEntry.length_signal (entry : InputEntry) (source : S) :
    (entry.signal source).1.length = entry.size :=
  RandomSource.length_collect _ _ _

/-! ### The files of the signals -/

/-- A tree holds a signal of the right length for an input. -/
def InputEntry.HasSignal (entry : InputEntry) (directory : Path) (tree : FileTree) : Prop :=
  ∃ values, values.length = entry.size ∧
    tree.read (entry.signalPath directory) = .ok (Artifact.encode values)

lemma InputEntry.HasSignal.later {entry : InputEntry} {directory : Path} {before after : FileTree}
    {places : Location → Prop} (h : entry.HasSignal directory before)
    (hchanges : ChangesOnly places before after)
    (hplaces : ¬places (entry.signalPath directory).place) : entry.HasSignal directory after := by
  obtain ⟨values, hlength, hread⟩ := h
  exact ⟨values, hlength, hchanges.read hplaces hread⟩

/-- What has to be known about inputs and a directory so that the signals can be stored at places
for files. -/
structure SignalsFit (plan : Plan) (directory : Path) (inputs : List InputEntry) : Prop where
  named : directory.IsNamed
  names : ∀ entry ∈ inputs, Path.isFileName entry.name = true
  nodup : (inputs.map (·.name)).Nodup
  accepted : ∀ entry ∈ inputs, (entry.signalPath directory).Accepted
  places : ∀ entry ∈ inputs, plan.files (entry.name :: directory.place)

/-- Signals are stored one after the other, and stay when those after them are stored. -/
lemma writeSignals_eq_ok {plan : Plan} {directory : Path} {inputs : List InputEntry}
    (h : SignalsFit plan directory inputs) {tree : FileTree} (htree : plan.Holds tree)
    (source : S) :
    ∃ after, tree.run (writeSignals directory inputs source)
        = (.ok (inputs.map (·.signalPath directory)), after) ∧
      plan.Holds after ∧ (∀ entry ∈ inputs, entry.HasSignal directory after) ∧
      ChangesOnly (fun l => ∃ entry ∈ inputs, l = entry.name :: directory.place) tree after := by
  induction inputs generalizing tree source with
  | nil => exact ⟨tree, rfl, htree, by simp, .refl _ _⟩
  | cons entry rest ih =>
    obtain ⟨hnamed, hnames, hnodup, haccepted, hplaces⟩ := h
    rw [List.map_cons, List.nodup_cons] at hnodup
    simp only [List.forall_mem_cons] at hnames haccepted hplaces
    have hplace := entry.place_signalPath hnames.1 directory
    obtain ⟨between, hfirst, hbetween⟩ := htree.writeBytes hnamed hnames.1 haccepted.1 hplaces.1
      (Artifact.encode (entry.signal source).1)
    obtain ⟨after, hrest, hafter, hsignals, hchanges⟩ :=
      ih ⟨hnamed, hnames.2, hnodup.2, haccepted.2, hplaces.2⟩ hbetween (entry.signal source).2
    have hfirstChanges := FileTree.changesOnly_writeBytes hfirst
    refine ⟨after, ?_, hafter, ?_, ?_⟩
    · exact FileTree.run_bind_eq_ok_iff.mpr ⟨(), between, hfirst,
        FileTree.run_bind_eq_ok_iff.mpr ⟨_, after, hrest, rfl⟩⟩
    · rw [List.forall_mem_cons]
      refine ⟨?_, hsignals⟩
      have hstored : entry.HasSignal directory between :=
        ⟨_, entry.length_signal source, FileTree.read_writeBytes hfirst⟩
      refine hstored.later hchanges ?_
      rintro ⟨entry', hentry', heq⟩
      rw [hplace, List.cons.injEq] at heq
      exact hnodup.1 (List.mem_map.mpr ⟨entry', hentry', heq.1.symm⟩)
    · refine (hfirstChanges.mono ?_).trans (hchanges.mono ?_)
      · rintro l rfl
        exact ⟨entry, List.mem_cons_self, hplace⟩
      · rintro l ⟨entry', hentry', rfl⟩
        exact ⟨entry', .tail _ hentry', rfl⟩

/-- **The signals of an experiment** are stored in a directory that is made for them, and all of
them can be read afterwards. -/
lemma generateSignals_eq_ok {plan : Plan} {directory : Path} {inputs : List InputEntry}
    (h : SignalsFit plan directory inputs) (haccepted : directory.Accepted)
    (hplace : plan.directories directory.place) {tree : FileTree} (htree : plan.Holds tree)
    (source : S) :
    ∃ after, tree.run (generateSignals inputs directory source)
        = (.ok (inputs.map (·.signalPath directory)), after) ∧
      plan.Holds after ∧ ∀ entry ∈ inputs, entry.HasSignal directory after := by
  obtain ⟨between, hmade, hbetween⟩ := htree.createDirectories h.named haccepted hplace
  obtain ⟨after, hstored, hafter, hsignals, -⟩ := writeSignals_eq_ok h hbetween source
  exact ⟨after, FileTree.run_bind_eq_ok_iff.mpr ⟨(), between, hmade, hstored⟩, hafter, hsignals⟩

end WaveletPrecision
