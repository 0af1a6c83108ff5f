import Mathlib.Data.List.Nodup
import WaveletPrecision.Experiment.TransformRun
import WaveletPrecision.Proofs.Storage.Artifact

/-
The files of an experiment.

A valid experiment has names that can name entries of directories
(`Config.validate_eq_ok_iff`).  If the entries also have different names, then no two signals
and no two results of the experiment share a file (`Config.places_apart`).

Every entry is checked by itself, so that they have different names is not checked.  Two
wavelet entries of one name are valid, and each of them has the paths of the other one
(`Config.twins_share_paths`), so that what is stored for one of them is lost when the results
of the other one are stored.
-/
namespace WaveletPrecision

/-! ### Valid names -/

namespace Config

variable {config : Config}

/-- The names of an experiment can name entries of directories. -/
structure NamesEntries (config : Config) : Prop where
  wavelet : ∀ wavelet ∈ config.wavelets, Path.isFileName wavelet.name = true
  input : ∀ input ∈ config.inputs, Path.isFileName input.name = true

lemma checkName_eq_ok_iff {kind name : String} :
    checkName kind name = .ok () ↔ Path.isFileName name = true := by
  rw [checkName]
  split <;> simp_all

lemma checkMagnitude_eq_ok_iff {entry : InputEntry} :
    checkMagnitude entry = .ok () ↔ entry.magnitude.isFinite = true := by
  rw [checkMagnitude]
  split <;> simp_all

/-- **A valid experiment** has names for entries of directories, and finite magnitudes. -/
lemma validate_eq_ok_iff :
    config.validate = .ok () ↔
      config.NamesEntries ∧ ∀ input ∈ config.inputs, input.magnitude.isFinite = true := by
  have hinput : ∀ input : InputEntry,
      (do checkName "input" input.name; checkMagnitude input) = .ok () ↔
        Path.isFileName input.name = true ∧ input.magnitude.isFinite = true := by
    intro input
    rw [check_bind_eq_ok_iff, checkName_eq_ok_iff, checkMagnitude_eq_ok_iff]
  have hvalid : config.validate = .ok () ↔
      (∀ wavelet ∈ config.wavelets, Path.isFileName wavelet.name = true) ∧
        ∀ input ∈ config.inputs,
          Path.isFileName input.name = true ∧ input.magnitude.isFinite = true := by
    rw [validate, check_bind_eq_ok_iff, forM_eq_ok_iff, forM_eq_ok_iff]
    simp only [checkName_eq_ok_iff, hinput]
  rw [hvalid]
  constructor
  · rintro ⟨hwavelets, hinputs⟩
    exact ⟨⟨hwavelets, fun input h => (hinputs input h).1⟩, fun input h => (hinputs input h).2⟩
  · rintro ⟨hnames, hfinite⟩
    exact ⟨hnames.wavelet, fun input h => ⟨hnames.input input h, hfinite input h⟩⟩

end Config

/-! ### Places -/

lemma InputEntry.place_signalPath {input : InputEntry} (h : Path.isFileName input.name = true)
    (directory : Path) : (input.signalPath directory).place = input.name :: directory.place :=
  Path.place_join_name directory h

/-- **Results have places of their own.**  If the entries of a valid experiment have different
names, then below any directory the paths of two results lead to different places, and so do
the paths of two signals. -/
theorem Config.places_apart {config : Config} (hvalid : config.validate = .ok ())
    (hwavelets : (config.wavelets.map (·.name)).Nodup)
    (hinputs : (config.inputs.map (·.name)).Nodup) (root : Path) :
    (∀ wavelet ∈ config.wavelets, ∀ input ∈ config.inputs, ∀ suffix,
      ∀ wavelet' ∈ config.wavelets, ∀ input' ∈ config.inputs, ∀ suffix',
        (wavelet, input, suffix) ≠ (wavelet', input', suffix') →
          (Artifact.path root input.name wavelet.name suffix).place
            ≠ (Artifact.path root input'.name wavelet'.name suffix').place) ∧
      ∀ input ∈ config.inputs, ∀ input' ∈ config.inputs, input ≠ input' →
        (input.signalPath root).place ≠ (input'.signalPath root).place := by
  obtain ⟨hnames, -⟩ := Config.validate_eq_ok_iff.mp hvalid
  constructor
  · intro wavelet hwavelet input hinput suffix wavelet' hwavelet' input' hinput' suffix' hne hplace
    obtain ⟨hsameInput, hsameWavelet, rfl⟩ := Artifact.place_path_injective
      (hnames.input _ hinput) (hnames.input _ hinput') (hnames.wavelet _ hwavelet)
      (hnames.wavelet _ hwavelet') hplace
    obtain rfl := List.inj_on_of_nodup_map hwavelets hwavelet hwavelet' hsameWavelet
    obtain rfl := List.inj_on_of_nodup_map hinputs hinput hinput' hsameInput
    exact hne rfl
  · intro input hinput input' hinput' hne hplace
    rw [input.place_signalPath (hnames.input _ hinput),
      input'.place_signalPath (hnames.input _ hinput'), List.cons.injEq] at hplace
    exact hne (List.inj_on_of_nodup_map hinputs hinput hinput' hplace.1)

/-- An experiment with two wavelets and two inputs. -/
def Config.quartet : Config where
  wavelets := [⟨"short", "haar", "symmetric"⟩, ⟨"long", "db2", "periodization"⟩]
  inputs := [⟨"first", [4], 1.0⟩, ⟨"second", [2, 2], 1.0⟩]
  comparisons := []

theorem Config.places_apart_quartet :
    (Artifact.path (.ofString "out") "first" "short" .approx).place
        ≠ (Artifact.path (.ofString "out") "first" "long" .approx).place ∧
      ((⟨"first", [4], 1.0⟩ : InputEntry).signalPath (.ofString "in")).place
        ≠ ((⟨"second", [2, 2], 1.0⟩ : InputEntry).signalPath (.ofString "in")).place :=
  have hvalid : Config.quartet.validate = .ok () := by decide
  have happart := fun root => Config.places_apart hvalid (by decide) (by decide) root
  ⟨(happart _).1 ⟨"short", "haar", "symmetric"⟩ (by decide) ⟨"first", [4], 1.0⟩ (by decide) _
      ⟨"long", "db2", "periodization"⟩ (by decide) ⟨"first", [4], 1.0⟩ (by decide) _ (by decide),
    (happart _).2 ⟨"first", [4], 1.0⟩ (by decide) ⟨"second", [2, 2], 1.0⟩ (by decide) (by decide)⟩

/-! ### Entries of one name -/

/-- An experiment with two wavelet entries of one name. -/
def Config.twins : Config where
  wavelets := [⟨"w", "haar", "symmetric"⟩, ⟨"w", "db2", "periodization"⟩]
  inputs := [⟨"s", [4], 1.0⟩]
  comparisons := []

/-- **Entries of one name are valid, and share their paths**: the results of the two wavelets
have the same paths below every directory. -/
theorem Config.twins_share_paths :
    twins.validate = .ok () ∧ ∃ wavelet ∈ twins.wavelets, ∃ wavelet' ∈ twins.wavelets,
      ∃ input ∈ twins.inputs, wavelet ≠ wavelet' ∧ ∀ root suffix,
        Artifact.path root input.name wavelet.name suffix
          = Artifact.path root input.name wavelet'.name suffix :=
  ⟨by decide, ⟨"w", "haar", "symmetric"⟩, by decide, ⟨"w", "db2", "periodization"⟩, by decide,
    ⟨"s", [4], 1.0⟩, by decide, by decide, fun _ _ => rfl⟩

end WaveletPrecision
