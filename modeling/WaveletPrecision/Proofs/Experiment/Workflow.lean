import Mathlib.Data.List.TakeWhile
import WaveletPrecision.Experiment.Workflow
import WaveletPrecision.Proofs.Storage.Path

/-
The commands of an experiment, as the program reads them.

An experiment hands its directories on as texts: the transforms read where the inputs were
generated, and a comparison names two directories of results in one text, with a separator
between them.  That text is cut at its first separator (`ComparisonPair.ofText?_text`), so the
two directories come back if and only if the first one has no separator in its text
(`ComparisonPair.ofText?_text_iff`).  All directories of an experiment are below one directory,
so what decides is the text of that directory (`Workflow.experiment_pairs_iff`).
-/
namespace WaveletPrecision

/-! ### Pairs as texts -/

namespace ComparisonPair

/-- The text of a pair is read as that pair, if the first directory has no separator in it. -/
lemma ofText?_text {pair : ComparisonPair} (hcompared : pair.compared.toString ≠ "")
    (hreference : pair.reference.toString ≠ "") (h : separator ∉ pair.compared.toString.toList) :
    ofText? pair.text
      = some ⟨.ofString pair.compared.toString, .ofString pair.reference.toString⟩ := by
  have htext : pair.text.toList
      = pair.compared.toString.toList ++ separator :: pair.reference.toString.toList := by
    simp [text]
  have hbefore : ∀ c ∈ pair.compared.toString.toList, decide (c ≠ separator) = true := by
    intro c hc
    exact decide_eq_true fun heq => h (heq ▸ hc)
  rw [ofText?, htext, List.takeWhile_append_of_pos hbefore, List.dropWhile_append_of_pos hbefore]
  simp [hcompared, hreference]

lemma separator_notMem_of_ofText? {s : String} {pair : ComparisonPair}
    (h : ofText? s = some pair) : separator ∉ pair.compared.toString.toList := by
  simp only [ofText?] at h
  split at h
  · split at h
    · cases h
    · cases h
      intro hmem
      rw [Path.toString_ofString, String.toList_ofList] at hmem
      simpa using List.mem_takeWhile_imp hmem
  · cases h

/-- **The text of a pair is read as that pair** if and only if the first directory has no
separator in it. -/
lemma ofText?_text_iff {pair : ComparisonPair} (hcompared : pair.compared.toString ≠ "")
    (hreference : pair.reference.toString ≠ "") :
    ofText? pair.text
        = some ⟨.ofString pair.compared.toString, .ofString pair.reference.toString⟩ ↔
      separator ∉ pair.compared.toString.toList := by
  refine ⟨fun h => ?_, ofText?_text hcompared hreference⟩
  simpa using separator_notMem_of_ofText? h

end ComparisonPair

namespace Workflow

/-! ### Options -/

/-- The values of an option among the arguments of a stage, in which every option is followed by
its value. -/
def optionValues (option : String) : List String → List String
  | name :: value :: rest =>
    if name = option then value :: optionValues option rest else optionValues option rest
  | _ => []

/-! ### Directories -/

lemma separator_notMem_resultsName (precision : Precision) :
    Path.separator ∉ (resultsName .convolution precision).toList ∧
      ComparisonPair.separator ∉ (resultsName .convolution precision).toList := by
  cases precision <;> decide

lemma separator_mem_outputDirectory_iff (data : String) (precision : Precision) :
    ComparisonPair.separator ∈ (outputDirectory (.ofString data) precision).toString.toList ↔
      ComparisonPair.separator ∈ data.toList := by
  obtain ⟨hname, hpair⟩ := separator_notMem_resultsName precision
  rw [outputDirectory, Path.mem_toString_join_name hname (by decide), Path.toString_ofString]
  simp [hpair]

lemma outputDirectory_ne_empty (data : Path) (precision : Precision) :
    (outputDirectory data precision).toString ≠ "" := by
  obtain ⟨hname, -⟩ := separator_notMem_resultsName precision
  have hmem : 'o' ∈ (outputDirectory data precision).toString.toList := by
    rw [outputDirectory, Path.mem_toString_join_name hname (by decide)]
    exact Or.inr (by cases precision <;> decide)
  intro hempty
  rw [hempty] at hmem
  cases hmem

/-! ### The commands -/

/-- **An experiment compares the directories that it wrote** if and only if the text of its
directory has no separator of pairs in it.  Whatever that text is, every transform reads the
directory in which the inputs were generated.  The two pairs that are given to the comparison
are read as the results in binary32 with those in binary64, and as the results in bfloat16 with
those in binary32, unless the separator is in the text. -/
theorem experiment_pairs_iff (config data : String) :
    ∃ (generate : List String) (transform : Precision → List String) (compare : List String)
      (output : Precision → String),
      experiment (.ofString config) (.ofString data)
        = run (.ofString config) ("generate" :: generate)
          :: (Precision.all.map fun p => run (.ofString config) ("transform" :: transform p))
          ++ [run (.ofString config) ("compare" :: compare)] ∧
      (optionValues "--output" generate).length = 1 ∧
      (∀ p, optionValues "--precision" (transform p) = [p.name] ∧
        optionValues "--input" (transform p) = optionValues "--output" generate ∧
        optionValues "--output" (transform p) = [output p]) ∧
      ((optionValues "--pair" compare).map ComparisonPair.ofText?
          = [some ⟨.ofString (output .binary32), .ofString (output .binary64)⟩,
            some ⟨.ofString (output .bfloat16), .ofString (output .binary32)⟩] ↔
        ComparisonPair.separator ∉ data.toList) := by
  refine ⟨_, _, _, fun p => (outputDirectory (.ofString data) p).toString, rfl, rfl,
    fun p => ⟨rfl, rfl, rfl⟩, ?_⟩
  have hpair : ∀ compared reference, ComparisonPair.ofText?
      (ComparisonPair.mk (outputDirectory (.ofString data) compared)
        (outputDirectory (.ofString data) reference)).text
        = some ⟨.ofString (outputDirectory (.ofString data) compared).toString,
          .ofString (outputDirectory (.ofString data) reference).toString⟩ ↔
      ComparisonPair.separator ∉ data.toList := by
    intro compared reference
    rw [← separator_mem_outputDirectory_iff data compared]
    exact ComparisonPair.ofText?_text_iff (outputDirectory_ne_empty _ _)
      (outputDirectory_ne_empty _ _)
  have hvalues : optionValues "--pair" (comparedPrecisions.flatMap fun pair =>
      ["--pair", (ComparisonPair.mk (outputDirectory (.ofString data) pair.1)
        (outputDirectory (.ofString data) pair.2)).text])
      = comparedPrecisions.map fun pair =>
        (ComparisonPair.mk (outputDirectory (.ofString data) pair.1)
          (outputDirectory (.ofString data) pair.2)).text := rfl
  change List.map _ (optionValues "--pair" (comparedPrecisions.flatMap _)) = _ ↔ _
  rw [hvalues]
  simp only [comparedPrecisions, List.map_cons, List.map_nil, List.cons.injEq, hpair, and_self,
    and_true]

/-- Below a directory with the separator in its name, the first pair of an experiment is read as
two directories that no transform has written. -/
theorem experiment_pairs_of_separator :
    (outputDirectory (.ofString "a=b") .binary32).toString = "a=b/output-f32" ∧
      (outputDirectory (.ofString "a=b") .binary64).toString = "a=b/output-reference" ∧
      "a=b/output-f32=a=b/output-reference"
        ∈ compareCommand (.ofString "config.toml") (.ofString "a=b") ∧
      ComparisonPair.ofText? "a=b/output-f32=a=b/output-reference"
        = some ⟨.ofString "a", .ofString "b/output-f32=a=b/output-reference"⟩ := by
  decide

end Workflow

end WaveletPrecision
