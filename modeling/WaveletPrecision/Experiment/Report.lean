import WaveletPrecision.Decimal.Layout
import WaveletPrecision.Experiment.Config
import WaveletPrecision.Experiment.ErrorStats
import WaveletPrecision.Storage.Artifact

/-
The report of a comparison.

A report lists, for every pair of directories, every input; for an input of one dimension
every wavelet; and for a wavelet the outcomes of its units, one for each kind of result.
Inputs of two dimensions are not compared, and inputs of other dimensions cannot be.

* `Report.outcomes` are the outcomes in the order of the report, which `Report.compared`,
  `Report.missing` and `Report.failures` count;
* `Report.lines` are the lines of the text, and `Report.text` ends every line with a line
  break.
-/
namespace WaveletPrecision

/-- What became of the comparison of one kind of result. -/
inductive Outcome where
  /-- Both sides could be read. -/
  | compared (stats : ErrorStats Binary64)
  /-- The file does not exist. -/
  | missing (path : Path)
  /-- The two sides have different shapes. -/
  | shapeMismatch (compared reference : List Nat)
  /-- Something else went wrong, in the words of the error. -/
  | failed (message : String)
deriving DecidableEq

/-- The outcome for one kind of result. -/
structure UnitReport where
  suffix : Suffix
  outcome : Outcome
deriving DecidableEq

/-- The outcomes of one wavelet. -/
structure WaveletSection where
  wavelet : String
  units : List UnitReport
deriving DecidableEq

/-- What is told of an input. -/
inductive InputBody where
  | twoDimensional
  | unsupported
  | sections (wavelets : List WaveletSection)
deriving DecidableEq

/-- The part of a report on one input. -/
structure InputSection where
  name : String
  shape : List Nat
  magnitude : Binary64
  body : InputBody
deriving DecidableEq

/-- The part of a report on one pair of directories. -/
structure PairSection where
  pair : ComparisonPair
  inputs : List InputSection
deriving DecidableEq

/-- The result of a comparison. -/
structure Report where
  pairs : List PairSection
deriving DecidableEq

/-! ### Counts -/

namespace Outcome

/-- Both sides could be read. -/
def isCompared : Outcome → Bool
  | compared _ => true
  | _ => false

/-- A file does not exist. -/
def isMissing : Outcome → Bool
  | missing _ => true
  | _ => false

/-- The unit was neither compared nor merely missing. -/
def isFailure : Outcome → Bool
  | shapeMismatch .. => true
  | failed _ => true
  | _ => false

end Outcome

/-- The sections of the wavelets of an input that is compared. -/
def InputBody.waveletSections : InputBody → List WaveletSection
  | sections wavelets => wavelets
  | _ => []

namespace Report

/-- The outcomes of all units. -/
def outcomes (report : Report) : List Outcome :=
  let inputs := report.pairs.flatMap fun part => part.inputs
  let wavelets := inputs.flatMap fun part => part.body.waveletSections
  (wavelets.flatMap fun part => part.units).map fun unit => unit.outcome

/-- The number of units that were compared. -/
def compared (report : Report) : Nat := report.outcomes.countP Outcome.isCompared

/-- The number of units without a file. -/
def missing (report : Report) : Nat := report.outcomes.countP Outcome.isMissing

/-- The number of units that failed. -/
def failures (report : Report) : Nat := report.outcomes.countP Outcome.isFailure

/-! ### The text -/

/-- Magnitudes are written without an exponent, and whole ones without a point. -/
def magnitudeStyle : NumberStyle := ⟨none, ""⟩

/-- Measures have an exponent below `1e-4` and from `1e16` on, and whole ones end in `.0`. -/
def metricStyle : NumberStyle := ⟨some (-4, 16), ".0"⟩

end Report

/-- The lines on one unit of a wavelet, of an input and of a pair. -/
def UnitReport.lines (pair : ComparisonPair) (input wavelet : String) (unit : UnitReport) :
    List String :=
  let suffix := unit.suffix.name
  match unit.outcome with
  | .compared stats =>
    let metric (label : String) (x : Binary64) : String :=
      "  " ++ suffix ++ ": " ++ label ++ " = " ++ Report.metricStyle.text x
    [metric "max absolute error (zero elements only)" stats.maxAbsZeroRef,
      metric "max relative error" stats.maxRel,
      metric "mean relative error" stats.meanRel]
  | .missing path => ["File not found: " ++ path.toString ++ ", skipping."]
  | .shapeMismatch compared reference =>
    ["Shape mismatch for " ++ suffix ++ ": " ++ renderShape compared ++ " vs "
      ++ renderShape reference]
  | .failed message =>
    ["Error comparing " ++ pair.compared.toString ++ " and " ++ pair.reference.toString
      ++ " for " ++ input ++ " with wavelet " ++ wavelet ++ " and suffix " ++ suffix ++ ": "
      ++ message]

/-- The lines on one wavelet of an input and of a pair. -/
def WaveletSection.lines (pair : ComparisonPair) (input : String) (part : WaveletSection) :
    List String :=
  ("Comparing " ++ part.wavelet ++ " for input " ++ input ++ "...")
    :: part.units.flatMap (UnitReport.lines pair input part.wavelet)

/-- The lines on one input of a pair. -/
def InputSection.lines (pair : ComparisonPair) (part : InputSection) : List String :=
  let shape := renderShape part.shape
  ("Input: " ++ part.name ++ " with shape " ++ shape ++ " and magnitude "
      ++ Report.magnitudeStyle.text part.magnitude)
    :: match part.body with
      | .twoDimensional =>
        ["2D input " ++ part.name ++ " with shape " ++ shape
          ++ " is not supported in this benchmark, skipping."]
      | .unsupported =>
        ["Unsupported shape " ++ shape ++ " for input " ++ part.name ++ ", skipping."]
      | .sections wavelets => wavelets.flatMap (WaveletSection.lines pair part.name)

/-- The lines on one pair. -/
def PairSection.lines (part : PairSection) : List String :=
  ("Comparing " ++ part.pair.compared.toString ++ " against "
      ++ part.pair.reference.toString ++ "...")
    :: part.inputs.flatMap (InputSection.lines part.pair)

namespace Report

/-- The lines of a report. -/
def lines (report : Report) : List String := report.pairs.flatMap PairSection.lines

/-- The text of a report. -/
def text (report : Report) : String := String.join (report.lines.map fun line => line ++ "\n")

end Report

end WaveletPrecision
