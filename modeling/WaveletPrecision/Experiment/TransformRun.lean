import WaveletPrecision.Experiment.Signals
import WaveletPrecision.Transform.Engine

/-
The transform stage of an experiment.

A unit is a pair of a wavelet entry and an input entry.  Its signal is read, transformed
and transformed back, and only when all of that has succeeded its results are stored, one
file for every suffix.  A run takes the units one after the other, all inputs of a wavelet
before the next wavelet, and ends at the first failure.
-/
namespace WaveletPrecision

/-- The name of the directory in which the results of an algorithm at a precision are kept.
Results of the filter bank in double precision are the reference of all others. -/
def resultsName : Algorithm → Precision → String
  | .convolution, .binary64 => "output-reference"
  | .convolution, precision => "output-" ++ precision.name
  | .lifting, precision => "output-" ++ precision.name ++ "-lifting"

/-- The directory of results when none is asked for. -/
def resultsDirectory (algorithm : Algorithm) (precision : Precision) : Path :=
  (Path.ofString "data").join (.ofString (resultsName algorithm precision))

/-- The results of one signal, with the suffixes under which they are stored. -/
def Engine.results (engine : Engine) (w : Wavelet) (mode : BoundaryMode)
    (signal : Tensor Binary64) : Except Error (List (Suffix × List Binary64)) :=
  match signal.dimensions with
  | 1 => do
    let bands ← engine.forward w mode signal.data
    let inverse ← engine.inverse w mode bands
    return [(.approx, bands.approx), (.detail, bands.detail), (.inverse, inverse)]
  | 2 => do
    let bands ← engine.forwardMatrix w mode (← signal.toMatrix)
    let inverse ← engine.inverseMatrix w mode bands
    return [(.approxApprox, bands.ll.toList), (.detailApprox, bands.lh.toList),
      (.approxDetail, bands.hl.toList), (.detailDetail, bands.hh.toList),
      (.inverse, inverse.toList)]
  | n => .error (.unsupportedDimension n)

/-- What a run has done. -/
structure RunSummary where
  units : Nat
  files : Nat
deriving DecidableEq

/-- The units of an experiment in the order of a run. -/
def Config.units (config : Config) : List (WaveletEntry × InputEntry) :=
  config.wavelets.flatMap fun wavelet => config.inputs.map fun input => (wavelet, input)

/-- An engine, the directory of the signals and the directory of the results. -/
structure TransformRun where
  engine : Engine
  input : Path
  output : Path

namespace TransformRun

variable {M : Type → Type} [Monad M] [Store M]

/-- The results of a unit. -/
def unitResults (run : TransformRun) (wavelet : WaveletEntry) (input : InputEntry) :
    StoreM M (List (Suffix × List Binary64)) := do
  let w ← Store.ofResult wavelet.wavelet
  let mode ← Store.ofResult wavelet.boundaryMode
  let signal ← Artifact.readTensor (input.signalPath run.input) input.shape
  Store.ofResult (run.engine.results w mode signal)

/-- Store results of a unit. -/
def writeResults (run : TransformRun) (wavelet : WaveletEntry) (input : InputEntry)
    (results : List (Suffix × List Binary64)) : StoreM M Unit :=
  results.forM fun (suffix, values) =>
    Artifact.writeValues (Artifact.path run.output input.name wavelet.name suffix) values

/-- Transform one input with one wavelet, and tell the number of files. -/
def runUnit (run : TransformRun) (wavelet : WaveletEntry) (input : InputEntry) :
    StoreM M Nat := do
  let results ← run.unitResults wavelet input
  run.writeResults wavelet input results
  return results.length

/-- Transform units, up to the first failure. -/
def runUnits (run : TransformRun) (units : List (WaveletEntry × InputEntry)) :
    StoreM M RunSummary :=
  units.foldlM
    (fun summary (wavelet, input) => do
      let files ← run.runUnit wavelet input
      return ⟨summary.units + 1, summary.files + files⟩)
    ⟨0, 0⟩

/-- Transform every input of an experiment with every wavelet. -/
def runAll (run : TransformRun) (config : Config) : StoreM M RunSummary :=
  run.runUnits config.units

end TransformRun

end WaveletPrecision
