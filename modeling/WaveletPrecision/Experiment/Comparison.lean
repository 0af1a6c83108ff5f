import WaveletPrecision.Experiment.Report

/-
The comparison stage of an experiment.

A unit of a comparison is one kind of result of one input and one wavelet.  It is read
from both directories of a pair with the shape that halving the signal would leave, and
what becomes of it is an outcome; a unit that fails does not keep the others from being
compared, and nothing is written.
-/
namespace WaveletPrecision

/-- The kinds of results that are compared for an input of so many samples, with the shapes that
they are read with. -/
def expectedShapes (n : Nat) : List (Suffix × List Nat) :=
  [(.approx, [(n + 1) / 2]), (.detail, [n / 2]), (.inverse, [n])]

/-- The outcome of a unit of which one side cannot be read. -/
def Outcome.ofError (path : Path) (e : Error) : Outcome :=
  if e.isNotFound then missing path else failed e.message

/-- The outcome of a unit of which both sides could be read. -/
def Outcome.ofTensors (compared reference : Tensor Binary64) : Outcome :=
  match ErrorStats.betweenTensors compared reference with
  | .ok stats => .compared stats
  | .error (.shapesDiffer left right) => shapeMismatch left right
  | .error e => failed e.message

variable {M : Type → Type} [Monad M] [Store M]

/-- One side of a unit, or the outcome if it cannot be read. -/
def loadSide (root : Path) (input wavelet : String) (suffix : Suffix) (shape : List Nat) :
    ExceptT Outcome M (Tensor Binary64) :=
  let path := Artifact.path root input wavelet suffix
  ExceptT.mk do
    match ← ExceptT.run (m := M) (Artifact.readTensor path shape) with
    | .ok values => return .ok values
    | .error e => return .error (.ofError path e)

/-- Compare one kind of result; the compared side is read first. -/
def compareUnit (pair : ComparisonPair) (input wavelet : String) (suffix : Suffix)
    (shape : List Nat) : M Outcome := do
  let sides : ExceptT Outcome M Outcome := do
    let compared ← loadSide pair.compared input wavelet suffix shape
    let reference ← loadSide pair.reference input wavelet suffix shape
    return .ofTensors compared reference
  match ← sides.run with
  | .ok outcome => return outcome
  | .error outcome => return outcome

/-- Compare the results of one wavelet for an input of so many samples. -/
def compareWavelet (pair : ComparisonPair) (input : String) (n : Nat) (wavelet : String) :
    M WaveletSection := do
  let units ← (expectedShapes n).mapM fun (suffix, shape) => do
    return UnitReport.mk suffix (← compareUnit pair input wavelet suffix shape)
  return ⟨wavelet, units⟩

/-- Compare the results of one input. -/
def compareInput (config : Config) (pair : ComparisonPair) (input : InputEntry) :
    M InputSection := do
  let body ←
    match input.shape with
    | [n] => do
      let parts ← config.wavelets.mapM fun wavelet =>
        compareWavelet pair input.name n wavelet.name
      pure (InputBody.sections parts)
    | [_, _] => pure .twoDimensional
    | _ => pure .unsupported
  return ⟨input.name, input.shape, input.magnitude, body⟩

/-- Compare the two directories of a pair. -/
def comparePair (config : Config) (pair : ComparisonPair) : M PairSection := do
  return ⟨pair, ← config.inputs.mapM (compareInput config pair)⟩

/-- Compare the directories of every pair. -/
def comparePairs (config : Config) (pairs : List ComparisonPair) : M Report := do
  return ⟨← pairs.mapM (comparePair config)⟩

end WaveletPrecision
