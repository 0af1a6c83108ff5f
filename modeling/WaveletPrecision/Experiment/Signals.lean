import WaveletPrecision.Experiment.Config
import WaveletPrecision.Random.Source
import WaveletPrecision.Storage.Artifact

/-
The signals of an experiment.

Every input of an experiment gets one file of uniform samples.  The samples of all inputs
come from one source, which is drawn from in the order of the inputs, one word for every
sample; so the signal of an input depends on the sizes of the inputs before it and on
nothing that comes after it.
-/
namespace WaveletPrecision

variable {S : Type} [RandomSource S]

/-- The signal of an input: samples of `[0, 1)`, each times the magnitude, and the source after
them. -/
def InputEntry.signal (entry : InputEntry) (source : S) : List Binary64 × S :=
  RandomSource.samples (fun word => unitSample word * entry.magnitude) entry.size source

/-- The place of the signal of an input below a directory. -/
def InputEntry.signalPath (entry : InputEntry) (directory : Path) : Path :=
  directory.join (.ofString entry.name)

variable {M : Type → Type} [Monad M] [Store M]

/-- Store the signals of inputs below a directory, and tell where. -/
def writeSignals (output : Path) : List InputEntry → S → StoreM M (List Path)
  | [], _ => return []
  | entry :: rest, source => do
    let (values, source) := entry.signal source
    let path := entry.signalPath output
    Artifact.writeValues path values
    return path :: (← writeSignals output rest source)

/-- Store the signals of inputs below a directory, which is made if it is missing. -/
def generateSignals (inputs : List InputEntry) (output : Path) (source : S) :
    StoreM M (List Path) := do
  Store.createDirectories output
  writeSignals output inputs source

end WaveletPrecision
