import WaveletPrecision.CommandLine.Help
import WaveletPrecision.Experiment.Comparison
import WaveletPrecision.Experiment.Signals
import WaveletPrecision.Experiment.TransformRun
import WaveletPrecision.Random.ChaCha
import WaveletPrecision.Random.Normal

/-
Carrying out a command line.

A command line has an effect on a store and ends with a status: zero when it was carried
out, one when a command failed, two when it was not understood, and 101 when the program was
ended by an access out of bounds.
-/
namespace WaveletPrecision

namespace CommandLine

/-- How a command line ends. -/
structure Ending where
  /-- The exit status. -/
  status : Nat
  /-- The text on standard output. -/
  output : String
  /-- The lines on standard error. -/
  log : List String

namespace Ending

/-- A command was carried out. -/
def done (output : String) (log : List String) : Ending := ⟨0, output, log⟩

/-- A command failed. -/
def failed (output : String) (log : List String) : Ending := ⟨1, output, log⟩

/-- The program was ended. -/
def aborted (log : List String) : Ending := ⟨101, "", log⟩

/-- A command line asked for a text, or was not understood. -/
def ofHalt : Halt → Ending
  | .usage => ⟨2, "", ["error: the command line is not understood"] ++ programHelp⟩
  | .help topic => done (unlines topic.helpLines) []
  | .version => done (unlines [packageVersion]) []

end Ending

variable {M : Type → Type} [Monad M] [Store M]

/-- Write the signals of a configuration. -/
def generate (config : Config) (output : Path) (seed : UInt64) : StoreM M Ending := do
  let written ← generateSignals config.inputs output (ChaCha.ofSeed seed)
  return .done "" (written.map fun path => "generated " ++ path.toString)

/-- Transform the signals of a configuration. -/
def transform (config : Config) (input output : Path) (engine : Engine) : StoreM M Ending := do
  let summary ← (TransformRun.mk engine input output).runAll config
  return .done "" [engine.label ++ ": " ++ toString summary.units ++ " transforms, "
    ++ toString summary.files ++ " files written to " ++ output.toString]

/-- Compare directories of results. -/
def compare (config : Config) (pairs : List ComparisonPair) (strict : Bool) :
    StoreM M Ending := do
  let report ← ExceptT.lift (comparePairs config pairs)
  let counts := toString report.compared ++ " units compared, " ++ toString report.missing
    ++ " missing, " ++ toString report.failures ++ " failed"
  if strict && 0 < report.failures then return .failed report.text [counts]
  return .done report.text [counts]

/-- Write a reference case. -/
def reference (wavelet : Wavelet) (shape : List Nat) (dimension : Dimension) (seed : UInt64)
    (output : Path) : StoreM M Ending := do
  let case ← Store.ofResult
    (ReferenceCase.generate wavelet shape dimension (ChaCha.ofSeed seed))
  Artifact.writeTensor output case.output
  return .done "" [dimension.name ++ " reference for " ++ wavelet.name ++ " "
    ++ renderShape case.input.shape ++ " -> " ++ output.toString ++ " "
    ++ renderShape case.output.shape]

/-- Run a command that needs the configuration, of which a verbose run tells. -/
def Invocation.withConfig (invocation : Invocation) (run : Config → StoreM M Ending) :
    StoreM M Ending := do
  let config ← Config.load invocation.config
  let ending ← run config
  let loaded := "loaded " ++ invocation.config.toString ++ " ("
    ++ toString config.wavelets.length ++ " wavelets, " ++ toString config.inputs.length
    ++ " inputs)"
  return { ending with log := (if invocation.verbose then [loaded] else []) ++ ending.log }

/-- Carry out a command; `entropy` is the seed of a run that asks for none. -/
def Invocation.perform (entropy : UInt64) (invocation : Invocation) : StoreM M Ending :=
  match invocation.command with
  | .generate output seed =>
    invocation.withConfig fun config => generate config output (seed.getD entropy)
  | .transform input output precision algorithm =>
    invocation.withConfig fun config =>
      transform config input (output.getD (resultsDirectory algorithm precision))
        (.of algorithm precision)
  | .compare pairs strict =>
    invocation.withConfig fun config =>
      compare config (if pairs.isEmpty then config.comparisonPairs else pairs) strict
  | .reference wavelet shape dimension seed output =>
    reference wavelet shape dimension seed output

/-- Carry out a command line. -/
def execute (entropy : UInt64) (words : List String) : M Ending := do
  match Invocation.ofWords words with
  | .error halt => return .ofHalt halt
  | .ok invocation =>
    match ← (invocation.perform (M := M) entropy).run with
    | .ok ending => return ending
    | .error (.outOfBounds shape) => return .aborted [Error.message (.outOfBounds shape)]
    | .error e => return .failed "" ["Error: " ++ e.message]

end CommandLine

end WaveletPrecision
