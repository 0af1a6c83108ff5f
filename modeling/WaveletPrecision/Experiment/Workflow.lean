import WaveletPrecision.Experiment.TransformRun

/-
The build commands of a working copy, and an experiment as a sequence of commands.

A command is given by its arguments to the build tool.  The stages of an experiment are
runs of the command-line program: generate the inputs, transform them once for every
precision, and compare each narrower precision with the next wider one.
-/
namespace WaveletPrecision

namespace Workflow

/-- A task of working on the program. -/
inductive Task where
  | build
  | test
  | lint
  | format
  | bench
deriving DecidableEq

/-- The arguments of a task. -/
def Task.arguments : Task → List String
  | build => ["build", "--workspace"]
  | test => ["test", "--workspace"]
  | lint => ["clippy", "--workspace", "--all-targets", "--", "-D", "warnings"]
  | format => ["fmt", "--all"]
  | bench => ["bench", "-p", "dwt-bench"]

/-- The name under which a task is asked for. -/
def Task.name : Task → String
  | build => "build"
  | test => "test"
  | lint => "clippy"
  | format => "fmt"
  | bench => "bench"

/-- Every task. -/
def Task.all : List Task := [build, test, lint, format, bench]

/-- The task of a name. -/
def Task.ofName? (s : String) : Option Task := all.find? fun task => task.name = s

/-- The arguments that run the program with a configuration. -/
def run (config : Path) (arguments : List String) : List String :=
  ["run", "--release", "-q", "-p", "precision-cli", "--", "--config", config.toString]
    ++ arguments

/-- The directory of the inputs of an experiment. -/
def inputDirectory (data : Path) : Path := data.join (.ofString "input")

/-- The directory of the results of an experiment at a precision. -/
def outputDirectory (data : Path) (precision : Precision) : Path :=
  data.join (.ofString (resultsName .convolution precision))

/-- The pairs of precisions that an experiment compares, the reference second. -/
def comparedPrecisions : List (Precision × Precision) :=
  [(.binary32, .binary64), (.bfloat16, .binary32)]

/-- The command that generates the inputs. -/
def generateCommand (config data : Path) : List String :=
  run config ["generate", "--output", (inputDirectory data).toString]

/-- The command that transforms the inputs at a precision. -/
def transformCommand (config data : Path) (precision : Precision) : List String :=
  run config ["transform", "--precision", precision.name,
    "--input", (inputDirectory data).toString,
    "--output", (outputDirectory data precision).toString]

/-- The command that compares the results. -/
def compareCommand (config data : Path) : List String :=
  run config ("compare" :: comparedPrecisions.flatMap fun (compared, reference) =>
    ["--pair", (ComparisonPair.mk (outputDirectory data compared)
      (outputDirectory data reference)).text])

/-- The commands of an experiment, in order. -/
def experiment (config data : Path) : List (List String) :=
  [generateCommand config data] ++ Precision.all.map (transformCommand config data)
    ++ [compareCommand config data]

end Workflow

end WaveletPrecision
