import WaveletPrecision.CommandLine.Settings

/-
The commands and options of the command line.

A command line is a sequence of common options, the name of a command, and options of
that command, among which the common options may stand as well.  The tables here say
which options there are, what they set, and what the help texts say about them; how words
are matched with options is the business of the reader.
-/
namespace WaveletPrecision

namespace CommandLine

/-- The name of the program on the command line. -/
def programName : String := "dwt-precision"

/-- The name and the version of the package that the program belongs to. -/
def packageVersion : String := "precision-cli 0.1.0"

/-- What the program is for. -/
def programAbout : String := "Precision experiments for single-level wavelet transforms"

/-- What giving an option does. -/
inductive Meaning where
  /-- The option stands alone. -/
  | switch (set : Settings → Settings)
  /-- The option takes a value, which a help text shows by a placeholder. -/
  | value (placeholder : String) (set : Settings → String → Option Settings)
  /-- The option asks for a help text. -/
  | help
  /-- The option asks for the version. -/
  | version

/-- An option. -/
structure OptionEntry where
  /-- The name that follows two hyphens. -/
  long : String
  /-- The letter that follows one hyphen. -/
  short : Option Char := none
  meaning : Meaning
  /-- The help text. -/
  about : String := ""
  /-- The text of the value that is taken when none is given. -/
  standard : Option String := none
  /-- The option may be given more than once. -/
  repeatable : Bool := false
  /-- The option must be given. -/
  required : Bool := false

/-- An option that takes a value of some type. -/
def Meaning.typed {A : Type} (placeholder : String) (read : String → Option A)
    (set : Settings → A → Settings) : Meaning :=
  .value placeholder fun settings text => (read text).map (set settings)

/-! ### Standard values -/

/-- The configuration that is read when none is named. -/
def standardConfig : String := "config.toml"

/-- The directory of the signals when none is named. -/
def standardSignals : String := "data/input"

/-! ### Common options -/

/-- The options that every command has. -/
def commonOptions : List OptionEntry := [
  { long := "config"
    meaning := .typed "CONFIG" readPath fun s path => { s with config := some path }
    about := "Experiment configuration"
    standard := some standardConfig },
  { long := "verbose"
    short := some 'v'
    meaning := .switch fun s => { s with verbose := true }
    about := "Log debug output (RUST_LOG overrides)" }]

/-- The option that asks for help. -/
def helpOption : OptionEntry where
  long := "help"
  short := some 'h'
  meaning := .help
  about := "Print help"

/-- The option that asks for the version. -/
def versionOption : OptionEntry where
  long := "version"
  short := some 'V'
  meaning := .version
  about := "Print version"

/-! ### Commands -/

/-- The commands by name. -/
inductive CommandName where
  | generate
  | transform
  | compare
  | reference
deriving DecidableEq

namespace CommandName

/-- Every command, in the order of the help text. -/
def all : List CommandName := [generate, transform, compare, reference]

/-- The word for a command. -/
def word : CommandName → String
  | generate => "generate"
  | transform => "transform"
  | compare => "compare"
  | reference => "reference"

/-- The command of a word. -/
def ofWord? (s : String) : Option CommandName := all.find? fun name => name.word = s

/-- What a command does. -/
def about : CommandName → String
  | generate => "Write one random signal per configured input"
  | transform => "Transform every (wavelet, input) pair at one precision"
  | compare => "Compare coefficient directories and print error statistics"
  | reference => "Write packed seeded f32 reference coefficients"

/-- The options of a command. -/
def options : CommandName → List OptionEntry
  | generate => [
    { long := "output"
      meaning := .typed "OUTPUT" readPath fun s path => { s with output := some path }
      standard := some standardSignals },
    { long := "seed"
      meaning := .typed "SEED" readSeed fun s seed => { s with seed := some seed }
      about := "Seed for a reproducible run" }]
  | transform => [
    { long := "input"
      meaning := .typed "INPUT" readPath fun s path => { s with input := some path }
      standard := some standardSignals },
    { long := "output"
      meaning := .typed "OUTPUT" readPath fun s path => { s with output := some path }
      about := "Defaults to data/output-<precision>, or data/output-reference for f64" },
    { long := "precision"
      meaning := .typed "PRECISION" (readNamed Precision.ofName) fun s precision =>
        { s with precision := some precision }
      standard := some Precision.standard.name },
    { long := "algorithm"
      meaning := .typed "ALGORITHM" (readNamed Algorithm.ofName) fun s algorithm =>
        { s with algorithm := some algorithm }
      standard := some Algorithm.standard.name }]
  | compare => [
    { long := "pair"
      meaning := .typed "PAIRS" ComparisonPair.ofText? fun s pair =>
        { s with pairs := s.pairs ++ [pair] }
      about := "CMP=REF directory pair; repeatable"
      repeatable := true },
    { long := "strict"
      meaning := .switch fun s => { s with strict := true }
      about := "Exit with an error if any unit failed" }]
  | reference => [
    { long := "wavelet"
      meaning := .typed "WAVELET" (readNamed Wavelet.ofName) fun s wavelet =>
        { s with wavelet := some wavelet }
      required := true },
    { long := "shape"
      meaning := .typed "SHAPE" readSizes fun s sizes => { s with shape := s.shape ++ sizes }
      about := "batch,channels,height,width"
      repeatable := true
      required := true },
    { long := "dim"
      meaning := .typed "DIM" (readNamed Dimension.ofName) fun s dimension =>
        { s with dimension := some dimension }
      about := "1d or 2d"
      required := true },
    { long := "seed"
      meaning := .typed "SEED" readSeed fun s seed => { s with seed := some seed }
      standard := some (toString ReferenceCase.standardSeed) },
    { long := "output"
      meaning := .typed "OUTPUT" readPath fun s path => { s with output := some path }
      required := true }]

end CommandName

/-- The word that asks for the help text of a command. -/
def helpWord : String := "help"

/-- What the command for help texts does. -/
def helpAbout : String := "Print this message or the help of the given subcommand(s)"

/-- The options that are understood before the name of a command. -/
def programOptions : List OptionEntry := commonOptions ++ [helpOption, versionOption]

/-- The options that are understood after the name of a command. -/
def CommandName.allOptions (name : CommandName) : List OptionEntry :=
  name.options ++ commonOptions ++ [helpOption]

end CommandLine

end WaveletPrecision
