import WaveletPrecision.FilterBank.Wavelet
import WaveletPrecision.Boundary.Mode
import WaveletPrecision.Matrix.Tensor
import WaveletPrecision.Storage.Store
import WaveletPrecision.Toml.Document

/-
The description of an experiment.

An experiment applies every wavelet entry to every input entry and compares pairs of
result directories.  `Config.ofToml` reads a description from the text of a TOML
document and refuses what could not be used as a file name or as a magnitude.  The
filters and boundary modes that the entries name are looked up only when they are used.
-/
namespace WaveletPrecision

/-- A wavelet as an experiment names it: `name` stands in file names, `id` selects the filter
and `mode` the way signals are continued. -/
structure WaveletEntry where
  name : String
  id : String
  mode : String
deriving DecidableEq

/-- The wavelet that an entry selects. -/
def WaveletEntry.wavelet (entry : WaveletEntry) : Except Error Wavelet := Wavelet.ofName entry.id

/-- The boundary mode that an entry selects. -/
def WaveletEntry.boundaryMode (entry : WaveletEntry) : Except Error BoundaryMode :=
  BoundaryMode.ofName entry.mode

/-- An input signal: its name, its shape and the bound of its samples. -/
structure InputEntry where
  name : String
  shape : List Nat
  magnitude : Binary64
deriving DecidableEq

/-- The number of samples of an input. -/
def InputEntry.size (entry : InputEntry) : Nat := elementCount entry.shape

/-- An input without samples. -/
def InputEntry.isEmpty (entry : InputEntry) : Bool := entry.size = 0

/-- Two directories of results, the second one the reference of the first. -/
structure ComparisonPair where
  compared : Path
  reference : Path
deriving DecidableEq

namespace ComparisonPair

/-- The pairs of an experiment that names none. -/
def standard : List ComparisonPair :=
  [⟨.ofString "data/output-f32", .ofString "data/output-reference"⟩,
    ⟨.ofString "data/output-bf16", .ofString "data/output-f32"⟩]

/-- The character between the two directories of a pair. -/
def separator : Char := '='

/-- A pair as one text. -/
def text (pair : ComparisonPair) : String :=
  pair.compared.toString ++ String.singleton separator ++ pair.reference.toString

/-- The pair of a text, which is cut at the first separator into two texts that are not empty. -/
def ofText? (s : String) : Option ComparisonPair :=
  let compared := s.toList.takeWhile (· ≠ separator)
  match s.toList.dropWhile (· ≠ separator) with
  | _ :: reference =>
    if compared.isEmpty || reference.isEmpty then none
    else some ⟨.ofString (String.ofList compared), .ofString (String.ofList reference)⟩
  | [] => none

end ComparisonPair

/-- An experiment. -/
structure Config where
  wavelets : List WaveletEntry
  inputs : List InputEntry
  comparisons : List ComparisonPair
deriving DecidableEq

namespace Config

/-- The pairs to compare. -/
def comparisonPairs (config : Config) : List ComparisonPair :=
  if config.comparisons.isEmpty then ComparisonPair.standard else config.comparisons

/-! ### Checking -/

/-- A name must be usable as a file name. -/
def checkName (kind name : String) : Except Error Unit :=
  if Path.isFileName name then .ok () else .error (.invalidConfig (.notAFileName kind name))

/-- A magnitude must be finite. -/
def checkMagnitude (entry : InputEntry) : Except Error Unit :=
  if entry.magnitude.isFinite then .ok ()
  else .error (.invalidConfig (.nonFiniteMagnitude entry.name))

/-- Check the names of the wavelets and then every input. -/
def validate (config : Config) : Except Error Unit := do
  config.wavelets.forM fun entry => checkName "wavelet" entry.name
  config.inputs.forM fun entry => do
    checkName "input" entry.name
    checkMagnitude entry

/-! ### Reading -/

open Toml (Value)

/-- The values of the fields of an entry.  A table holds them under their names, among keys that
nobody asks for; an array holds them in their order, before elements that nobody asks for. -/
def fields (names : List String) : Value → Option (List (Option Value))
  | .table entries => some (names.map fun name =>
      (entries.find? fun entry => entry.1 = name).map Prod.snd)
  | .array elements => some ((List.range names.length).map fun i => elements[i]?)
  | _ => none

/-- A text. -/
def readText : Value → Option String
  | .string text => some text
  | _ => none

/-- A number of elements. -/
def readCount : Value → Option Nat
  | .integer n => if 0 ≤ n then some n.toNat else none
  | _ => none

/-- A list. -/
def readList {A : Type} (readOne : Value → Option A) : Value → Option (List A)
  | .array elements => elements.mapM readOne
  | _ => none

/-- A number, for which a whole number can be written. -/
def readNumber : Value → Option Binary64
  | .float x => some x
  | .integer n => some (if n < 0 then -(n.natAbs : Binary64) else (n.natAbs : Binary64))
  | _ => none

/-- A wavelet entry. -/
def readWavelet (v : Value) : Option WaveletEntry := do
  match ← fields ["name", "id", "mode"] v with
  | [some name, some id, some mode] =>
    return ⟨← readText name, ← readText id, ← readText mode⟩
  | _ => none

/-- An input entry. -/
def readInput (v : Value) : Option InputEntry := do
  match ← fields ["name", "shape", "magnitude"] v with
  | [some name, some shape, some magnitude] =>
    return ⟨← readText name, ← readList readCount shape, ← readNumber magnitude⟩
  | _ => none

/-- A pair of directories. -/
def readPair (v : Value) : Option ComparisonPair := do
  match ← fields ["cmp", "ref"] v with
  | [some compared, some reference] =>
    return ⟨.ofString (← readText compared), .ofString (← readText reference)⟩
  | _ => none

/-- The experiment of a document, in which the list of comparisons may be missing. -/
def ofEntries (entries : List (String × Value)) : Option Config := do
  match ← fields ["wavelets", "inputs", "comparisons"] (.table entries) with
  | [some wavelets, some inputs, comparisons] =>
    let comparisons ←
      match comparisons with
      | some comparisons => readList readPair comparisons
      | none => pure []
    return ⟨← readList readWavelet wavelets, ← readList readInput inputs, comparisons⟩
  | _ => none

/-- The path that stands for a text which was not read from a file. -/
def textPath : Path := .ofString "<string>"

/-- The experiment that a text describes; `source` is where the text comes from. -/
def ofTomlAt (source : Path) (text : String) : Except Error Config :=
  match (Toml.readDocument text).bind ofEntries with
  | none => .error (.malformedConfig source)
  | some config => (validate config).map fun _ => config

/-- The experiment that a text describes. -/
def ofToml (text : String) : Except Error Config := ofTomlAt textPath text

/-- The experiment that a file describes. -/
def load {M : Type → Type} [Monad M] [Store M] (path : Path) : StoreM M Config := do
  Store.ofResult (ofTomlAt path (← Store.readText path))

end Config

end WaveletPrecision
