import WaveletPrecision.Experiment.Config
import WaveletPrecision.Experiment.ReferenceCase
import WaveletPrecision.Transform.Engine

/-
What the options of the command line set, and the texts that they take.
-/
namespace WaveletPrecision

-- Powers are those of the core library, whatever else is imported beside this module.
attribute [local instance (high)] instPowNat

namespace CommandLine

/-- What has been set so far. -/
structure Settings where
  config : Option Path
  verbose : Bool
  input : Option Path
  output : Option Path
  seed : Option UInt64
  precision : Option Precision
  algorithm : Option Algorithm
  pairs : List ComparisonPair
  strict : Bool
  wavelet : Option Wavelet
  shape : List Nat
  dimension : Option Dimension

/-- Nothing has been set. -/
def Settings.none : Settings where
  config := .none
  verbose := false
  input := .none
  output := .none
  seed := .none
  precision := .none
  algorithm := .none
  pairs := []
  strict := false
  wavelet := .none
  shape := []
  dimension := .none

/-! ### Texts of values -/

/-- A path, which must not be empty. -/
def readPath (s : String) : Option Path := if s = "" then none else some (.ofString s)

/-- The value of decimal digits, of which there must be one. -/
def readDigits (digits : List Char) : Option Nat :=
  if digits.isEmpty || !digits.all Char.isDigit then none
  else some (digits.foldl (fun n c => 10 * n + (c.toNat - '0'.toNat)) 0)

/-- The number of bits that a count must fit. -/
def countBits : Nat := 64

/-- A number that fits its bits, which a plus sign may precede. -/
def readCount (s : String) : Option Nat := do
  let n ← readDigits (match s.toList with
    | '+' :: digits => digits
    | digits => digits)
  if n < 2 ^ countBits then some n else none

/-- A seed. -/
def readSeed (s : String) : Option UInt64 := (readCount s).map UInt64.ofNat

/-- The character between two sizes. -/
def sizeSeparator : Char := ','

/-- A list of sizes. -/
def readSizes (s : String) : Option (List Nat) :=
  (s.toList.splitOn sizeSeparator).mapM fun size => readCount (String.ofList size)

/-- A value that is looked up by its name. -/
def readNamed {A : Type} (ofName : String → Except Error A) (s : String) : Option A :=
  (ofName s).toOption

end CommandLine

end WaveletPrecision
