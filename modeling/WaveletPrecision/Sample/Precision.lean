import WaveletPrecision.Error
import WaveletPrecision.Sample.Basic
import WaveletPrecision.Text.Name

/-
The precisions an experiment can ask for.
-/
namespace WaveletPrecision

/-- The representation a transform runs in. -/
inductive Precision where
  | binary64
  | binary32
  | bfloat16
deriving DecidableEq

namespace Precision

/-- The precision that is taken when none is asked for. -/
def standard : Precision := binary64

/-- Every precision, the widest first. -/
def all : List Precision := [binary64, binary32, bfloat16]

/-- The name in files, directories and messages. -/
def name : Precision → String
  | binary64 => "f64"
  | binary32 => "f32"
  | bfloat16 => "bf16"

/-- The binary format of the samples. -/
def format : Precision → Format
  | binary64 => .binary64
  | binary32 => .binary32
  | bfloat16 => .bfloat16

/-- The type of the samples. -/
abbrev Carrier (p : Precision) : Type := Binary p.format

instance (p : Precision) : Sample p.Carrier :=
  match p with
  | binary64 => inferInstanceAs (Sample Binary64)
  | binary32 => inferInstanceAs (Sample Binary32)
  | bfloat16 => inferInstanceAs (Sample BFloat16)

/-- The bits of the significand, the leading bit included. -/
def significandBits (p : Precision) : Nat := p.format.significandBits

/-- The distance from one to the next larger value. -/
def epsilon (p : Precision) : Binary64 := .twoPow (1 - p.significandBits)

/-- The precision of a name, under any of its usual spellings. -/
def ofName (s : String) : Except Error Precision :=
  let name := Name.normalize s
  if name ∈ ["f64", "float64", "double"] then .ok binary64
  else if name ∈ ["f32", "float32", "float"] then .ok binary32
  else if name ∈ ["bf16", "bfloat16"] then .ok bfloat16
  else .error (.unknownPrecision name)

end Precision

end WaveletPrecision
