import WaveletPrecision.Matrix.Tensor
import WaveletPrecision.Sample.Basic

/-
How far two lists of values lie apart.

Where the reference is zero there is no relative error, and the absolute error counts;
elsewhere the relative error does.  A measure of a part without elements is zero.  The
definitions hold for any type of values in which sizes can be compared, so that they can
be read over binary64 as well as over exact numbers.
-/
namespace WaveletPrecision

/-- Values with a size. -/
class Measured (K : Type) where
  /-- The value without its sign. -/
  absolute : K → K
  /-- The larger of two values; a value that is not a number is larger than any. -/
  larger : K → K → K
  /-- The value is zero, of whatever sign. -/
  isZero : K → Bool

instance : Measured Binary64 where
  absolute := Binary.abs
  larger := Binary.larger
  isZero := Binary.isZero

/-- The error measures of one list against another. -/
structure ErrorStats (K : Type) where
  /-- The largest absolute error over the elements with a zero reference. -/
  maxAbsZeroRef : K
  /-- The largest relative error over the other elements. -/
  maxRel : K
  /-- The mean relative error over the other elements. -/
  meanRel : K
  /-- The number of elements with a zero reference. -/
  zeroRefCount : Nat
  /-- The number of the other elements. -/
  nonzeroRefCount : Nat
deriving DecidableEq

variable {K : Type} [Sub K] [Measured K]

/-- The absolute differences, element by element. -/
def absoluteDifferences (compared reference : List K) : List K :=
  compared.zipWith (fun c r => Measured.absolute (c - r)) reference

namespace ErrorStats

variable [Zero K] [Add K] [Div K] [NatCast K]

/-- The measures of a list against a reference of the same length. -/
def between (compared reference : List K) : ErrorStats K :=
  let differences := (absoluteDifferences compared reference).zip reference
  let absolute := (differences.filter fun (_, r) => Measured.isZero r).map Prod.fst
  let relative := (differences.filter fun (_, r) => !Measured.isZero r).map fun (d, r) =>
    d / Measured.absolute r
  { maxAbsZeroRef := absolute.foldl Measured.larger 0
    maxRel := relative.foldl Measured.larger 0
    meanRel := if relative.isEmpty then 0
      else relative.foldl (· + ·) 0 / (relative.length : K)
    zeroRefCount := absolute.length
    nonzeroRefCount := relative.length }

/-- The measures of two tensors of one shape. -/
def betweenTensors (compared reference : Tensor K) : Except Error (ErrorStats K) :=
  if compared.shape ≠ reference.shape then
    .error (.shapesDiffer compared.shape reference.shape)
  else .ok (between compared.data reference.data)

end ErrorStats

end WaveletPrecision
