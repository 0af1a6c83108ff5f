import WaveletPrecision.Matrix.Tensor
import WaveletPrecision.Random.Source
import WaveletPrecision.Transform.Engine

/-
Packed reference coefficients.

A reference case is a normal input of shape `[batch, channels, height, width]`, from any source
of normal samples, and its coefficients in one tensor, as the filter bank in single precision
computes them in periodization:

* in one dimension, every row becomes its approximation followed by its detail;
* in two dimensions, every plane becomes the four bands as the quarters of a plane, with
  `ll` and `lh` above `hl` and `hh`.
-/
namespace WaveletPrecision

/-- The dimension of the transforms of a reference case. -/
inductive Dimension where
  | one
  | two
deriving DecidableEq

namespace Dimension

/-- The name of a dimension. -/
def name : Dimension → String
  | one => "1d"
  | two => "2d"

/-- The dimension of a name. -/
def ofName (s : String) : Except Error Dimension :=
  let name := Name.normalize s
  if name = "1d" then .ok one
  else if name = "2d" then .ok two
  else .error (.invalidConfig (.unknownDimension name))

end Dimension

/-- The samples of a normal input, as many as are counted for its shape. -/
def normalInput {S : Type} [NormalSource S] (shape : List Nat) (source : S) : List Binary64 :=
  Sample.widenAll (RandomSource.collect NormalSource.next (elementCount shape) source).1

/-- The pieces of some length that a list is cut into.  The last one may be shorter. -/
def pieces {A : Type} (length : Nat) (xs : List A) : List (List A) :=
  let all := xs.toArray
  (List.range ((all.size + length - 1) / length)).map fun i =>
    (all.extract (i * length) (i * length + length)).toList

/-- An input and its packed coefficients. -/
structure ReferenceCase where
  input : Tensor Binary64
  output : Tensor Binary64

namespace ReferenceCase

/-- The seed that is taken when none is asked for. -/
def standardSeed : UInt64 := 42

/-- The engine of the coefficients. -/
def engine : Engine := .of .convolution .binary32

/-- The coefficients of a row: approximation, then detail. -/
def packRow (w : Wavelet) (row : List Binary64) : Except Error (List Binary64) := do
  let bands ← engine.forward w .periodization row
  return bands.approx ++ bands.detail

/-- The coefficients of rows one after the other, and the number of those of the last row. -/
def packRows (w : Wavelet) (rows : List (List Binary64)) :
    Except Error (List Binary64 × Nat) := do
  let packed ← rows.mapM (packRow w)
  return (packed.flatten, (packed.getLast?.map List.length).getD 0)

/-- The coefficients of a plane: the rows of `ll` continued by those of `lh`, and below them the
rows of `hl` continued by those of `hh`. -/
def packPlane (w : Wavelet) (height width : Nat) (plane : List Binary64) :
    Except Error (List Binary64) := do
  let bands ← engine.forwardMatrix w .periodization (← Matrix.ofData height width plane)
  let upper := bands.ll.rowList.zipWith (· ++ ·) bands.lh.rowList
  let lower := bands.hl.rowList.zipWith (· ++ ·) bands.hh.rowList
  return (upper ++ lower).flatten

/-- The packed coefficients of samples.  The rows and the planes are those that are counted for the
shape, and a plane must not be counted as empty. -/
def pack (w : Wavelet) (batch channels height width : Nat) (samples : List Binary64) :
    Dimension → Except Error (Tensor Binary64)
  | .one => do
    let rows := (pieces width samples).take (elementCount [batch, channels, height])
    let (packed, packedWidth) ← packRows w rows
    Tensor.ofData [batch, channels, height, packedWidth] packed
  | .two =>
    if height % 2 = 1 ∨ width % 2 = 1 then .error (.oddPlane height width)
    else if elementCount [height, width] = 0 then .error (.outOfBounds [height, width])
    else do
      let planes ← (pieces (elementCount [height, width]) samples).mapM (packPlane w height width)
      Tensor.ofData [batch, channels, height, width] planes.flatten

/-- The reference case of a shape and a source of its input. -/
def generate {S : Type} [NormalSource S] (w : Wavelet) (shape : List Nat) (dimension : Dimension)
    (source : S) : Except Error ReferenceCase :=
  match shape with
  | [batch, channels, height, width] =>
    if 0 ∈ shape then .error .emptyInput
    else do
      let samples := normalInput shape source
      let output ← pack w batch channels height width samples dimension
      let input ← Tensor.ofData shape samples
      return ⟨input, output⟩
  | _ => .error (.referenceShape shape)

end ReferenceCase

end WaveletPrecision
