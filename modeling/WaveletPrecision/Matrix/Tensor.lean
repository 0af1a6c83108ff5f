import WaveletPrecision.Matrix.Basic

/-
Arrays with an explicit shape, in row-major order.
-/
namespace WaveletPrecision

/-- A list of elements with a shape of which they are counted to be as many. -/
structure Tensor (K : Type) where
  shape : List Nat
  data : List K
  length_eq : data.length = elementCount shape

namespace Tensor

variable {K : Type}

/-- The tensor of a list of elements, whose number must fit the shape. -/
def ofData (shape : List Nat) (data : List K) : Except Error (Tensor K) :=
  if h : data.length = elementCount shape then .ok ⟨shape, data, h⟩
  else .error (.shapeMismatch shape data.length)

/-- The tensor with one dimension. -/
def ofList (data : List K) : Tensor K := ⟨[data.length], data, rfl⟩

/-- The tensor of a matrix, whose elements a word can count. -/
def ofMatrix (m : Matrix K) (h : m.rows * m.cols < wordCount) : Tensor K :=
  ⟨m.shape, m.toList, by
    simp [Matrix.shape, Matrix.toList, elementCount, m.size_eq, Nat.mod_eq_of_lt h]⟩

/-- The number of dimensions. -/
def dimensions (t : Tensor K) : Nat := t.shape.length

/-- The number of elements. -/
def size (t : Tensor K) : Nat := t.data.length

/-- There are no elements. -/
def isEmpty (t : Tensor K) : Bool := t.data.isEmpty

/-- A tensor with two dimensions, as a matrix. -/
def toMatrix (t : Tensor K) : Except Error (Matrix K) :=
  match t.shape with
  | [rows, cols] => Matrix.ofElements rows cols t.data
  | _ => .error (.unsupportedDimension t.dimensions)

end Tensor

end WaveletPrecision
