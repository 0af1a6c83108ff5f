import WaveletPrecision.Matrix.Tensor
import WaveletPrecision.Sample.Basic
import WaveletPrecision.Storage.Store

/-
Stored arrays.

An artifact is a file of binary64 words, each in eight bytes with the lowest byte first,
and nothing else.  The shape is not stored; a reader brings it along.

* `Artifact.encode` and `Artifact.decode?` are the two directions of the format;
* `Artifact.path` is the one place of a result of a transform.
-/
namespace WaveletPrecision

/-- The kinds of results that a transform stores. -/
inductive Suffix where
  | approx
  | detail
  | approxApprox
  | detailApprox
  | approxDetail
  | detailDetail
  | inverse
deriving DecidableEq

namespace Suffix

/-- The results of a one-dimensional transform. -/
def oneDimensional : List Suffix := [approx, detail, inverse]

/-- The results of a two-dimensional transform. -/
def twoDimensional : List Suffix :=
  [approxApprox, detailApprox, approxDetail, detailDetail, inverse]

/-- Every suffix. -/
def all : List Suffix :=
  [approx, detail, approxApprox, detailApprox, approxDetail, detailDetail, inverse]

/-- The ending of a file name. -/
def name : Suffix → String
  | approx => "l_fwd"
  | detail => "h_fwd"
  | approxApprox => "ll_fwd"
  | detailApprox => "lh_fwd"
  | approxDetail => "hl_fwd"
  | detailDetail => "hh_fwd"
  | inverse => "inv"

/-- The suffix of a name. -/
def ofName? (s : String) : Option Suffix := all.find? fun suffix => suffix.name = s

end Suffix

namespace Artifact

/-- The place of a result below a directory: a directory for the input, and in it a file named
for the wavelet and the kind of result. -/
def path (root : Path) (input wavelet : String) (suffix : Suffix) : Path :=
  (root.join (.ofString input)).join (.ofString (wavelet ++ "_" ++ suffix.name))

/-! ### The format -/

/-- The number of bytes of a word. -/
def wordBytes : Nat := 8

/-- So many bytes of a number, the lowest first. -/
def lowBytes : Nat → Nat → List UInt8
  | 0, _ => []
  | count + 1, n => UInt8.ofNat n :: lowBytes count (n / 256)

/-- The number that bytes make up, the lowest first. -/
def ofLowBytes (bytes : List UInt8) : Nat := bytes.foldr (fun byte n => byte.toNat + 256 * n) 0

/-- The bytes of a value. -/
def encodeValue (x : Binary64) : List UInt8 := lowBytes wordBytes x.toWord

/-- The value of eight bytes. -/
def decodeValue (bytes : List UInt8) : Binary64 := .ofWord (ofLowBytes bytes)

/-- The content of a file of values. -/
def encode (values : List Binary64) : ByteArray := ⟨(values.flatMap encodeValue).toArray⟩

/-- The byte at a place of a file, and zero behind its end. -/
def byteAt (content : ByteArray) (i : Nat) : UInt8 :=
  if h : i < content.size then content[i] else 0

/-- The bytes of the word with a given number. -/
def wordAt (content : ByteArray) (n : Nat) : List UInt8 :=
  (List.range' (wordBytes * n) wordBytes).map (byteAt content)

/-- The values in the content of a file, which must be a whole number of words. -/
def decode? (content : ByteArray) : Option (List Binary64) :=
  if content.size % wordBytes = 0 then
    some ((List.range (content.size / wordBytes)).map fun n => decodeValue (wordAt content n))
  else none

/-! ### Files -/

variable {M : Type → Type} [Monad M] [Store M]

/-- Store values at a path. -/
def writeValues (path : Path) (values : List Binary64) : StoreM M Unit :=
  Store.writeBytes path (encode values)

/-- The values stored at a path. -/
def readValues (path : Path) : StoreM M (List Binary64) := do
  let content ← Store.readBytes path
  match decode? content with
  | some values => return values
  | none => throw (.malformedArtifact path content.size)

/-- The values stored at a path, whose number must fit the shape. -/
def readTensor (path : Path) (shape : List Nat) : StoreM M (Tensor Binary64) := do
  let values ← readValues path
  Store.ofResult (Tensor.ofData shape values)

/-- Store the elements of a tensor. -/
def writeTensor (path : Path) (t : Tensor Binary64) : StoreM M Unit := writeValues path t.data

end Artifact

end WaveletPrecision
