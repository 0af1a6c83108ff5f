import WaveletPrecision.Matrix.Bands
import WaveletPrecision.Sample.Precision
import WaveletPrecision.Transform.Convolution
import WaveletPrecision.Transform.Lifting

/-
Transform engines.

An engine transforms binary64 signals: it rounds its input into the sample type of a
precision, does every operation there, and widens the result.  The stages of an
experiment use an engine as it is given to them and know nothing of the algorithm.
-/
namespace WaveletPrecision

/-- The way a transform is computed. -/
inductive Algorithm where
  | convolution
  | lifting
deriving DecidableEq

namespace Algorithm

/-- The algorithm that is taken when none is asked for. -/
def standard : Algorithm := convolution

/-- The name of an algorithm. -/
def name : Algorithm → String
  | convolution => "convolution"
  | lifting => "lifting"

/-- The algorithm of a name. -/
def ofName (s : String) : Except Error Algorithm :=
  let name := Name.normalize s
  if name ∈ ["convolution", "conv"] then .ok convolution
  else if name = "lifting" then .ok lifting
  else .error (.invalidConfig (.unknownAlgorithm name))

end Algorithm

/-- The two bands of a one-dimensional transform. -/
structure Coefficients where
  approx : List Binary64
  detail : List Binary64
deriving DecidableEq

/-- A single-level transform and its inverse, in one and in two dimensions. -/
structure Engine where
  /-- The algorithm and the precision, for messages. -/
  label : String
  forward : Wavelet → BoundaryMode → List Binary64 → Except Error Coefficients
  inverse : Wavelet → BoundaryMode → Coefficients → Except Error (List Binary64)
  forwardMatrix : Wavelet → BoundaryMode → Matrix Binary64 → Except Error (Bands Binary64)
  inverseMatrix : Wavelet → BoundaryMode → Bands Binary64 → Except Error (Matrix Binary64)

/-! ### Two dimensions over a sample type -/

namespace FilterBank

variable {K : Type} [Zero K] [Add K] [Sub K] [Mul K] [Neg K] [NatCast K]

/-- The forward transform of a matrix. -/
def forwardMatrix (bank : FilterBank K) (mode : BoundaryMode) (m : Matrix K) :
    Except Error (Bands K) :=
  Separable.forward (bank.forward mode) m

/-- The inverse transform of four bands, which must share one shape. -/
def inverseMatrix (bank : FilterBank K) (mode : BoundaryMode) (bands : Bands K) :
    Except Error (Matrix K) :=
  match [bands.lh, bands.hl, bands.hh].find? (fun band => band.shape != bands.ll.shape) with
  | some band => .error (.shapesDiffer bands.ll.shape band.shape)
  | none => Separable.inverse (bank.inverse mode) bands

end FilterBank

namespace LiftingScheme

variable {K : Type} [Zero K] [Add K] [Sub K] [Mul K] [Div K] [Neg K] [NatCast K]

/-- The forward transform of a matrix. -/
def forwardMatrix (scheme : LiftingScheme K) (mode : BoundaryMode) (m : Matrix K) :
    Except Error (Bands K) :=
  Separable.forward (scheme.forward mode) m

/-- The inverse transform of four bands. -/
def inverseMatrix (scheme : LiftingScheme K) (mode : BoundaryMode) (bands : Bands K) :
    Except Error (Matrix K) :=
  Separable.inverse (scheme.inverse mode) bands

end LiftingScheme

/-! ### The seam to binary64 -/

/-- A matrix rounded into a sample type. -/
def Matrix.narrow (T : Type) [Sample T] (m : Matrix Binary64) : Matrix T := m.map Sample.narrow

/-- A matrix of samples, widened. -/
def Matrix.widen {T : Type} [Sample T] (m : Matrix T) : Matrix Binary64 := m.map Sample.widen

/-- Four bands rounded into a sample type. -/
def Bands.narrow (T : Type) [Sample T] (bands : Bands Binary64) : Bands T :=
  bands.map Sample.narrow

/-- Four bands of samples, widened. -/
def Bands.widen {T : Type} [Sample T] (bands : Bands T) : Bands Binary64 :=
  bands.map Sample.widen

/-- Two bands of samples, widened. -/
def Coefficients.ofSamples {T : Type} [Sample T] (bands : List T × List T) : Coefficients :=
  ⟨Sample.widenAll bands.1, Sample.widenAll bands.2⟩

namespace Engine

/-- The filter-bank engine of a sample type. -/
def convolution (T : Type) [Sample T] (label : String) : Engine where
  label := label
  forward w mode x := do
    let bands ← (w.bankIn T).forward mode (Sample.narrowAll T x)
    return .ofSamples bands
  inverse w mode c := do
    let x ← (w.bankIn T).inverse mode (Sample.narrowAll T c.approx) (Sample.narrowAll T c.detail)
    return Sample.widenAll x
  forwardMatrix w mode m := do
    let bands ← (w.bankIn T).forwardMatrix mode (m.narrow T)
    return bands.widen
  inverseMatrix w mode bands := do
    let m ← (w.bankIn T).inverseMatrix mode (bands.narrow T)
    return m.widen

/-- The lifting engine of a sample type, for the wavelets that have a scheme. -/
def lifting (T : Type) [Sample T] (label : String) : Engine where
  label := label
  forward w mode x := do
    let scheme ← LiftingScheme.ofWavelet w
    let bands ← (scheme.map Sample.narrow).forward mode (Sample.narrowAll T x)
    return .ofSamples bands
  inverse w mode c := do
    let scheme ← LiftingScheme.ofWavelet w
    let x ← (scheme.map Sample.narrow).inverse mode (Sample.narrowAll T c.approx)
      (Sample.narrowAll T c.detail)
    return Sample.widenAll x
  forwardMatrix w mode m := do
    let scheme ← LiftingScheme.ofWavelet w
    let bands ← (scheme.map Sample.narrow).forwardMatrix mode (m.narrow T)
    return bands.widen
  inverseMatrix w mode bands := do
    let scheme ← LiftingScheme.ofWavelet w
    let m ← (scheme.map Sample.narrow).inverseMatrix mode (bands.narrow T)
    return m.widen

/-- The engine of an algorithm at a precision. -/
def of (algorithm : Algorithm) (precision : Precision) : Engine :=
  let label := algorithm.name ++ "-" ++ precision.name
  match algorithm with
  | .convolution => convolution precision.Carrier label
  | .lifting => lifting precision.Carrier label

end Engine

end WaveletPrecision
