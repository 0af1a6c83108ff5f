import WaveletPrecision.Storage.Path

/-
What can go wrong, and how it is told.

A constructor is a cause; its wording is `Error.message`.  The part of a message that
only the experiment file can be blamed for is an `InvalidEntry`.
-/
namespace WaveletPrecision

/-- Why a file operation failed. -/
inductive Fault where
  | notFound
  | alreadyExists
  | notADirectory
  | isADirectory
  | nameTooLong
  | nulInName
  | invalidText
  | other (text : String)
deriving DecidableEq

/-- The wording of a fault. -/
def Fault.message : Fault → String
  | .notFound => "No such file or directory (os error 2)"
  | .alreadyExists => "File exists (os error 17)"
  | .notADirectory => "Not a directory (os error 20)"
  | .isADirectory => "Is a directory (os error 21)"
  | .nameTooLong => "File name too long (os error 36)"
  | .nulInName => "file name contained an unexpected NUL byte"
  | .invalidText => "stream did not contain valid UTF-8"
  | .other text => text

/-- What was being done to a file. -/
inductive FileAction where
  | read
  | createDirectory
  | create
  | write
deriving DecidableEq

/-- The wording of an action. -/
def FileAction.message : FileAction → String
  | .read => "read"
  | .createDirectory => "create directory"
  | .create => "create"
  | .write => "write"

/-- Why an entry that could be read is refused. -/
inductive InvalidEntry where
  | notAFileName (kind name : String)
  | nonFiniteMagnitude (input : String)
  | unknownAlgorithm (name : String)
  | unknownDimension (name : String)
deriving DecidableEq

/-- The wording of a refusal. -/
def InvalidEntry.message : InvalidEntry → String
  | .notAFileName kind name => kind ++ " name `" ++ name ++ "` is not a file name"
  | .nonFiniteMagnitude input => "input `" ++ input ++ "` has non-finite magnitude"
  | .unknownAlgorithm name => "unknown algorithm `" ++ name ++ "`"
  | .unknownDimension name => "unknown dimension `" ++ name ++ "`"

/-- A shape in brackets, as in `[2, 3]`. -/
def renderShape (shape : List Nat) : String :=
  "[" ++ String.intercalate ", " (shape.map toString) ++ "]"

/-- A failure of a transform, of a stage, or of reading what was asked for. -/
inductive Error where
  | io (action : FileAction) (path : Path) (fault : Fault)
  | malformedConfig (path : Path)
  | invalidConfig (entry : InvalidEntry)
  | unknownWavelet (name : String)
  | unknownMode (name : String)
  | unknownPrecision (name : String)
  | noLiftingScheme (wavelet : String)
  | emptyInput
  | shapeMismatch (expected : List Nat) (actual : Nat)
  | shapesDiffer (left right : List Nat)
  | coefficientMismatch (approx detail : Nat)
  | tooFewCoefficients (coefficients filter : Nat)
  | unsupportedDimension (dimensions : Nat)
  | referenceShape (shape : List Nat)
  | oddPlane (height width : Nat)
  | malformedArtifact (path : Path) (length : Nat)
  /-- The first look at a matrix of this shape would come to a place without an element, and the
  program would end there. -/
  | outOfBounds (shape : List Nat)
deriving DecidableEq

namespace Error

/-- The wording of an error. -/
def message : Error → String
  | io action path fault => action.message ++ " " ++ path.toString ++ ": " ++ fault.message
  | malformedConfig path => "failed to parse configuration " ++ path.toString
  | invalidConfig entry => "invalid configuration: " ++ entry.message
  | unknownWavelet name => "unknown wavelet `" ++ name ++ "`"
  | unknownMode name => "unknown boundary mode `" ++ name ++ "`"
  | unknownPrecision name => "unknown precision `" ++ name ++ "`"
  | noLiftingScheme wavelet =>
    "no lifting scheme is available for wavelet `" ++ wavelet ++ "`"
  | emptyInput => "input signal is empty"
  | shapeMismatch expected actual =>
    "cannot reshape " ++ toString actual ++ " values into shape " ++ renderShape expected
  | shapesDiffer left right =>
    "shape " ++ renderShape left ++ " does not match " ++ renderShape right
  | coefficientMismatch approx detail =>
    "approximation length " ++ toString approx ++ " does not match detail length "
      ++ toString detail
  | tooFewCoefficients coefficients filter =>
    toString coefficients ++ " coefficients are too few to reconstruct with a "
      ++ toString filter ++ "-tap filter"
  | unsupportedDimension dimensions =>
    "unsupported dimensionality " ++ toString dimensions ++ " (expected 1 or 2)"
  | referenceShape shape =>
    "reference shape must be [batch, channels, height, width], got " ++ renderShape shape
  | oddPlane height width =>
    "2-D reference needs an even plane, got " ++ toString height ++ "x" ++ toString width
  | malformedArtifact path length =>
    path.toString ++ " holds " ++ toString length ++ " bytes, not a multiple of 8"
  | outOfBounds shape => "elements of shape " ++ renderShape shape ++ " are out of bounds"

/-- The error is a missing file or directory. -/
def isNotFound : Error → Bool
  | io _ _ .notFound => true
  | _ => false

end Error

end WaveletPrecision
