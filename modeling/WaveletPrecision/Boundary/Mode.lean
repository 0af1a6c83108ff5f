import WaveletPrecision.Error
import WaveletPrecision.Text.Name

/-
The ways in which a signal is continued beyond its ends.
-/
namespace WaveletPrecision

/-- How a signal is continued beyond its ends. -/
inductive BoundaryMode where
  /-- Zeros. -/
  | zero
  /-- The sample at the end, repeated. -/
  | constant
  /-- Folded back between samples: the sample at the end is repeated once. -/
  | symmetric
  /-- Folded back at the sample at the end, which is not repeated. -/
  | reflect
  /-- Repeated from the other end. -/
  | periodic
  /-- The straight line through the two samples at the end. -/
  | smooth
  /-- Folded back between samples, with the sign changed. -/
  | antisymmetric
  /-- Repeated from the other end; a transform keeps as few coefficients as it can. -/
  | periodization
deriving DecidableEq

namespace BoundaryMode

/-- The mode that is taken when none is asked for. -/
def standard : BoundaryMode := symmetric

/-- Every mode. -/
def all : List BoundaryMode :=
  [zero, constant, symmetric, reflect, periodic, smooth, antisymmetric, periodization]

/-- The name of a mode. -/
def name : BoundaryMode → String
  | zero => "zero"
  | constant => "constant"
  | symmetric => "symmetric"
  | reflect => "reflect"
  | periodic => "periodic"
  | smooth => "smooth"
  | antisymmetric => "antisymmetric"
  | periodization => "periodization"

/-- Further names of a mode. -/
def aliases : BoundaryMode → List String
  | zero => ["zeros", "zpd"]
  | symmetric => ["sym", "half-symmetric"]
  | periodic => ["ppd", "wrap"]
  | periodization => ["per"]
  | _ => []

/-- The mode of a name. -/
def ofName (s : String) : Except Error BoundaryMode :=
  let name := Name.normalize s
  match all.find? (fun m => m.name = name || name ∈ m.aliases) with
  | some m => .ok m
  | none => .error (.unknownMode s)

end BoundaryMode

end WaveletPrecision
