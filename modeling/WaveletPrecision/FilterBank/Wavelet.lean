import WaveletPrecision.Error
import WaveletPrecision.FilterBank.Basic
import WaveletPrecision.Sample.Basic
import WaveletPrecision.Text.Name

/-
The wavelets that experiments can name.

A wavelet is a name for a low-pass filter.  Two names can stand for the same filter:
`db1` is the Haar filter, and `sym2` and `sym3` are the filters of `db2` and `db3`.
-/
namespace WaveletPrecision

/-- The low-pass filters of the known wavelets. -/
inductive FilterFamily where
  | haar
  | daubechies2
  | daubechies3
  | daubechies4
  | symlet4
  | coiflet1
deriving DecidableEq

/-- The low-pass analysis taps, rounded to double precision. -/
def FilterFamily.low : FilterFamily → List Binary64
  | haar => [0.7071067811865476, 0.7071067811865476]
  | daubechies2 =>
    [-0.12940952255126037, 0.2241438680420134, 0.8365163037378079, 0.48296291314453416]
  | daubechies3 =>
    [0.03522629188570953, -0.08544127388202666, -0.13501102001025458,
      0.45987750211849154, 0.8068915093110925, 0.33267055295008263]
  | daubechies4 =>
    [-0.010597401785069032, 0.0328830116668852, 0.030841381835560764,
      -0.18703481171909309, -0.027983769416859854, 0.6308807679298589,
      0.7148465705529157, 0.2303778133088965]
  | symlet4 =>
    [-0.07576571478927333, -0.02963552764599851, 0.49761866763201545,
      0.8037387518059161, 0.29785779560527736, -0.09921954357684722,
      -0.012603967262037833, 0.0322231006040427]
  | coiflet1 =>
    [-0.01565572813546454, -0.0727326195128539, 0.38486484686420286,
      0.8525720202122554, 0.3378976624578092, -0.0727326195128539]

/-- The wavelets with a known lifting factorisation. -/
inductive LiftingFamily where
  | haar
  | daubechies2
deriving DecidableEq

namespace LiftingFamily

/-- The name of a family. -/
def name : LiftingFamily → String
  | haar => "haar"
  | daubechies2 => "daubechies2"

end LiftingFamily

/-- The lifting factorisation of a filter, where one is known. -/
def FilterFamily.lifting? : FilterFamily → Option LiftingFamily
  | haar => some .haar
  | daubechies2 => some .daubechies2
  | _ => none

/-- A wavelet: a name and the filter it stands for. -/
structure Wavelet where
  name : String
  family : FilterFamily
deriving DecidableEq

namespace Wavelet

/-- Every known wavelet. -/
def all : List Wavelet :=
  [⟨"haar", .haar⟩, ⟨"db1", .haar⟩, ⟨"db2", .daubechies2⟩, ⟨"db3", .daubechies3⟩,
    ⟨"db4", .daubechies4⟩, ⟨"sym2", .daubechies2⟩, ⟨"sym3", .daubechies3⟩,
    ⟨"sym4", .symlet4⟩, ⟨"coif1", .coiflet1⟩]

/-- The names of the known wavelets. -/
def names : List String := all.map name

/-- The wavelet of a name. -/
def ofName (id : String) : Except Error Wavelet :=
  match all.find? (fun w => w.name = Name.normalize id) with
  | some w => .ok w
  | none => .error (.unknownWavelet id)

/-- The double-precision filter bank of a wavelet. -/
def bank (w : Wavelet) : FilterBank Binary64 := .ofLow w.family.low

/-- The filter bank of a wavelet, its taps rounded into a sample type. -/
def bankIn (T : Type) [Sample T] (w : Wavelet) : FilterBank T := w.bank.map Sample.narrow

/-- The number of taps of each filter of the bank. -/
def filterSize (w : Wavelet) : Nat := w.bank.size

/-- The lifting factorisation, where one is known. -/
def lifting? (w : Wavelet) : Option LiftingFamily := w.family.lifting?

end Wavelet

end WaveletPrecision
