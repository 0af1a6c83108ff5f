/-
Two-channel filter banks.

An orthogonal bank is determined by its low-pass analysis filter.  Its high-pass
analysis filter is the quadrature mirror: every second tap changes its sign, and the
order of the taps is reversed.  The synthesis filters are the analysis filters in
reversed order.
-/
namespace WaveletPrecision

variable {K L : Type}

/-- The taps with the sign of every second one changed, the first one kept. -/
def alternate [Neg K] (taps : List K) : List K :=
  taps.mapIdx fun k c => if k % 2 = 0 then c else -c

/-- The quadrature mirror of a low-pass filter. -/
def quadratureMirror [Neg K] (low : List K) : List K := (alternate low).reverse

/-- The two analysis filters of a bank. -/
structure FilterBank (K : Type) where
  low : List K
  high : List K
deriving DecidableEq

namespace FilterBank

/-- The orthogonal bank of a low-pass filter. -/
def ofLow [Neg K] (low : List K) : FilterBank K := ⟨low, quadratureMirror low⟩

/-- The number of taps of the low-pass filter. -/
def size (bank : FilterBank K) : Nat := bank.low.length

/-- The bank with every tap replaced. -/
def map (f : K → L) (bank : FilterBank K) : FilterBank L := ⟨bank.low.map f, bank.high.map f⟩

/-- The low-pass synthesis filter. -/
def synthesisLow (bank : FilterBank K) : List K := bank.low.reverse

/-- The high-pass synthesis filter. -/
def synthesisHigh (bank : FilterBank K) : List K := bank.high.reverse

end FilterBank

end WaveletPrecision
