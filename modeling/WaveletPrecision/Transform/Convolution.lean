import WaveletPrecision.Boundary.Extension
import WaveletPrecision.FilterBank.Basic

/-
The single-level transform of a filter bank.

In every mode but periodization, coefficient `o` of a band meets the extended signal at
the positions `2 * o + 1 - j`, where `j` runs over the taps, and every coefficient whose
window meets the signal is kept.  In periodization a signal of odd length first repeats
its last sample; then the window of coefficient `o` starts at `F / 2 + 2 * o` for a filter
of `F` taps, positions wrap around, and half as many coefficients as samples are kept.

The inverse is the transpose of the analysis: sample `n` collects the coefficients whose
window covers it, each with the tap that met it.

* `coefficientCount` and `reconstructionLength?` are the lengths of the two directions;
* `FilterBank.forward` and `FilterBank.inverse` are the two directions.

Nothing is assumed about the arithmetic, so that the definitions say what happens in every
sample type, bit for bit.
-/
namespace WaveletPrecision

/-- The number of coefficients per band of a signal of `n` samples. -/
def coefficientCount (mode : BoundaryMode) (filterSize n : Nat) : Nat :=
  if mode = .periodization then (n + 1) / 2 else (n + filterSize - 1) / 2

/-- The length of a reconstruction from so many coefficients per band, if there is one. -/
def reconstructionLength? (mode : BoundaryMode) (filterSize coefficients : Nat) : Option Nat :=
  if mode = .periodization then some (2 * coefficients)
  else if filterSize ≤ 2 * coefficients + 2 then some (2 * coefficients + 2 - filterSize)
  else none

/-- The position that the first tap of a filter meets for coefficient `o`. -/
def windowStart (mode : BoundaryMode) (filterSize o : Nat) : Int :=
  if mode = .periodization then ((filterSize / 2 + 2 * o : Nat) : Int) else (2 * o + 1 : Nat)

/-- A list of odd length with its last element repeated, and any other list as it is. -/
def padEven {K : Type} (x : List K) : List K :=
  if x.length % 2 = 1 then x ++ x.getLast?.toList else x

variable {K : Type} [Zero K] [Add K] [Sub K] [Mul K] [Neg K] [NatCast K]

/-- The coefficients of one band: the filter at every window, in steps of two samples. -/
def analyze (mode : BoundaryMode) (filter x : List K) : List K :=
  let samples := (if mode = .periodization then padEven x else x).toArray
  (List.range (coefficientCount mode filter.length x.length)).map fun o =>
    weightedSum filter fun j => extend mode samples (windowStart mode filter.length o - j)

/-- One coefficient of each band, added to a sample through the taps that met it. -/
def gather (lowTap highTap approx detail sum : K) : K :=
  lowTap * approx + (highTap * detail + sum)

/-- The reconstruction in periodization: every coefficient in turn is added to the samples of
its window, which wraps around as often as it is longer than the signal. -/
def synthesizePeriodized (bank : FilterBank K) (approx detail : List K) : List K :=
  let length := 2 * approx.length
  let taps := bank.low.zip bank.high
  let contributions := (approx.zip detail).zipIdx.flatMap fun ((a, d), o) =>
    taps.zipIdx.map fun ((l, h), j) =>
      let position := windowStart .periodization bank.size o - j
      ((position % (length : Int)).toNat, gather l h a d)
  (contributions.foldl (fun (out : Array K) (n, add) => out.modify n add)
    (Array.replicate length 0)).toList

/-- The coefficients `o`, `o + 1`, …, so many of them, added to sample `n` through the taps that
met it.  A coefficient whose window lies before the sample is passed over, and the first one
whose window lies behind it ends the sum. -/
def gatherCovering (low high approx detail : Array K) (n : Nat) : Nat → Nat → K → K
  | 0, _, sum => sum
  | count + 1, o, sum =>
    let j : Int := 2 * o + 1 - n
    if j < 0 then gatherCovering low high approx detail n count (o + 1) sum
    else if low.size ≤ j then sum
    else
      gatherCovering low high approx detail n count (o + 1)
        (gather (low.getD j.toNat 0) (high.getD j.toNat 0) (approx.getD o 0) (detail.getD o 0)
          sum)

/-- The reconstruction in the other modes: sample `n` meets tap `2 * o + 1 - n` of
coefficient `o`, and no coefficient before `(n - 1) / 2` can cover it. -/
def synthesizeWindowed (bank : FilterBank K) (length : Nat) (approx detail : List K) : List K :=
  let low := bank.low.toArray
  let high := bank.high.toArray
  let a := approx.toArray
  let d := detail.toArray
  (List.range length).map fun (n : Nat) =>
    let first := (((n : Int) - 1) / 2).toNat
    gatherCovering low high a d n (a.size - first) first 0

namespace FilterBank

/-- The forward transform: approximation and detail of a signal that is not empty. -/
def forward (bank : FilterBank K) (mode : BoundaryMode) (x : List K) :
    Except Error (List K × List K) :=
  if x.isEmpty then .error .emptyInput
  else .ok (analyze mode bank.low x, analyze mode bank.high x)

/-- The inverse transform of two bands of one length. -/
def inverse (bank : FilterBank K) (mode : BoundaryMode) (approx detail : List K) :
    Except Error (List K) :=
  if approx.length ≠ detail.length then
    .error (.coefficientMismatch approx.length detail.length)
  else if approx.isEmpty then .error .emptyInput
  else
    match reconstructionLength? mode bank.size approx.length with
    | none => .error (.tooFewCoefficients approx.length bank.size)
    | some length =>
      if mode = .periodization then .ok (synthesizePeriodized bank approx detail)
      else .ok (synthesizeWindowed bank length approx detail)

end FilterBank

end WaveletPrecision
