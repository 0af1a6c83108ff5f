import WaveletPrecision.Random.Source
import WaveletPrecision.Random.Ziggurat

/-
Samples of the standard normal distribution.

A sample is a point of a random layer, taken at once if it lies below the next edge, and
otherwise accepted with the share of the layer that lies under the density; the lowest
layer hands over to the tail.  Rejected points are drawn again.  A draw is rejected with
a probability of about one in a hundred, so the number of attempts that the definitions
allow is never used up.
-/
namespace WaveletPrecision

namespace Normal

variable {S : Type} [RandomSource S]

/-- The number of attempts before a sample is given up. -/
def attempts : Nat := 1000

/-- The exponential function, rounded as the machine rounds it. -/
def exponential (x : Binary64) : Binary64 :=
  .ofWord (Float.exp (Float.ofBits (UInt64.ofNat x.toWord))).toBits.toNat

/-- The natural logarithm, rounded as the machine rounds it. -/
def logarithm (x : Binary64) : Binary64 :=
  .ofWord (Float.log (Float.ofBits (UInt64.ofNat x.toWord))).toBits.toNat

/-- A sample of the open interval between zero and one. -/
def openUnitSample (word : UInt64) : Binary64 :=
  let half : Binary64 := .twoPow (-53)
  fractionOf 1.0 word - (1.0 - half)

/-- The distance of a sample of the tail from its start, negated, while the candidates `x` and
`y` are refused. -/
def tailDepth : Nat → Binary64 → Binary64 → S → Binary64 × S
  | 0, x, _, s => (x, s)
  | fuel + 1, x, y, s =>
    if (-2.0 * y).lt (x * x) then
      let (a, s) := RandomSource.next s
      let (c, s) := RandomSource.next s
      tailDepth fuel (logarithm (openUnitSample a) / Ziggurat.tailStart)
        (logarithm (openUnitSample c)) s
    else (x, s)

/-- A sample of the tail, on the side of `u`. -/
def tailSample (u : Binary64) (s : S) : Binary64 × S :=
  let (x, s) := tailDepth attempts 1.0 0.0 s
  (if u.lt 0.0 then x - Ziggurat.tailStart else Ziggurat.tailStart - x, s)

/-- A sample, with a bounded number of attempts. -/
def sampleWithin : Nat → S → Binary64 × S
  | 0, s => (0, s)
  | fuel + 1, s =>
    let (word, s) := RandomSource.next s
    let i := (word &&& 0xff).toNat
    let u := fractionOf 2.0 word - 3.0
    let x := u * Ziggurat.edge i
    if x.abs.lt (Ziggurat.edge (i + 1)) then (x, s)
    else if i = 0 then tailSample u s
    else
      let (share, s) := RandomSource.next s
      let level := Ziggurat.height (i + 1)
        + (Ziggurat.height i - Ziggurat.height (i + 1)) * unitSample share
      if level.lt (exponential (-x * x / 2.0)) then (x, s) else sampleWithin fuel s

end Normal

/-- A source of words is a source of normal samples, which are rounded to single precision. -/
instance {S : Type} [RandomSource S] : NormalSource S where
  next s :=
    let (x, s) := Normal.sampleWithin Normal.attempts s
    (Sample.narrow x, s)

end WaveletPrecision
