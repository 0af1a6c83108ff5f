import WaveletPrecision.Boundary.Extension
import WaveletPrecision.FilterBank.Wavelet

/-
The single-level transform of a lifting scheme.

A signal is split into its samples at even and at odd positions.  A predict step corrects
the odd part by a filter of the even part, an update step corrects the even part by a
filter of the odd part, and a scale step multiplies the two parts by a factor each.  The
approximation is the even part after the last step, the detail the odd part.

The inverse takes the steps back in reverse order.  A step reads one part and changes the
other, so taking it back meets the same filter values in every boundary mode.
-/
namespace WaveletPrecision

/-- Filter taps that meet the positions `i + shift`, `i + shift + 1`, … for sample `i`, where the
shift and the positions are signed words. -/
structure Stencil (K : Type) where
  taps : List K
  shift : Int
deriving DecidableEq

/-- A step of a lifting scheme. -/
inductive LiftingStep (K : Type) where
  /-- Add a filter of the even part to the odd part. -/
  | predict (stencil : Stencil K)
  /-- Add a filter of the odd part to the even part. -/
  | update (stencil : Stencil K)
  /-- Multiply each part by a factor. -/
  | scale (even odd : K)
deriving DecidableEq

/-- A lifting scheme: its steps, in the order of the forward transform. -/
structure LiftingScheme (K : Type) where
  steps : List (LiftingStep K)
deriving DecidableEq

/-! ### Splitting a signal -/

/-- The elements at the positions 0, 2, 4, … and those at the positions 1, 3, 5, … -/
def deinterleave {K : Type} (x : List K) : List K × List K :=
  x.foldr (fun a parts => (a :: parts.2, parts.1)) ([], [])

@[simp] theorem deinterleave_nil {K : Type} : deinterleave ([] : List K) = ([], []) := rfl

@[simp] theorem deinterleave_cons {K : Type} (a : K) (x : List K) :
    deinterleave (a :: x) = (a :: (deinterleave x).2, (deinterleave x).1) := rfl

/-- The elements of the first list, each followed by its partner in the second while there
is one. -/
def interleave {K : Type} (xs ys : List K) : List K :=
  (xs.zipWith (fun x y => [x, y]) ys).flatten ++ xs.drop ys.length

@[simp] theorem interleave_nil_left {K : Type} (ys : List K) : interleave [] ys = [] := by
  simp [interleave]

@[simp] theorem interleave_nil_right {K : Type} (xs : List K) : interleave xs [] = xs := by
  simp [interleave]

@[simp] theorem interleave_cons_cons {K : Type} (x y : K) (xs ys : List K) :
    interleave (x :: xs) (y :: ys) = x :: y :: interleave xs ys := by
  simp [interleave]

/-! ### Changing the taps -/

variable {K L : Type}

/-- The stencil with every tap replaced. -/
def Stencil.map (f : K → L) (stencil : Stencil K) : Stencil L :=
  ⟨stencil.taps.map f, stencil.shift⟩

/-- The step with every tap and factor replaced. -/
def LiftingStep.map (f : K → L) : LiftingStep K → LiftingStep L
  | predict stencil => .predict (stencil.map f)
  | update stencil => .update (stencil.map f)
  | scale even odd => .scale (f even) (f odd)

/-- The scheme with every tap and factor replaced. -/
def LiftingScheme.map (f : K → L) (scheme : LiftingScheme K) : LiftingScheme L :=
  ⟨scheme.steps.map (LiftingStep.map f)⟩

/-! ### Known factorisations -/

namespace LiftingScheme

variable [Add K] [Sub K] [Mul K] [Div K] [Neg K] [NatCast K]

/-- The orthonormal Haar scheme, from a square root of two. -/
def haar (root2 : K) : LiftingScheme K where
  steps := [
    .predict ⟨[-((1 : Nat) : K)], 0⟩,
    .update ⟨[((1 : Nat) : K) / ((2 : Nat) : K)], 0⟩,
    .scale root2 (-((1 : Nat) : K) / root2)]

/-- The scheme of the four-tap Daubechies wavelet, from square roots of three and of two. -/
def daubechies2 (root3 root2 : K) : LiftingScheme K where
  steps := [
    .update ⟨[root3], 0⟩,
    .predict ⟨[-(root3 - ((2 : Nat) : K)) / ((4 : Nat) : K), -root3 / ((4 : Nat) : K)], -1⟩,
    .update ⟨[-((1 : Nat) : K)], 1⟩,
    .scale ((root3 - ((1 : Nat) : K)) / root2) ((root3 + ((1 : Nat) : K)) / root2)]

/-- The square root of two, rounded to double precision. -/
def root2 : Binary64 := 1.4142135623730951

/-- The square root of three, rounded to double precision. -/
def root3 : Binary64 := 1.7320508075688772

/-- The double-precision scheme of a family. -/
def ofFamily : LiftingFamily → LiftingScheme Binary64
  | .haar => haar root2
  | .daubechies2 => daubechies2 root3 root2

/-- The double-precision scheme of a wavelet that has one. -/
def ofWavelet (w : Wavelet) : Except Error (LiftingScheme Binary64) :=
  match w.lifting? with
  | some family => .ok (ofFamily family)
  | none => .error (.noLiftingScheme w.name)

end LiftingScheme

/-! ### The transform -/

/-- A number of elements that no list in memory has. -/
def indexLimit : Nat := 4611686018427387904

/-- The number of values of a signed word that are not negative. -/
def positionLimit : Int := 9223372036854775808

/-- The position that tap `j` of a stencil meets for sample `i`.  It is computed as a signed word, so
a shift by which the sum exceeds the word leads to a position on the other side of the signal.
Samples and taps from `indexLimit` on, which no list in memory has, are left out of this. -/
def Stencil.position (stencil : Stencil K) (i j : Nat) : Int :=
  let k := i + stencil.shift + j
  if i < indexLimit ∧ j < indexLimit ∧ positionLimit ≤ k then k - 2 * positionLimit else k

theorem Stencil.position_of_lt {stencil : Stencil K} {i j : Nat}
    (h : i + stencil.shift + j < positionLimit) :
    stencil.position i j = i + stencil.shift + j :=
  if_neg fun beyond => Int.not_le.2 h beyond.2.2

/-- A shift by one place at the most leads to no position beyond the word. -/
theorem Stencil.position_of_shift_le_one {stencil : Stencil K} (h : stencil.shift ≤ 1) (i j : Nat) :
    stencil.position i j = i + stencil.shift + j := by
  refine if_neg fun ⟨hi, hj, beyond⟩ => ?_
  simp only [indexLimit, positionLimit] at hi hj beyond
  omega

variable [Zero K] [Add K] [Sub K] [Mul K] [Div K] [Neg K] [NatCast K]

/-- What a stencil computes from a part of the signal, for sample `i` of the other part. -/
def Stencil.apply (stencil : Stencil K) (mode : BoundaryMode) (source : Array K) (i : Nat) : K :=
  weightedSum stencil.taps fun j => extend mode source (stencil.position i j)

/-- Every sample of one part combined with what a stencil computes from the other part. -/
def Stencil.lift (stencil : Stencil K) (mode : BoundaryMode) (combine : K → K → K)
    (target source : List K) : List K :=
  let samples := source.toArray
  target.mapIdx fun i t => combine t (stencil.apply mode samples i)

/-- A step of the forward transform on the even and the odd part. -/
def LiftingStep.run (mode : BoundaryMode) (parts : List K × List K) :
    LiftingStep K → List K × List K
  | predict stencil => (parts.1, stencil.lift mode (· + ·) parts.2 parts.1)
  | update stencil => (stencil.lift mode (· + ·) parts.1 parts.2, parts.2)
  | scale even odd => (parts.1.map (· * even), parts.2.map (· * odd))

/-- A step of the inverse transform on the even and the odd part. -/
def LiftingStep.undo (mode : BoundaryMode) (parts : List K × List K) :
    LiftingStep K → List K × List K
  | predict stencil => (parts.1, stencil.lift mode (· - ·) parts.2 parts.1)
  | update stencil => (stencil.lift mode (· - ·) parts.1 parts.2, parts.2)
  | scale even odd => (parts.1.map (· / even), parts.2.map (· / odd))

namespace LiftingScheme

/-- The forward transform: approximation and detail of a signal that is not empty. -/
def forward (scheme : LiftingScheme K) (mode : BoundaryMode) (x : List K) :
    Except Error (List K × List K) :=
  if x.isEmpty then .error .emptyInput
  else .ok (scheme.steps.foldl (LiftingStep.run mode) (deinterleave x))

/-- The inverse transform; the approximation may be one sample longer than the detail. -/
def inverse (scheme : LiftingScheme K) (mode : BoundaryMode) (approx detail : List K) :
    Except Error (List K) :=
  if approx.length ≠ detail.length ∧ approx.length ≠ detail.length + 1 then
    .error (.coefficientMismatch approx.length detail.length)
  else if approx.isEmpty then .error .emptyInput
  else
    let parts := scheme.steps.reverse.foldl (LiftingStep.undo mode) (approx, detail)
    .ok (interleave parts.1 parts.2)

end LiftingScheme

end WaveletPrecision
