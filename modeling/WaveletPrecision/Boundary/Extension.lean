import WaveletPrecision.Boundary.Mode

/-
Reading a signal beyond its ends.

Where a boundary mode looks for the sample at a position is independent of what the
samples are, so it is split off: `BoundaryMode.reading` says which sample of a signal of
`n` samples stands at an integer position, and `Reading.value` looks it up.  A reading
names samples by indices below `n`, so it never leaves the signal.

* `extend` is the sample at any position, and zero for an empty signal;
* `weightedSum` is the sum that every filter computes over such samples.
-/
namespace WaveletPrecision

/-- Where the sample at some position of an extended signal of `n` samples comes from. -/
inductive Reading (n : Nat) where
  /-- Nothing is there. -/
  | zero
  /-- A sample of the signal. -/
  | sample (i : Fin n)
  /-- A sample of the signal with its sign changed. -/
  | negated (i : Fin n)
  /-- A point on the line through the samples `inner` and `edge`, so many steps past `edge`. -/
  | line (edge inner : Fin n) (steps : Nat)
deriving DecidableEq

/-- The remainder of a position, as an index below a positive number. -/
def wrapIndex (n : Nat) (h : 0 < n) (k : Int) : Fin n :=
  ⟨(k % (n : Int)).toNat, by
    have hpos : (0 : Int) < n := by omega
    have h1 := Int.emod_nonneg k (Int.ne_of_gt hpos)
    have h2 := Int.emod_lt_of_pos k hpos
    omega⟩

/-- The sample that stands at position `k` of an extended signal of `n` samples. -/
def BoundaryMode.reading (mode : BoundaryMode) (n : Nat) (h : 0 < n) (k : Int) : Reading n :=
  if inside : 0 ≤ k ∧ k < n then .sample ⟨k.toNat, by omega⟩
  else
    match mode with
    | zero => .zero
    | constant => if k < 0 then .sample ⟨0, h⟩ else .sample ⟨n - 1, by omega⟩
    | symmetric =>
      let m := wrapIndex (2 * n) (by omega) k
      if inFirst : m.val < n then .sample ⟨m, inFirst⟩
      else .sample ⟨2 * n - 1 - m, by omega⟩
    | reflect =>
      if one : n = 1 then .sample ⟨0, h⟩
      else
        let m := wrapIndex (2 * n - 2) (by omega) k
        if inFirst : m.val < n then .sample ⟨m, inFirst⟩
        else .sample ⟨2 * n - 2 - m, by omega⟩
    | periodic => .sample (wrapIndex n h k)
    | periodization => .sample (wrapIndex n h k)
    | smooth =>
      if one : n = 1 then .sample ⟨0, h⟩
      else if k < 0 then .line ⟨0, h⟩ ⟨1, by omega⟩ (-k).toNat
      else .line ⟨n - 1, by omega⟩ ⟨n - 2, by omega⟩ (k - n + 1).toNat
    | antisymmetric =>
      let m := wrapIndex (2 * n) (by omega) k
      if inFirst : m.val < n then .sample ⟨m, inFirst⟩
      else .negated ⟨2 * n - 1 - m, by omega⟩

variable {K : Type} [Zero K] [Add K] [Sub K] [Mul K] [Neg K] [NatCast K]

/-- The value of a reading. -/
def Reading.value {n : Nat} (x : Fin n → K) : Reading n → K
  | zero => 0
  | sample i => x i
  | negated i => -x i
  | line edge inner steps => (x edge - x inner) * (steps : K) + x edge

/-- The sample at position `k` of a signal, which `mode` continues beyond its ends. -/
def extend (mode : BoundaryMode) (x : Array K) (k : Int) : K :=
  if h : 0 < x.size then (mode.reading x.size h k).value (fun i => x[i]) else 0

/-- The taps of a filter, each times the sample it meets, added up in the order of the taps. -/
def weightedSum {K : Type} [Zero K] [Add K] [Mul K] (taps : List K) (meets : Nat → K) : K :=
  taps.zipIdx.foldl (fun sum (tap, j) => tap * meets j + sum) 0

end WaveletPrecision
