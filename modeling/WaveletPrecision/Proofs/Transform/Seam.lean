import WaveletPrecision.Proofs.Error
import WaveletPrecision.Proofs.Matrix.Assembly
import WaveletPrecision.Proofs.Sample.Widening
import WaveletPrecision.Transform.Engine

/-
The seam between an engine and its sample type.

An engine narrows what it is given, computes in its sample type and widens what it has found
(`Engine.forward_of` and the three lemmas beside it).  What has been widened is found again when it
is narrowed, as long as it is a number.  So an engine that takes the results of another one of the
same precision goes on where that one has stopped, as if the values had never left the sample
type: two transforms in a row are the two transforms of the sample type in a row, between one
narrowing and one widening (`Engine.forward_bind_inverse` and the three lemmas beside it).
-/
namespace WaveletPrecision

/-! ### Values that are numbers -/

/-- No value of a list is a not-a-number. -/
def AllNumbers (xs : List Binary64) : Prop := ∀ v ∈ xs, ¬v.isNaN

lemma allNumbers_append_iff {xs ys : List Binary64} :
    AllNumbers (xs ++ ys) ↔ AllNumbers xs ∧ AllNumbers ys :=
  List.forall_mem_append

/-- The values of two bands. -/
def Coefficients.values (c : Coefficients) : List Binary64 := c.approx ++ c.detail

/-- The values of four bands. -/
def Bands.values (bands : Bands Binary64) : List Binary64 :=
  bands.ll.toList ++ bands.lh.toList ++ (bands.hl.toList ++ bands.hh.toList)

/-- Two bands rounded into a sample type. -/
def Coefficients.narrow (T : Type) [Sample T] (c : Coefficients) : List T × List T :=
  (Sample.narrowAll T c.approx, Sample.narrowAll T c.detail)

section Lists

variable {p : Precision}

lemma Sample.narrowAll_widenAll {xs : List p.Carrier} (h : AllNumbers (widenAll xs)) :
    narrowAll p.Carrier (widenAll xs) = xs := by
  rw [widenAll, narrowAll, List.map_map]
  refine (List.map_congr_left fun v hv => ?_).trans (List.map_id xs)
  have hnumber : ¬(widen v).isNaN := h _ (List.mem_map_of_mem hv)
  rw [isNaN_widen] at hnumber
  exact narrow_widen p hnumber

lemma Coefficients.narrow_ofSamples {bands : List p.Carrier × List p.Carrier}
    (h : AllNumbers (ofSamples bands).values) :
    (ofSamples bands).narrow p.Carrier = bands := by
  obtain ⟨happrox, hdetail⟩ := allNumbers_append_iff.mp h
  exact Prod.ext (Sample.narrowAll_widenAll happrox) (Sample.narrowAll_widenAll hdetail)

lemma Matrix.narrow_widen {m : Matrix p.Carrier} (h : AllNumbers m.widen.toList) :
    m.widen.narrow p.Carrier = m := by
  have hlist : m.widen.toList = Sample.widenAll m.toList := Array.toList_map
  rw [hlist] at h
  refine Matrix.ext_data rfl rfl (Array.toList_inj.mp ?_)
  calc (m.widen.narrow p.Carrier).data.toList
      = Sample.narrowAll p.Carrier m.widen.toList := Array.toList_map
    _ = m.toList := by rw [hlist, Sample.narrowAll_widenAll h]

lemma Bands.narrow_widen {bands : Bands p.Carrier} (h : AllNumbers bands.widen.values) :
    bands.widen.narrow p.Carrier = bands := by
  obtain ⟨happrox, hdetail⟩ := allNumbers_append_iff.mp h
  obtain ⟨hll, hlh⟩ := allNumbers_append_iff.mp happrox
  obtain ⟨hhl, hhh⟩ := allNumbers_append_iff.mp hdetail
  have hparts : bands.widen.narrow p.Carrier
      = ⟨bands.ll.widen.narrow p.Carrier, bands.lh.widen.narrow p.Carrier,
        bands.hl.widen.narrow p.Carrier, bands.hh.widen.narrow p.Carrier⟩ := rfl
  rw [hparts, Matrix.narrow_widen hll, Matrix.narrow_widen hlh, Matrix.narrow_widen hhl,
    Matrix.narrow_widen hhh]

end Lists

/-! ### The transforms of a sample type -/

namespace Algorithm

variable (T : Type) [Sample T] (w : Wavelet) (mode : BoundaryMode)

/-- The forward transform of samples. -/
def forwardIn (algorithm : Algorithm) (x : List T) : Except Error (List T × List T) :=
  match algorithm with
  | convolution => (w.bankIn T).forward mode x
  | lifting => do
    let scheme ← LiftingScheme.ofWavelet w
    (scheme.map Sample.narrow).forward mode x

/-- The inverse transform of two bands of samples. -/
def inverseIn (algorithm : Algorithm) (bands : List T × List T) : Except Error (List T) :=
  match algorithm with
  | convolution => (w.bankIn T).inverse mode bands.1 bands.2
  | lifting => do
    let scheme ← LiftingScheme.ofWavelet w
    (scheme.map Sample.narrow).inverse mode bands.1 bands.2

/-- The forward transform of a matrix of samples. -/
def forwardMatrixIn (algorithm : Algorithm) (m : Matrix T) : Except Error (Bands T) :=
  match algorithm with
  | convolution => (w.bankIn T).forwardMatrix mode m
  | lifting => do
    let scheme ← LiftingScheme.ofWavelet w
    (scheme.map Sample.narrow).forwardMatrix mode m

/-- The inverse transform of four bands of samples. -/
def inverseMatrixIn (algorithm : Algorithm) (bands : Bands T) : Except Error (Matrix T) :=
  match algorithm with
  | convolution => (w.bankIn T).inverseMatrix mode bands
  | lifting => do
    let scheme ← LiftingScheme.ofWavelet w
    (scheme.map Sample.narrow).inverseMatrix mode bands

end Algorithm

/-! ### The two sides of the seam -/

section Seam

variable {E A B C D : Type}

/-- **Two computations across a seam.**  What the first one has found is widened, and narrowed
before the second one takes it; if that leaves it as it is, only the result of the second one is
widened. -/
lemma map_bind_map {x : Except E A} {f : A → Except E B} {widen : A → C} {narrow : C → A}
    {widen' : B → D} (h : ∀ a, x.map widen = .ok (widen a) → narrow (widen a) = a) :
    (x.map widen >>= fun c => (f (narrow c)).map widen') = (x >>= f).map widen' := by
  cases x with
  | error e => rfl
  | ok a => exact congrArg (fun a => (f a).map widen') (h a rfl)

end Seam

namespace Engine

variable (algorithm : Algorithm) (p : Precision) (w : Wavelet) (mode : BoundaryMode)

lemma forward_of (x : List Binary64) : (of algorithm p).forward w mode x
    = (algorithm.forwardIn p.Carrier w mode (Sample.narrowAll p.Carrier x)).map .ofSamples := by
  cases algorithm with
  | convolution => exact bind_return _ _
  | lifting => exact bind_bind_return _ _ _

lemma inverse_of (c : Coefficients) : (of algorithm p).inverse w mode c
    = (algorithm.inverseIn p.Carrier w mode (c.narrow p.Carrier)).map Sample.widenAll := by
  cases algorithm with
  | convolution => exact bind_return _ _
  | lifting => exact bind_bind_return _ _ _

lemma forwardMatrix_of (m : Matrix Binary64) : (of algorithm p).forwardMatrix w mode m
    = (algorithm.forwardMatrixIn p.Carrier w mode (m.narrow p.Carrier)).map Bands.widen := by
  cases algorithm with
  | convolution => exact bind_return _ _
  | lifting => exact bind_bind_return _ _ _

lemma inverseMatrix_of (bands : Bands Binary64) : (of algorithm p).inverseMatrix w mode bands
    = (algorithm.inverseMatrixIn p.Carrier w mode (bands.narrow p.Carrier)).map Matrix.widen := by
  cases algorithm with
  | convolution => exact bind_return _ _
  | lifting => exact bind_bind_return _ _ _

variable {algorithm p w mode}

/-- **Forward and back again**: if the bands are numbers, nothing is rounded between the two
transforms of the sample type. -/
lemma forward_bind_inverse {x : List Binary64}
    (h : ∀ c, (of algorithm p).forward w mode x = .ok c → AllNumbers c.values) :
    ((of algorithm p).forward w mode x >>= (of algorithm p).inverse w mode)
      = (algorithm.forwardIn p.Carrier w mode (Sample.narrowAll p.Carrier x)
          >>= algorithm.inverseIn p.Carrier w mode).map Sample.widenAll := by
  rw [forward_of] at h ⊢
  simp only [funext (inverse_of algorithm p w mode)]
  exact map_bind_map fun bands hbands => Coefficients.narrow_ofSamples (h _ hbands)

/-- Back and forward again. -/
lemma inverse_bind_forward {c : Coefficients}
    (h : ∀ x, (of algorithm p).inverse w mode c = .ok x → AllNumbers x) :
    ((of algorithm p).inverse w mode c >>= (of algorithm p).forward w mode)
      = (algorithm.inverseIn p.Carrier w mode (c.narrow p.Carrier)
          >>= algorithm.forwardIn p.Carrier w mode).map .ofSamples := by
  rw [inverse_of] at h ⊢
  simp only [funext (forward_of algorithm p w mode)]
  exact map_bind_map fun x hx => Sample.narrowAll_widenAll (h _ hx)

lemma forwardMatrix_bind_inverseMatrix {m : Matrix Binary64}
    (h : ∀ bands, (of algorithm p).forwardMatrix w mode m = .ok bands → AllNumbers bands.values) :
    ((of algorithm p).forwardMatrix w mode m >>= (of algorithm p).inverseMatrix w mode)
      = (algorithm.forwardMatrixIn p.Carrier w mode (m.narrow p.Carrier)
          >>= algorithm.inverseMatrixIn p.Carrier w mode).map Matrix.widen := by
  rw [forwardMatrix_of] at h ⊢
  simp only [funext (inverseMatrix_of algorithm p w mode)]
  exact map_bind_map fun bands hbands => Bands.narrow_widen (h _ hbands)

lemma inverseMatrix_bind_forwardMatrix {bands : Bands Binary64}
    (h : ∀ m, (of algorithm p).inverseMatrix w mode bands = .ok m → AllNumbers m.toList) :
    ((of algorithm p).inverseMatrix w mode bands >>= (of algorithm p).forwardMatrix w mode)
      = (algorithm.inverseMatrixIn p.Carrier w mode (bands.narrow p.Carrier)
          >>= algorithm.forwardMatrixIn p.Carrier w mode).map Bands.widen := by
  rw [inverseMatrix_of] at h ⊢
  simp only [funext (forwardMatrix_of algorithm p w mode)]
  exact map_bind_map fun m hm => Matrix.narrow_widen (h _ hm)

end Engine

end WaveletPrecision
