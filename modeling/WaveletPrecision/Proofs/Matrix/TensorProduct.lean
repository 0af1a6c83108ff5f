import WaveletPrecision.Proofs.Matrix.LinearForms
import WaveletPrecision.Proofs.Matrix.Separable

/-
The bands of a separable transform are tensor products.

A kernel that is linear multiplies every signal of one length by two matrices, one for the
approximation and one for the detail (`Separable.Multiplies`).  Their columns are what the kernel
makes of the impulses, the signals with a single one (`Separable.Responds`), so that they are
known from the kernel.

Run down the columns of a matrix and then along the rows, such a kernel multiplies the matrix
from both sides, and it does not matter which of the two comes first.  The band that is named
with two letters is the product with the matrix of the first letter on the left and with the
transpose of that of the second letter on the right (`Separable.forward_ofFn_eq_tensor`).  So the
transform of the transposed matrix has the transposed bands, two of them in the other's place.

A band that is assembled from no rows has forgotten its number of columns, so it is not the
transpose of a band with empty rows.  Their entries still correspond, there being none
(`Matrix.Mirrors`), and where no band is empty the matrices are transposes of one another
(`Separable.Linear.exists_bands`).
-/
namespace WaveletPrecision

open Finset

variable {K : Type}

/-- The matrix with rows and columns exchanged. -/
def Matrix.transpose (m : Matrix K) : Matrix K :=
  .ofFn m.cols m.rows fun c r => m.get r c

/-- The bands of the matrix with rows and columns exchanged, if those of the matrix are given. -/
def Bands.transpose (bands : Bands K) : Bands K where
  ll := bands.ll.transpose
  lh := bands.hl.transpose
  hl := bands.lh.transpose
  hh := bands.hh.transpose

/-- The entry in a row and a column, if the matrix reaches so far. -/
def Matrix.get? (m : Matrix K) (r c : ℕ) : Option K :=
  if h : r < m.rows ∧ c < m.cols then some (m.get ⟨r, h.1⟩ ⟨c, h.2⟩) else none

lemma Matrix.get?_ofFn {rows cols : ℕ} (f : Fin rows → Fin cols → K) (r c : ℕ) :
    (Matrix.ofFn rows cols f).get? r c
      = if h : r < rows ∧ c < cols then some (f ⟨r, h.1⟩ ⟨c, h.2⟩) else none := by
  rw [get?]
  refine dite_congr rfl (fun h => ?_) fun _ => rfl
  rw [← get_ofFn f ⟨r, h.1⟩ ⟨c, h.2⟩]
  rfl

/-- The matrices have the same entries, with rows and columns exchanged. -/
def Matrix.Mirrors (m' m : Matrix K) : Prop := ∀ r c, m'.get? c r = m.get? r c

lemma Matrix.Mirrors.eq_transpose {m' m : Matrix K} (h : m'.Mirrors m) (hrows : m'.rows = m.cols)
    (hcols : m'.cols = m.rows) : m' = m.transpose := by
  rw [← m'.ofFn_get]
  refine ofFn_congr hrows hcols fun c r => ?_
  have hentry := h r c
  rw [get?, get?, dif_pos ⟨by omega, by omega⟩, dif_pos ⟨r.isLt, c.isLt⟩] at hentry
  exact Option.some.inj hentry

/-- The bands have the same entries, with rows and columns exchanged in the bands as well as in
their names. -/
structure Bands.Mirrors (bands' bands : Bands K) : Prop where
  ll : bands'.ll.Mirrors bands.ll
  lh : bands'.lh.Mirrors bands.hl
  hl : bands'.hl.Mirrors bands.lh
  hh : bands'.hh.Mirrors bands.hh

variable [CommRing K]

/-- The signal of `n` samples that is one at a position and zero at the others. -/
def impulse {n : ℕ} (i : Fin n) : List K := List.ofFn (Pi.single i 1)

namespace Separable

variable {split : List K → Except Error (List K × List K)} {a b rows cols n p q : ℕ}

/-- The product of a matrix with the matrix `left` from the left and with the transpose of the
matrix `right` from the right.  A product without rows has no columns either. -/
def tensor (left : Fin a → Fin rows → K) (x : Fin rows → Fin cols → K)
    (right : Fin b → Fin cols → K) : Matrix K :=
  if a = 0 then .empty else .ofFn a b fun r c => ∑ i, ∑ j, left r i * x i j * right c j

/-- The columns of the matrices `approx` and `detail` are the two halves of the impulses. -/
def Responds (split : List K → Except Error (List K × List K)) (approx : Fin p → Fin n → K)
    (detail : Fin q → Fin n → K) : Prop :=
  ∀ i, split (impulse i) = .ok (List.ofFn fun r => approx r i, List.ofFn fun r => detail r i)

/-- The two halves of a signal are its products with the matrices `approx` and `detail`. -/
def Multiplies (split : List K → Except Error (List K × List K)) (approx : Fin p → Fin n → K)
    (detail : Fin q → Fin n → K) : Prop :=
  ∀ v : Fin n → K, split (List.ofFn v) = .ok (List.ofFn fun r => ∑ i, approx r i * v i,
    List.ofFn fun r => ∑ i, detail r i * v i)

/-- The columns of the matrices that a kernel multiplies by are the halves of the impulses. -/
lemma Multiplies.responds {approx : Fin p → Fin n → K} {detail : Fin q → Fin n → K}
    (h : Multiplies split approx detail) : Responds split approx detail := by
  intro i
  rw [impulse, h]
  simp [Pi.single_apply]

/-- A kernel whose halves have `A n` and `D n` elements for a signal of `n` samples, all of them
linear forms of the samples. -/
def Linear (A D : ℕ → ℕ) (split : List K → Except Error (List K × List K)) : Prop :=
  ∀ n, 1 ≤ n → ∃ approx detail : (Fin n → K) → List K, LinearForms (A n) approx ∧
    LinearForms (D n) detail ∧ ∀ v, split (List.ofFn v) = .ok (approx v, detail v)

lemma Linear.exists_multiplies {A D : ℕ → ℕ} (h : Linear A D split) (hn : 1 ≤ n) :
    ∃ (approx : Fin (A n) → Fin n → K) (detail : Fin (D n) → Fin n → K),
      Multiplies split approx detail := by
  obtain ⟨approx, detail, happrox, hdetail, hsplit⟩ := h n hn
  obtain ⟨a, ha⟩ := happrox.exists_table
  obtain ⟨d, hd⟩ := hdetail.exists_table
  exact ⟨a, d, fun v => by rw [hsplit, ha, hd]⟩

/-! ### The two passes -/

/-- The row pass over a product with a matrix from the left multiplies from the right. -/
lemma forwardRows_eq_tensor {approx : Fin p → Fin cols → K} {detail : Fin q → Fin cols → K}
    (h : Multiplies split approx detail) (left : Fin a → Fin rows → K)
    (x : Fin rows → Fin cols → K) :
    forwardRows split (.ofFn a cols fun r c => ∑ i, left r i * x i c)
      = .ok (tensor left x approx, tensor left x detail) := by
  have hpass : ∀ {b : ℕ} (right : Fin b → Fin cols → K) (r : Fin a) (c : Fin b),
      ∑ j, right c j * ∑ i, left r i * x i j = ∑ i, ∑ j, left r i * x i j * right c j := by
    intro b right r c
    simp only [mul_sum]
    rw [sum_comm]
    exact sum_congr rfl fun i _ => sum_congr rfl fun j _ => mul_comm _ _
  by_cases ha : a = 0
  · rw [tensor, tensor, if_pos ha, if_pos ha]
    exact forwardRows_of_rows_eq_zero ha
  · rw [tensor, tensor, if_neg ha, if_neg ha]
    simp only [← hpass]
    exact forwardRows_ofFn (Nat.pos_of_ne_zero ha) fun r => h _

variable {aR : Fin a → Fin rows → K} {dR : Fin b → Fin rows → K} {aC : Fin p → Fin cols → K}
  {dC : Fin q → Fin cols → K}

/-- **The four bands of a matrix are tensor products** of the matrices of the kernel, for the
columns on the left and for the rows on the right. -/
lemma forward_ofFn_eq_tensor (hrows : 1 ≤ rows) (hcols : 1 ≤ cols) (hR : Multiplies split aR dR)
    (hC : Multiplies split aC dC) (x : Fin rows → Fin cols → K) :
    forward split (.ofFn rows cols x)
      = .ok ⟨tensor aR x aC, tensor dR x aC, tensor aR x dC, tensor dR x dC⟩ :=
  forward_ofFn hrows hcols (fun c => hR fun r => x r c) (forwardRows_eq_tensor hC aR x)
    (forwardRows_eq_tensor hC dR x)

/-- Each band of a matrix is the product that its name says, with the matrices whose columns are
the halves of the impulses. -/
def TensorBands (split : List K → Except Error (List K × List K)) (x : Matrix K)
    (bands : Bands K) : Prop :=
  ∃ (pR qR pC qC : ℕ) (aR : Fin pR → Fin x.rows → K) (dR : Fin qR → Fin x.rows → K)
    (aC : Fin pC → Fin x.cols → K) (dC : Fin qC → Fin x.cols → K),
    Responds split aR dR ∧ Responds split aC dC ∧
      bands = ⟨tensor aR x.get aC, tensor dR x.get aC, tensor aR x.get dC, tensor dR x.get dC⟩

/-! ### Transposition -/

lemma get?_tensor (left : Fin a → Fin rows → K) (x : Fin rows → Fin cols → K)
    (right : Fin b → Fin cols → K) (r c : ℕ) :
    (tensor left x right).get? r c = if h : r < a ∧ c < b then
      some (∑ i, ∑ j, left ⟨r, h.1⟩ i * x i j * right ⟨c, h.2⟩ j) else none := by
  by_cases ha : a = 0
  · rw [tensor, if_pos ha, dif_neg (by omega)]
    rfl
  · rw [tensor, if_neg ha, Matrix.get?_ofFn]

lemma tensor_mirrors (left : Fin a → Fin rows → K) (x : Fin rows → Fin cols → K)
    (right : Fin b → Fin cols → K) :
    (tensor right (fun c r => x r c) left).Mirrors (tensor left x right) := by
  intro r c
  rw [get?_tensor, get?_tensor]
  by_cases h : r < a ∧ c < b
  · rw [dif_pos h, dif_pos h.symm, sum_comm]
    refine congrArg some (sum_congr rfl fun i _ => sum_congr rfl fun j _ => ?_)
    ring
  · rw [dif_neg h, dif_neg fun h' => h h'.symm]

lemma rows_tensor (left : Fin a → Fin rows → K) (x : Fin rows → Fin cols → K)
    (right : Fin b → Fin cols → K) : (tensor left x right).rows = a := by
  by_cases ha : a = 0
  · rw [tensor, if_pos ha, ha]
    rfl
  · rw [tensor, if_neg ha]
    rfl

lemma cols_tensor (left : Fin a → Fin rows → K) (x : Fin rows → Fin cols → K)
    (right : Fin b → Fin cols → K) (ha : a ≠ 0) : (tensor left x right).cols = b := by
  rw [tensor, if_neg ha, Matrix.cols_ofFn]

lemma tensor_eq_transpose (left : Fin a → Fin rows → K) (x : Fin rows → Fin cols → K)
    (right : Fin b → Fin cols → K) (ha : a ≠ 0) (hb : b ≠ 0) :
    tensor right (fun c r => x r c) left = (tensor left x right).transpose := by
  refine (tensor_mirrors left x right).eq_transpose ?_ ?_
  · rw [rows_tensor, cols_tensor left x right ha]
  · rw [rows_tensor, cols_tensor right _ left hb]

/-- **The bands of a matrix and of its transpose.** -/
lemma Linear.exists_bands {A D : ℕ → ℕ} (h : Linear A D split) (x : Matrix K)
    (hrows : 1 ≤ x.rows) (hcols : 1 ≤ x.cols) :
    ∃ bands bands', forward split x = .ok bands ∧ forward split x.transpose = .ok bands' ∧
      TensorBands split x bands ∧ bands'.Mirrors bands ∧
        ((∀ n ∈ [x.rows, x.cols], A n ≠ 0 ∧ D n ≠ 0) → bands' = bands.transpose) := by
  obtain ⟨aR, dR, hR⟩ := h.exists_multiplies hrows
  obtain ⟨aC, dC, hC⟩ := h.exists_multiplies hcols
  have hbands := forward_ofFn_eq_tensor hrows hcols hR hC x.get
  rw [x.ofFn_get] at hbands
  refine ⟨_, _, hbands, forward_ofFn_eq_tensor hcols hrows hC hR fun c r => x.get r c,
    ⟨_, _, _, _, aR, dR, aC, dC, hR.responds, hC.responds, rfl⟩,
    ⟨tensor_mirrors _ _ _, tensor_mirrors _ _ _, tensor_mirrors _ _ _, tensor_mirrors _ _ _⟩, ?_⟩
  intro hne
  obtain ⟨haR, hdR⟩ := hne x.rows (by simp)
  obtain ⟨haC, hdC⟩ := hne x.cols (by simp)
  rw [Bands.transpose, tensor_eq_transpose aR x.get aC haR haC,
    tensor_eq_transpose aR x.get dC haR hdC, tensor_eq_transpose dR x.get aC hdR haC,
    tensor_eq_transpose dR x.get dC hdR hdC]

end Separable

end WaveletPrecision
