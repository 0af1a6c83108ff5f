import Mathlib.Data.Fin.Tuple.Basic
import WaveletPrecision.Proofs.Matrix.Shapes
import WaveletPrecision.Proofs.Matrix.Tensor
import WaveletPrecision.Proofs.Matrix.TensorProduct

/-
Four bands in one matrix.

Bands of one shape are the quarters of a matrix with twice as many rows and columns, `ll` and `lh`
above `hl` and `hh` (`Bands.Quarters`).  Row by row, its elements are the rows of `ll` continued by
those of `lh`, and after them the rows of `hl` continued by those of `hh`
(`Bands.Uniform.quarters`).
-/
namespace WaveletPrecision

variable {K : Type} {rows cols p q : ℕ}

/-! ### Lists of rows -/

lemma Matrix.flatten_rowList (m : Matrix K) : m.rowList.flatten = m.toList := by
  conv_rhs => rw [← m.ofFn_get]
  exact flatten_ofFn m.get

/-- Rows that are continued by other rows have the elements of both. -/
lemma perm_flatten_zipWith_append {xs ys : List (List K)} (h : xs.length = ys.length) :
    (xs.zipWith (· ++ ·) ys).flatten.Perm (xs.flatten ++ ys.flatten) := by
  induction xs generalizing ys with
  | nil =>
    rw [List.length_eq_zero_iff.mp h.symm]
    exact .refl _
  | cons x xs ih =>
    obtain ⟨y, ys, rfl⟩ := List.exists_cons_of_length_eq_add_one h.symm
    have hrest := ih (by simpa using h)
    calc ((x :: xs).zipWith (· ++ ·) (y :: ys)).flatten
        = x ++ (y ++ (xs.zipWith (· ++ ·) ys).flatten) := by simp
      List.Perm _ (x ++ (y ++ (xs.flatten ++ ys.flatten))) := (hrest.append_left y).append_left x
      List.Perm _ (x ++ (xs.flatten ++ (y ++ ys.flatten))) :=
        (List.perm_append_comm_assoc y xs.flatten ys.flatten).append_left x
      _ = (x :: xs).flatten ++ (y :: ys).flatten := by simp

lemma zipWith_rowList_ofFn (f : Fin rows → Fin p → K) (g : Fin rows → Fin q → K) :
    (Matrix.ofFn rows p f).rowList.zipWith (· ++ ·) (Matrix.ofFn rows q g).rowList
      = List.ofFn fun r => List.ofFn (Fin.append (f r) (g r)) := by
  have hrow : ∀ {n : ℕ} (f : Fin rows → Fin n → K),
      (Matrix.ofFn rows n f).rowList = List.ofFn fun r => List.ofFn (f r) :=
    fun f => congrArg List.ofFn (funext (Matrix.row_ofFn f))
  rw [hrow, hrow]
  refine List.ext_getElem (by simp) fun i hi hi' => ?_
  simp [List.ofFn_fin_append]

/-! ### Tables of two parts -/

namespace Matrix

lemma get?_above {upper : Fin p → Fin cols → K} {lower : Fin q → Fin cols → K} {r c : ℕ}
    (hr : r < p) : (ofFn (p + q) cols (Fin.append upper lower)).get? r c
      = (ofFn p cols upper).get? r c := by
  rw [get?_ofFn, get?_ofFn]
  by_cases hc : c < cols
  · rw [dif_pos ⟨by omega, hc⟩, dif_pos ⟨hr, hc⟩]
    exact congrArg (fun row => some (row ⟨c, hc⟩)) (Fin.append_left upper lower ⟨r, hr⟩)
  · rw [dif_neg (by omega), dif_neg (by omega)]

lemma get?_below {upper : Fin p → Fin cols → K} {lower : Fin q → Fin cols → K} {r c : ℕ} :
    (ofFn (p + q) cols (Fin.append upper lower)).get? (p + r) c = (ofFn q cols lower).get? r c := by
  rw [get?_ofFn, get?_ofFn]
  by_cases h : r < q ∧ c < cols
  · rw [dif_pos ⟨by omega, h.2⟩, dif_pos h]
    exact congrArg (fun row => some (row ⟨c, h.2⟩)) (Fin.append_right upper lower ⟨r, h.1⟩)
  · rw [dif_neg (by omega), dif_neg h]

lemma get?_left {left : Fin rows → Fin p → K} {right : Fin rows → Fin q → K} {r c : ℕ}
    (hc : c < p) : (ofFn rows (p + q) fun r => Fin.append (left r) (right r)).get? r c
      = (ofFn rows p left).get? r c := by
  rw [get?_ofFn, get?_ofFn]
  by_cases hr : r < rows
  · rw [dif_pos ⟨hr, by omega⟩, dif_pos ⟨hr, hc⟩]
    exact congrArg some (Fin.append_left (left _) (right _) ⟨c, hc⟩)
  · rw [dif_neg (by omega), dif_neg (by omega)]

lemma get?_right {left : Fin rows → Fin p → K} {right : Fin rows → Fin q → K} {r c : ℕ} :
    (ofFn rows (p + q) fun r => Fin.append (left r) (right r)).get? r (p + c)
      = (ofFn rows q right).get? r c := by
  rw [get?_ofFn, get?_ofFn]
  by_cases h : r < rows ∧ c < q
  · rw [dif_pos ⟨h.1, by omega⟩, dif_pos h]
    exact congrArg some (Fin.append_right (left _) (right _) ⟨c, h.2⟩)
  · rw [dif_neg (by omega), dif_neg h]

end Matrix

/-! ### Quarters -/

/-- A matrix has four bands of one shape as its quarters, and nothing else. -/
structure Bands.Quarters (bands : Bands K) (rows cols : ℕ) (m : Matrix K) : Prop where
  uniform : bands.Uniform rows cols
  shape : m.shape = [rows + rows, cols + cols]
  ll : ∀ r < rows, ∀ c < cols, m.get? r c = bands.ll.get? r c
  lh : ∀ r < rows, ∀ c < cols, m.get? r (cols + c) = bands.lh.get? r c
  hl : ∀ r < rows, ∀ c < cols, m.get? (rows + r) c = bands.hl.get? r c
  hh : ∀ r < rows, ∀ c < cols, m.get? (rows + r) (cols + c) = bands.hh.get? r c
  perm : m.toList.Perm
    (bands.ll.toList ++ bands.lh.toList ++ (bands.hl.toList ++ bands.hh.toList))

lemma Bands.Quarters.length_toList {bands : Bands K} {m : Matrix K}
    (h : bands.Quarters rows cols m) :
    m.toList.length = (rows + rows) * (cols + cols) := by
  obtain ⟨hrows, hcols⟩ : m.rows = rows + rows ∧ m.cols = cols + cols := by
    simpa [Matrix.shape] using h.shape
  rw [Matrix.toList, Array.length_toList, m.size_eq, hrows, hcols]

/-- A matrix of four quarters is known from its elements, if these can be counted. -/
lemma Bands.Quarters.ofData_toList {bands : Bands K} {m : Matrix K}
    (h : bands.Quarters rows cols m) (hcount : (rows + rows) * (cols + cols) < wordCount) :
    Matrix.ofData (rows + rows) (cols + cols) m.toList = .ok m := by
  obtain ⟨hrows, hcols⟩ : m.rows = rows + rows ∧ m.cols = cols + cols := by
    simpa [Matrix.shape] using h.shape
  rw [Matrix.ofData_of_length_eq hcount h.length_toList]
  exact congrArg Except.ok (Matrix.ext_data hrows.symm hcols.symm (Array.toArray_toList))

/-- **The rows of four bands** of one shape, each continued by those of the band on its right, are
the elements of a matrix with the bands as its quarters. -/
lemma Bands.Uniform.quarters {bands : Bands K} (h : bands.Uniform rows cols) :
    ∃ m, m.toList = (bands.ll.rowList.zipWith (· ++ ·) bands.lh.rowList
        ++ bands.hl.rowList.zipWith (· ++ ·) bands.hh.rowList).flatten ∧
      bands.Quarters rows cols m := by
  obtain ⟨ll, hll⟩ := Matrix.exists_eq_ofFn h.ll
  obtain ⟨lh, hlh⟩ := Matrix.exists_eq_ofFn h.lh
  obtain ⟨hl, hhl⟩ := Matrix.exists_eq_ofFn h.hl
  obtain ⟨hh, hhh⟩ := Matrix.exists_eq_ofFn h.hh
  -- the upper and the lower half, and the table of both
  let upper : Fin rows → Fin (cols + cols) → K := fun r => Fin.append (ll r) (lh r)
  let lower : Fin rows → Fin (cols + cols) → K := fun r => Fin.append (hl r) (hh r)
  have hlist : (Matrix.ofFn (rows + rows) (cols + cols) (Fin.append upper lower)).toList
      = (bands.ll.rowList.zipWith (· ++ ·) bands.lh.rowList
        ++ bands.hl.rowList.zipWith (· ++ ·) bands.hh.rowList).flatten := by
    rw [hll, hlh, hhl, hhh, zipWith_rowList_ofFn, zipWith_rowList_ofFn, ← List.ofFn_fin_append,
      Matrix.toList, ← Matrix.flatten_ofFn]
    refine congrArg List.flatten (congrArg List.ofFn (funext fun r => ?_))
    cases r using Fin.addCases with
    | left r => rw [Fin.append_left, Fin.append_left]
    | right r => rw [Fin.append_right, Fin.append_right]
  refine ⟨_, hlist, h, rfl, ?_, ?_, ?_, ?_, ?_⟩
  · intro r hr c hc
    rw [Matrix.get?_above hr, Matrix.get?_left hc, hll]
  · intro r hr c hc
    rw [Matrix.get?_above hr, Matrix.get?_right, hlh]
  · intro r hr c hc
    rw [Matrix.get?_below, Matrix.get?_left hc, hhl]
  · intro r hr c hc
    rw [Matrix.get?_below, Matrix.get?_right, hhh]
  · rw [hlist, List.flatten_append]
    have hrows : ∀ {m : Matrix K}, m.shape = [rows, cols] → m.rowList.length = rows := by
      intro m hm
      obtain ⟨rfl, -⟩ : m.rows = rows ∧ m.cols = cols := by simpa [Matrix.shape] using hm
      exact List.length_ofFn
    simp only [← Matrix.flatten_rowList]
    exact (perm_flatten_zipWith_append ((hrows h.ll).trans (hrows h.lh).symm)).append
      (perm_flatten_zipWith_append ((hrows h.hl).trans (hrows h.hh).symm))

end WaveletPrecision
