import Mathlib.Algebra.BigOperators.Group.List.Basic
import WaveletPrecision.Matrix.Tensor

/-
Counting elements and making tensors.

As long as the product of the extents of a shape is a word, it is the number of elements that are
counted (`elementCount_eq_prod`).

A list of elements is made a tensor exactly if its length is the number of elements that are counted
for the shape (`Tensor.exists_ofData_iff`), and nothing but the shape and the elements is in it.
-/
namespace WaveletPrecision

/-! ### Counting elements -/

@[simp] lemma elementCount_singleton (n : Nat) : elementCount [n] = n := rfl

/-- Extents that are multiplied one after the other, from a count on. -/
lemma foldl_count_eq_mul_prod {rest : List Nat} {count : Nat} (h : count * rest.prod < wordCount) :
    rest.foldl (fun count extent => count * extent % wordCount) count = count * rest.prod := by
  induction rest generalizing count with
  | nil => simp
  | cons extent rest ih =>
    rw [List.prod_cons, ← Nat.mul_assoc] at h ⊢
    rw [List.foldl_cons]
    rcases Nat.eq_zero_or_pos rest.prod with hzero | hpos
    · -- whatever is counted before a zero is lost, and nothing else may be too large
      rw [ih (by simp [hzero, wordCount]), hzero, Nat.mul_zero, Nat.mul_zero]
    · have hlt : count * extent < wordCount :=
        Nat.lt_of_le_of_lt (Nat.le_mul_of_pos_right _ hpos) h
      rw [Nat.mod_eq_of_lt hlt, ih h]

/-- **What is counted is the number of elements**, if the number is a word. -/
lemma elementCount_eq_prod {shape : List Nat} (h : shape.prod < wordCount) :
    elementCount shape = shape.prod := by
  cases shape with
  | nil => rfl
  | cons extent rest =>
    rw [List.prod_cons] at h ⊢
    exact foldl_count_eq_mul_prod h

lemma elementCount_pair {rows cols : Nat} (h : rows * cols < wordCount) :
    elementCount [rows, cols] = rows * cols :=
  Nat.mod_eq_of_lt h

/-! ### Matrices of lists -/

namespace Matrix

variable {K : Type} {rows cols : Nat} {data : List K}

lemma ofElements_of_length_eq (h : data.length = rows * cols) :
    ofElements rows cols data = .ok ⟨rows, cols, data.toArray, by simpa using h⟩ :=
  dif_pos h

lemma ofData_of_length_eq (hcount : rows * cols < wordCount) (h : data.length = rows * cols) :
    ofData rows cols data = .ok ⟨rows, cols, data.toArray, by simpa using h⟩ := by
  rw [ofData, elementCount_pair hcount, if_pos h, ofElements_of_length_eq h]

lemma ofData_of_length_ne (hcount : rows * cols < wordCount) (h : data.length ≠ rows * cols) :
    ofData rows cols data = .error (.shapeMismatch [rows, cols] data.length) := by
  rw [ofData, elementCount_pair hcount, if_neg h]

end Matrix

/-! ### Tensors of lists -/

namespace Tensor

variable {K : Type} {shape : List Nat} {rows cols : Nat} {data : List K} {t : Tensor K}

lemma ofData_of_length_eq (h : data.length = elementCount shape) :
    ofData shape data = .ok ⟨shape, data, h⟩ :=
  dif_pos h

lemma ofData_of_length_ne (h : data.length ≠ elementCount shape) :
    ofData shape data = .error (.shapeMismatch shape data.length) :=
  dif_neg h

lemma ofData_eq_ok_iff :
    ofData shape data = .ok t ↔ t.shape = shape ∧ t.data = data := by
  constructor
  · intro h
    rw [ofData] at h
    split at h
    · cases h
      exact ⟨rfl, rfl⟩
    · cases h
  · rintro ⟨rfl, rfl⟩
    exact ofData_of_length_eq t.length_eq

lemma exists_ofData_iff :
    (∃ t, ofData shape data = .ok t) ↔ data.length = elementCount shape := by
  constructor
  · rintro ⟨t, h⟩
    obtain ⟨rfl, rfl⟩ := ofData_eq_ok_iff.mp h
    exact t.length_eq
  · exact fun h => ⟨_, ofData_of_length_eq h⟩

/-- A tensor with two dimensions has an element for every place, if a word can count these. -/
lemma length_data_of_shape_eq (hshape : t.shape = [rows, cols]) (hcount : rows * cols < wordCount) :
    t.data.length = rows * cols := by
  rw [t.length_eq, hshape, elementCount_pair hcount]

lemma toMatrix_of_shape_eq (hshape : t.shape = [rows, cols])
    (hlength : t.data.length = rows * cols) :
    t.toMatrix = .ok ⟨rows, cols, t.data.toArray, by simpa using hlength⟩ := by
  obtain ⟨_, data, _⟩ := t
  cases hshape
  exact Matrix.ofElements_of_length_eq hlength

lemma dimensions_of_toMatrix {m : Matrix K} (h : t.toMatrix = .ok m) :
    t.dimensions = 2 := by
  rw [toMatrix] at h
  split at h
  · rename_i hshape
    rw [dimensions, hshape]
    rfl
  · cases h

end Tensor

end WaveletPrecision
