import WaveletPrecision.Error
import WaveletPrecision.Matrix.Shape

/-
Matrices in row-major order.

The number of elements of a matrix is part of its type, so reading an entry, a row or a
column within the bounds never fails.  `Matrix.ofRows` and `Matrix.ofColumns` assemble a
matrix from lists of one length and refuse any others.
-/
namespace WaveletPrecision

/-- A matrix whose elements are listed row by row. -/
structure Matrix (K : Type) where
  rows : Nat
  cols : Nat
  data : Array K
  size_eq : data.size = rows * cols

namespace Matrix

variable {K L : Type}

/-- The place of an entry among the elements. -/
theorem index_lt {rows cols r c : Nat} (hr : r < rows) (hc : c < cols) :
    r * cols + c < rows * cols :=
  calc r * cols + c < r * cols + cols := Nat.add_lt_add_left hc _
    _ = (r + 1) * cols := (Nat.succ_mul r cols).symm
    _ ≤ rows * cols := Nat.mul_le_mul_right _ hr

/-- The matrix of elements row by row.  There must be one for every place of the shape; a shape that
was counted short is told of here, before anything is read. -/
def ofElements (rows cols : Nat) (data : List K) : Except Error (Matrix K) :=
  if h : data.length = rows * cols then .ok ⟨rows, cols, data.toArray, by simpa using h⟩
  else .error (.outOfBounds [rows, cols])

/-- The matrix of a list of elements, whose number must be that of the shape. -/
def ofData (rows cols : Nat) (data : List K) : Except Error (Matrix K) :=
  if data.length = elementCount [rows, cols] then ofElements rows cols data
  else .error (.shapeMismatch [rows, cols] data.length)

/-- The matrix of a function of the row and the column. -/
def ofFn (rows cols : Nat) (f : Fin rows → Fin cols → K) : Matrix K where
  rows := rows
  cols := cols
  data := Array.ofFn fun i : Fin (rows * cols) =>
    have hpos : 0 < cols := Nat.pos_of_mul_pos_left (Nat.lt_of_le_of_lt (Nat.zero_le _) i.isLt)
    f ⟨i / cols, (Nat.div_lt_iff_lt_mul hpos).2 i.isLt⟩ ⟨i % cols, Nat.mod_lt _ hpos⟩
  size_eq := Array.size_ofFn

/-- The number of rows and the number of columns. -/
def shape (m : Matrix K) : List Nat := [m.rows, m.cols]

/-- An entry. -/
def get (m : Matrix K) (r : Fin m.rows) (c : Fin m.cols) : K :=
  have inside : r.val * m.cols + c.val < m.data.size := by
    rw [m.size_eq]; exact index_lt r.isLt c.isLt
  m.data[r.val * m.cols + c.val]

theorem get_ofFn {rows cols : Nat} (f : Fin rows → Fin cols → K) (r : Fin rows) (c : Fin cols) :
    (ofFn rows cols f).get r c = f r c := by
  have hpos : 0 < cols := Nat.lt_of_le_of_lt (Nat.zero_le _) c.isLt
  simp [get, ofFn, Nat.add_comm, Nat.add_mul_div_right _ _ hpos, Nat.div_eq_of_lt c.isLt,
    Nat.add_mul_mod_self_right, Nat.mod_eq_of_lt c.isLt]

/-- A row, from left to right. -/
def row (m : Matrix K) (r : Fin m.rows) : List K := List.ofFn fun c => m.get r c

/-- A column, from top to bottom. -/
def column (m : Matrix K) (c : Fin m.cols) : List K := List.ofFn fun r => m.get r c

/-- The rows, from top to bottom. -/
def rowList (m : Matrix K) : List (List K) := List.ofFn m.row

/-- The columns, from left to right. -/
def columnList (m : Matrix K) : List (List K) := List.ofFn m.column

/-- The elements row by row. -/
def toList (m : Matrix K) : List K := m.data.toList

/-- The matrix with every element replaced. -/
def map (f : K → L) (m : Matrix K) : Matrix L :=
  ⟨m.rows, m.cols, m.data.map f, by simpa using m.size_eq⟩

theorem length_flatten_of_forall {rows : List (List K)} {cols : Nat}
    (h : ∀ row ∈ rows, row.length = cols) : rows.flatten.length = rows.length * cols := by
  induction rows with
  | nil => simp
  | cons row rest ih =>
    simp only [List.flatten_cons, List.length_append, List.length_cons,
      ih fun r hr => h r (List.mem_cons_of_mem _ hr), h row (List.mem_cons_self ..)]
    rw [Nat.succ_mul, Nat.add_comm]

/-- The matrix of its rows, which must have one length. -/
def ofRows (rows : List (List K)) : Except Error (Matrix K) :=
  let cols := (rows.head?.map List.length).getD 0
  match h : rows.find? (fun row => row.length != cols) with
  | some bad => .error (.shapesDiffer [cols] [bad.length])
  | none =>
    .ok ⟨rows.length, cols, rows.flatten.toArray, by
      have same : ∀ row ∈ rows, row.length = cols := by
        intro row hrow
        simpa using List.find?_eq_none.1 h row hrow
      simpa using length_flatten_of_forall same⟩

/-- The matrix of its columns, which must have one length. -/
def ofColumns (columns : List (List K)) : Except Error (Matrix K) :=
  let rows := (columns.head?.map List.length).getD 0
  match h : columns.find? (fun column => column.length != rows) with
  | some bad => .error (.shapesDiffer [rows] [bad.length])
  | none =>
    let table := columns.toArray.map List.toArray
    .ok (ofFn rows columns.length fun r c =>
      have hc : c.val < table.size := by simp [table]
      have hr : r.val < table[c.val].size := by
        have same := List.find?_eq_none.1 h columns[c] (List.getElem_mem c.isLt)
        have hlen : columns[c].length = rows := by simpa using same
        simp only [table, Array.getElem_map, List.getElem_toArray, List.size_toArray]
        exact Nat.lt_of_lt_of_eq r.isLt hlen.symm
      table[c.val][r.val])

end Matrix

end WaveletPrecision
