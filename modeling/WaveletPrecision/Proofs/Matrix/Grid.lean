import Mathlib.Data.List.FinRange
import WaveletPrecision.Proofs.Error
import WaveletPrecision.Proofs.Matrix.Separable
import WaveletPrecision.Proofs.Matrix.Tensor

/-
Matrices without a promise.

A matrix has as many elements as its shape says by its type, so what reads a matrix need not ask
whether an element is there, and what makes one has to show that the number is right.  This file
writes down all that makes and reads matrices once more for grids, which are a shape and elements
that nothing keeps to the shape.  Every access to an element is checked, and the first one that
fails ends the computation.

On the grid of a matrix each of these computations ends as its counterpart on the matrix does, with
the grid of the same result or with the same refusal, and no access fails:

* `Grid.get_grid`, `Grid.row_grid` and `Grid.column_grid` for the readers;
* `Grid.ofData_eq`, `Grid.ofRows_eq`, `Grid.ofColumns_eq` and `Grid.ofTensor_eq` for what makes a
  grid of something else;
* `Grid.forward_grid` and `Grid.inverse_grid` for the two transforms, whatever their kernel is.
-/
namespace WaveletPrecision

variable {K L A B : Type}

/-- A shape, and elements row by row whose number may be any. -/
structure Grid (K : Type) where
  rows : Nat
  cols : Nat
  data : Array K
deriving DecidableEq

/-- The shape and the elements of a matrix. -/
def Matrix.grid (m : Matrix K) : Grid K := ⟨m.rows, m.cols, m.data⟩

/-- Four bands that are grids. -/
structure GridBands (K : Type) where
  ll : Grid K
  lh : Grid K
  hl : Grid K
  hh : Grid K
deriving DecidableEq

/-- The grids of four bands. -/
def Bands.grids (bands : Bands K) : GridBands K :=
  ⟨bands.ll.grid, bands.lh.grid, bands.hl.grid, bands.hh.grid⟩

namespace Grid

/-- Why a computation on grids has no result: an element is not there, or the computation on
matrices has none either. -/
inductive Stop where
  | outside
  | refused (cause : Error)
deriving DecidableEq

/-- An element, if it is there. -/
def found (x : Option A) : Except Stop A := x.elim (.error .outside) .ok

/-- A computation without an access. -/
def plain (x : Except Error A) : Except Stop A := x.mapError .refused

/-! ### Reading and making grids -/

/-- An entry. -/
def get (g : Grid K) (r c : Nat) : Except Stop K := found g.data[r * g.cols + c]?

/-- A row, which is a slice of the elements. -/
def row (g : Grid K) (r : Nat) : Except Stop (List K) :=
  if (r + 1) * g.cols ≤ g.data.size then
    .ok (g.data.extract (r * g.cols) ((r + 1) * g.cols)).toList
  else .error .outside

/-- A column, which is read entry by entry. -/
def column (g : Grid K) (c : Nat) : Except Stop (List K) :=
  List.ofFnM fun r : Fin g.rows => g.get r c

/-- The grid of a list of elements, whose number must be the one that is counted for the shape. -/
def ofData (rows cols : Nat) (data : List K) : Except Stop (Grid K) :=
  if data.length = elementCount [rows, cols] then .ok ⟨rows, cols, data.toArray⟩
  else .error (.refused (.shapeMismatch [rows, cols] data.length))

/-- One more row behind the elements. -/
def appendRow (cols : Nat) (data : Array K) (row : List K) : Except Stop (Array K) :=
  if row.length = cols then .ok (data ++ row.toArray)
  else .error (.refused (.shapesDiffer [cols] [row.length]))

/-- The grid of its rows, one row after the other. -/
def ofRows (rows : List (List K)) : Except Stop (Grid K) := do
  let cols := Matrix.firstLength rows
  let data ← rows.foldlM (appendRow cols) #[]
  return ⟨rows.length, cols, data⟩

/-- One more row behind the elements, read across the columns. -/
def appendAcross (columns : List (List K)) (data : Array K) (r : Nat) : Except Stop (Array K) := do
  let across ← columns.mapM fun column => found column[r]?
  return data ++ across.toArray

/-- The grid of its columns, which are compared with the first one before any element is read. -/
def ofColumns (columns : List (List K)) : Except Stop (Grid K) :=
  let rows := Matrix.firstLength columns
  match columns.find? (fun column => column.length != rows) with
  | some bad => .error (.refused (.shapesDiffer [rows] [bad.length]))
  | none => do
    let data ← (List.range rows).foldlM (appendAcross columns) #[]
    return ⟨rows, columns.length, data⟩

/-- The grid with every element replaced. -/
def map (f : K → L) (g : Grid K) : Grid L := ⟨g.rows, g.cols, g.data.map f⟩

/-- A tensor with two dimensions, as a grid. -/
def ofTensor (t : Tensor K) : Except Stop (Grid K) :=
  match t.shape with
  | [rows, cols] => .ok ⟨rows, cols, t.data.toArray⟩
  | _ => .error (.refused (.unsupportedDimension t.dimensions))

/-- Run a splitting kernel along every row. -/
def forwardRows (split : List K → Except Error (List K × List K)) (g : Grid K) :
    Except Stop (Grid K × Grid K) := do
  let halves ← List.ofFnM fun r : Fin g.rows => do plain (split (← g.row r))
  let approx ← ofRows (halves.map Prod.fst)
  let detail ← ofRows (halves.map Prod.snd)
  return (approx, detail)

/-- The four bands of a grid that is not empty. -/
def forward (split : List K → Except Error (List K × List K)) (g : Grid K) :
    Except Stop (GridBands K) :=
  if g.rows = 0 ∨ g.cols = 0 then .error (.refused .emptyInput)
  else do
    let halves ← List.ofFnM fun c : Fin g.cols => do plain (split (← g.column c))
    let approx ← ofColumns (halves.map Prod.fst)
    let detail ← ofColumns (halves.map Prod.snd)
    let (ll, hl) ← forwardRows split approx
    let (lh, hh) ← forwardRows split detail
    return ⟨ll, lh, hl, hh⟩

/-- Run a joining kernel along every pair of rows. -/
def inverseRows (join : List K → List K → Except Error (List K)) (approx detail : Grid K) :
    Except Stop (Grid K) :=
  if approx.rows = detail.rows then do
    let rows ← List.ofFnM fun r : Fin approx.rows => do
      plain (join (← approx.row r) (← detail.row r))
    ofRows rows
  else .error (.refused (.shapesDiffer [approx.rows, approx.cols] [detail.rows, detail.cols]))

/-- The grid of four bands.  A detail half without rows stands for empty columns. -/
def inverse (join : List K → List K → Except Error (List K)) (bands : GridBands K) :
    Except Stop (Grid K) := do
  let approx ← inverseRows join bands.ll bands.hl
  let detail ← inverseRows join bands.lh bands.hh
  if 0 < detail.rows ∧ approx.cols ≠ detail.cols then
    .error (.refused (.shapesDiffer [approx.rows, approx.cols] [detail.rows, detail.cols]))
  else
    let columns ← List.ofFnM fun c : Fin approx.cols => do
      let below ← if 0 < detail.rows then detail.column c else .ok []
      plain (join (← approx.column c) below)
    ofColumns columns

/-! ### Computations without an access -/

lemma plain_eq_ok_iff {x : Except Error A} {a : A} : plain x = .ok a ↔ x = .ok a := by
  cases x <;> simp [plain, Except.mapError]

/-- Computations that keep in step with two others do so one after the other. -/
lemma plain_bind {B' : Type} {x : Except Error A} {x' : Except Stop A} {f : A → Except Error B}
    {g : A → Except Stop B'} {k : B → B'} (hx : x' = plain x)
    (hstep : ∀ a, g a = plain ((f a).map k)) : x' >>= g = plain ((x >>= f).map k) := by
  rw [hx]
  cases x with
  | error e => rfl
  | ok a => exact hstep a

lemma plain_map_bind {A' B' : Type} {x : Except Error A} {x' : Except Stop A'} {h : A → A'}
    {f : A → Except Error B} {g : A' → Except Stop B'} {k : B → B'} (hx : x' = plain (x.map h))
    (hstep : ∀ a, g (h a) = plain ((f a).map k)) : x' >>= g = plain ((x >>= f).map k) := by
  rw [hx]
  cases x with
  | error e => rfl
  | ok a => exact hstep a

lemma ofFnM_plain {n : Nat} {act : Fin n → Except Error A} {act' : Fin n → Except Stop A}
    (h : ∀ i, act' i = plain (act i)) : List.ofFnM act' = plain (List.ofFnM act) := by
  induction n with
  | zero =>
    rw [List.ofFnM_zero, List.ofFnM_zero]
    rfl
  | succ n ih =>
    rw [List.ofFnM_succ, List.ofFnM_succ, h 0]
    cases act 0 with
    | error e => rfl
    | ok a =>
      change (List.ofFnM fun i => act' i.succ) >>= _
        = plain ((List.ofFnM fun i => act i.succ) >>= _)
      rw [ih fun i => h i.succ]
      cases List.ofFnM fun i => act i.succ <;> rfl

/-! ### Reading the grid of a matrix -/

lemma get_grid (m : Matrix K) (r : Fin m.rows) (c : Fin m.cols) :
    m.grid.get r c = .ok (m.get r c) := by
  have inside : r.val * m.cols + c.val < m.data.size := by
    rw [m.size_eq]
    exact Matrix.index_lt r.isLt c.isLt
  rw [get, Matrix.grid, Array.getElem?_eq_getElem inside]
  rfl

lemma row_grid (m : Matrix K) (r : Fin m.rows) : m.grid.row r = .ok (m.row r) := by
  have hend : (r.val + 1) * m.cols ≤ m.data.size := by
    rw [m.size_eq]
    exact Nat.mul_le_mul_right _ r.isLt
  have hstart : r.val * m.cols + m.cols = (r.val + 1) * m.cols := (Nat.succ_mul _ _).symm
  rw [row, Matrix.grid, if_pos hend]
  refine congrArg Except.ok (List.ext_getElem ?_ fun c _ _ => ?_)
  · simp only [Array.length_toList, Array.size_extract, Nat.min_eq_left hend, Matrix.row,
      List.length_ofFn]
    omega
  · simp [Matrix.row, Matrix.get]

lemma column_grid (m : Matrix K) (c : Fin m.cols) : m.grid.column c = .ok (m.column c) :=
  Separable.ofFnM_ok fun r => get_grid m r c

/-! ### Making a grid -/

lemma ofData_eq {rows cols : Nat} (hcount : rows * cols < wordCount) (data : List K) :
    ofData rows cols data = plain ((Matrix.ofData rows cols data).map Matrix.grid) := by
  rw [ofData, elementCount_pair hcount]
  by_cases h : data.length = rows * cols
  · rw [if_pos h, Matrix.ofData_of_length_eq hcount h]
    rfl
  · rw [if_neg h, Matrix.ofData_of_length_ne hcount h]
    rfl

/-- A loop that puts something behind the elements in every round. -/
lemma foldlM_append {step : Array A → B → Except Stop (Array A)} (part : B → List A) {l : List B}
    (h : ∀ data, ∀ b ∈ l, step data b = .ok (data ++ (part b).toArray)) (data : Array A) :
    l.foldlM step data = .ok (data ++ (l.map part).flatten.toArray) := by
  induction l generalizing data with
  | nil => simp [pure, Except.pure]
  | cons b l ih =>
    rw [List.foldlM_cons, h data b List.mem_cons_self]
    refine (ih (fun data b hb => h data b (List.mem_cons_of_mem _ hb)) _).trans ?_
    simp

lemma foldlM_appendRow {cols : Nat} {rows : List (List K)} (h : ∀ row ∈ rows, row.length = cols) :
    rows.foldlM (appendRow cols) #[] = .ok rows.flatten.toArray := by
  have hround : ∀ data, ∀ row ∈ rows, appendRow cols data row = .ok (data ++ row.toArray) :=
    fun data row hrow => if_pos (h row hrow)
  rw [foldlM_append id hround, List.map_id, Array.empty_append]

/-- The loop comes to the first row of another length, and no farther. -/
lemma foldlM_appendRow_of_ne {cols : Nat} {before : List (List K)} {bad : List K}
    (h : ∀ row ∈ before, row.length = cols) (hbad : bad.length ≠ cols) (after : List (List K)) :
    (before ++ bad :: after).foldlM (appendRow cols) #[]
      = .error (.refused (.shapesDiffer [cols] [bad.length])) := by
  have hround : ∀ data : Array K, appendRow cols data bad
      = .error (.refused (.shapesDiffer [cols] [bad.length])) := fun data => if_neg hbad
  rw [List.foldlM_append, foldlM_appendRow h]
  change (bad :: after).foldlM (appendRow cols) _ = _
  rw [List.foldlM_cons, hround]
  rfl

lemma ofRows_eq (rows : List (List K)) :
    ofRows rows = plain ((Matrix.ofRows rows).map Matrix.grid) := by
  rw [ofRows]
  cases hfind : rows.find? (fun row => row.length != Matrix.firstLength rows) with
  | some bad =>
    obtain ⟨hbad, before, after, hsplit, hbefore⟩ := List.find?_eq_some_iff_append.mp hfind
    have hloop := foldlM_appendRow_of_ne (fun row hrow => by simpa using hbefore row hrow)
      (by simpa using hbad) after
    rw [← hsplit] at hloop
    rw [Matrix.ofRows_of_find? hfind, hloop]
    rfl
  | none =>
    rw [foldlM_appendRow (Matrix.length_eq_firstLength hfind)]
    rw [Matrix.firstLength] at hfind
    dsimp only [Matrix.ofRows]
    split <;> rename_i hrows <;> rw [hfind] at hrows <;> cases hrows
    rfl

/-- Elements that are all there, one from each member of a list. -/
lemma mapM_found {x : B → Option A} {l : List B} {elements : List A}
    (h : l.map x = elements.map some) : (l.mapM fun b => found (x b)) = .ok elements := by
  induction l generalizing elements with
  | nil =>
    obtain rfl : elements = [] := by simpa using h.symm
    rfl
  | cons b l ih =>
    cases elements with
    | nil => simp at h
    | cons a elements =>
      obtain ⟨hb, hrest⟩ := List.cons.inj h
      rw [List.mapM_cons, hb, ih hrest]
      rfl

/-- The rows of a table, read across its columns, are put one behind the other. -/
lemma foldlM_appendAcross {rows cols : Nat} (f : Fin rows → Fin cols → K) :
    (List.range rows).foldlM
        (appendAcross (List.ofFn fun c => List.ofFn fun r => f r c)) #[]
      = .ok (Matrix.ofFn rows cols f).data := by
  have hround : ∀ data, ∀ r ∈ List.finRange rows,
      appendAcross (List.ofFn fun c => List.ofFn fun r => f r c) data r.val
        = .ok (data ++ (List.ofFn (f r)).toArray) := by
    intro data r _
    have hacross : (List.ofFn fun c => List.ofFn fun r => f r c).map (fun column => column[r.val]?)
        = (List.ofFn (f r)).map some := by
      simp [List.map_ofFn, Function.comp_def]
    rw [appendAcross, mapM_found hacross]
    rfl
  rw [← List.map_coe_finRange_eq_range, List.foldlM_map, foldlM_append _ hround, ← List.ofFn_eq_map,
    Matrix.flatten_ofFn, Array.empty_append, Array.toArray_toList]

lemma ofColumns_eq (columns : List (List K)) :
    ofColumns columns = plain ((Matrix.ofColumns columns).map Matrix.grid) := by
  dsimp only [ofColumns]
  cases hfind : columns.find? (fun column => column.length != Matrix.firstLength columns) with
  | some bad =>
    rw [Matrix.ofColumns_of_find? hfind]
    rfl
  | none =>
    by_cases hempty : columns = []
    · -- without a first column there are no rows to read
      subst hempty
      rfl
    · obtain ⟨f, hf, -⟩ := Matrix.exists_eq_ofFn_ofFn (Matrix.length_eq_firstLength hfind)
      have hok := Matrix.ofColumns_ofFn (List.length_pos_iff.mpr hempty) fun r c => f c r
      have hloop := foldlM_appendAcross fun r c => f c r
      rw [← hf] at hok hloop
      rw [hok, hloop]
      rfl

lemma ofTensor_eq {t : Tensor K} (hcount : t.shape.prod < wordCount) :
    ofTensor t = plain (t.toMatrix.map Matrix.grid) := by
  obtain ⟨_ | ⟨rows, _ | ⟨cols, _ | ⟨depth, shape⟩⟩⟩, data, hlength⟩ := t
  case cons.cons.nil =>
    rw [Tensor.toMatrix_of_shape_eq rfl
      (Tensor.length_data_of_shape_eq rfl (by simpa using hcount))]
    rfl
  all_goals rfl

/-! ### Transforms of grids -/

section Transforms

variable {split : List K → Except Error (List K × List K)}
  {join : List K → List K → Except Error (List K)}

lemma forwardRows_grid (m : Matrix K) :
    forwardRows split m.grid
      = plain ((Separable.forwardRows split m).map fun p => (p.1.grid, p.2.grid)) := by
  have hrow : ∀ r : Fin m.rows, (do plain (split (← m.grid.row r))) = plain (split (m.row r)) := by
    intro r
    rw [row_grid]
    rfl
  refine plain_bind (ofFnM_plain hrow) fun halves => ?_
  refine plain_map_bind (ofRows_eq _) fun approx => ?_
  exact plain_map_bind (ofRows_eq _) fun detail => rfl

/-- **The transform of a grid** is that of the matrix, and stays inside of every grid on its way. -/
lemma forward_grid (m : Matrix K) :
    forward split m.grid = plain ((Separable.forward split m).map Bands.grids) := by
  have hcolumn : ∀ c : Fin m.cols,
      (do plain (split (← m.grid.column c))) = plain (split (m.column c)) := by
    intro c
    rw [column_grid]
    rfl
  rw [Separable.forward]
  by_cases hempty : m.rows = 0 ∨ m.cols = 0
  · rw [if_pos hempty]
    exact if_pos hempty
  rw [if_neg hempty]
  refine (if_neg hempty).trans (plain_bind (ofFnM_plain hcolumn) fun halves => ?_)
  refine plain_map_bind (ofColumns_eq _) fun approx => ?_
  refine plain_map_bind (ofColumns_eq _) fun detail => ?_
  refine plain_map_bind (forwardRows_grid approx) fun above => ?_
  exact plain_map_bind (forwardRows_grid detail) fun below => rfl

lemma inverseRows_grid (approx detail : Matrix K) :
    inverseRows join approx.grid detail.grid
      = plain ((Separable.inverseRows join approx detail).map Matrix.grid) := by
  rw [Separable.inverseRows]
  by_cases h : approx.rows = detail.rows
  · rw [dif_pos h]
    have hrow : ∀ r : Fin approx.rows,
        (do plain (join (← approx.grid.row r) (← detail.grid.row r)))
          = plain (join (approx.row r) (detail.row (r.cast h))) := by
      intro r
      have hdetail : detail.grid.row r = .ok (detail.row (r.cast h)) := row_grid detail (r.cast h)
      rw [row_grid, hdetail]
      rfl
    exact (if_pos h).trans (plain_bind (ofFnM_plain hrow) ofRows_eq)
  · rw [dif_neg h]
    exact if_neg h

/-- The columns that the last pass of the inverse takes, read from two grids. -/
lemma columns_grid {approx detail : Matrix K}
    (h : ¬(0 < detail.rows ∧ approx.cols ≠ detail.cols)) :
    (List.ofFnM fun c : Fin approx.cols => do
        let below ← if 0 < detail.grid.rows then detail.grid.column c else .ok []
        plain (join (← approx.grid.column c) below))
      = plain ((approx.columnList.zip
          (if detail.rows = 0 then List.replicate approx.cols [] else detail.columnList)).mapM
            fun (a, d) => join a d) := by
  by_cases hzero : detail.rows = 0
  · have hzip : approx.columnList.zip (List.replicate approx.cols ([] : List K))
        = List.ofFn fun c => (approx.column c, []) := by
      rw [← List.ofFn_const, Matrix.columnList, Separable.zip_ofFn]
    rw [if_pos hzero, hzip, ← Separable.ofFnM_eq_mapM]
    refine ofFnM_plain fun c => ?_
    have hnone : ¬0 < detail.grid.rows := Nat.not_lt.mpr (Nat.le_of_eq hzero)
    rw [column_grid, if_neg hnone]
    rfl
  · have hcols : approx.cols = detail.cols := by
      by_contra hne
      exact h ⟨Nat.pos_of_ne_zero hzero, hne⟩
    have hzip : approx.columnList.zip detail.columnList
        = List.ofFn fun c => (approx.column c, detail.column (c.cast hcols)) := by
      rw [Matrix.columnList, Matrix.columnList, List.ofFn_congr hcols.symm, Separable.zip_ofFn]
    rw [if_neg hzero, hzip, ← Separable.ofFnM_eq_mapM]
    refine ofFnM_plain fun c => ?_
    have hdetail : detail.grid.column c = .ok (detail.column (c.cast hcols)) :=
      column_grid detail (c.cast hcols)
    have hpos : 0 < detail.grid.rows := Nat.pos_of_ne_zero hzero
    rw [column_grid, if_pos hpos, hdetail]
    rfl

/-- **The inverse of grids** is that of the bands, and stays inside of every grid on its way. -/
lemma inverse_grid (bands : Bands K) :
    inverse join bands.grids = plain ((Separable.inverse join bands).map Matrix.grid) := by
  refine plain_map_bind (inverseRows_grid bands.ll bands.hl) fun approx => ?_
  refine plain_map_bind (inverseRows_grid bands.lh bands.hh) fun detail => ?_
  by_cases h : 0 < detail.rows ∧ approx.cols ≠ detail.cols
  · rw [if_pos h]
    exact if_pos h
  · rw [if_neg h]
    exact (if_neg h).trans (plain_bind (columns_grid h) ofColumns_eq)

end Transforms

end Grid

end WaveletPrecision
