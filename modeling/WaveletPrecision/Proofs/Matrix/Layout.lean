import WaveletPrecision.Proofs.Matrix.Grid

/-
The elements of a matrix are those of its shape, row by row.

What is said about the number of elements of a matrix is part of its type.  So that it is not taken
on trust, it is proved here of grids, whose type says nothing, by induction on how a grid has been
built (`Grid.Built`): of a list of elements, of rows, of columns, of another grid or of a tensor, or
by one of the two transforms with any kernel.  Every way to build a grid leads to the grid of a
matrix (`Grid.Built.exists_eq_grid`), and so every row, column and entry of a grid that was built is
found where it is looked for (`Grid.Built.rowMajor`).

`rowMajor_layout` puts this together with where the elements of the rows and of the columns come to
stand.  The number of elements that a shape asks for is a machine word, so nothing holds of shapes
that ask for more (`rowMajor_layout_overflow`).
-/
namespace WaveletPrecision

variable {K : Type}

/-- Four bands in their order. -/
def GridBands.toList (bands : GridBands K) : List (Grid K) :=
  [bands.ll, bands.lh, bands.hl, bands.hh]

lemma Matrix.getElem?_row (m : Matrix K) (r : Fin m.rows) (c : Fin m.cols) :
    (m.row r)[c.val]? = some (m.get r c) := by
  simp [row]

lemma Matrix.getElem?_column (m : Matrix K) (r : Fin m.rows) (c : Fin m.cols) :
    (m.column c)[r.val]? = some (m.get r c) := by
  simp [column]

namespace Grid

/-! ### What is read and made of matrices -/

/-- All that reads a matrix with elements in `K` or makes one does on grids what it does on
matrices: no access fails, and the results and the refusals are the same.  Where the shape is given
with the elements, a word must count these. -/
structure Faithful (K : Type) : Prop where
  get : ∀ (m : Matrix K) r c, m.grid.get r.val c.val = .ok (m.get r c)
  row : ∀ (m : Matrix K) r, m.grid.row r.val = .ok (m.row r)
  column : ∀ (m : Matrix K) c, m.grid.column c.val = .ok (m.column c)
  ofData : ∀ rows cols, rows * cols < wordCount → ∀ data : List K,
    Grid.ofData rows cols data = plain ((Matrix.ofData rows cols data).map Matrix.grid)
  ofRows : ∀ rows : List (List K), Grid.ofRows rows = plain ((Matrix.ofRows rows).map Matrix.grid)
  ofColumns : ∀ columns : List (List K),
    Grid.ofColumns columns = plain ((Matrix.ofColumns columns).map Matrix.grid)
  map : ∀ {L : Type} (f : L → K) (m : Matrix L), m.grid.map f = (m.map f).grid
  ofTensor : ∀ t : Tensor K, t.shape.prod < wordCount →
    Grid.ofTensor t = plain (t.toMatrix.map Matrix.grid)
  forward : ∀ split (m : Matrix K),
    Grid.forward split m.grid = plain ((Separable.forward split m).map Bands.grids)
  inverse : ∀ join (bands : Bands K),
    Grid.inverse join bands.grids = plain ((Separable.inverse join bands).map Matrix.grid)

lemma faithful (K : Type) : Faithful K where
  get := get_grid
  row := row_grid
  column := column_grid
  ofData _ _ := ofData_eq
  ofRows := ofRows_eq
  ofColumns := ofColumns_eq
  map _ _ := rfl
  ofTensor _ := ofTensor_eq
  forward _ := forward_grid
  inverse _ := inverse_grid

/-! ### Grids that were built -/

/-- The grids that are built in one of seven ways, of grids that were built before.  The shape of
a list and that of a tensor are those of no more elements than a word can count. -/
inductive Built : {K : Type} → Grid K → Prop where
  | ofData {K : Type} {rows cols : Nat} {data : List K} {g : Grid K}
      (hcount : rows * cols < wordCount) (h : Grid.ofData rows cols data = .ok g) : g.Built
  | ofRows {K : Type} {rows : List (List K)} {g : Grid K} (h : Grid.ofRows rows = .ok g) : g.Built
  | ofColumns {K : Type} {columns : List (List K)} {g : Grid K}
      (h : Grid.ofColumns columns = .ok g) : g.Built
  | map {K L : Type} (f : L → K) {g : Grid L} (hg : g.Built) : (g.map f).Built
  | ofTensor {K : Type} {t : Tensor K} {g : Grid K} (hcount : t.shape.prod < wordCount)
      (h : Grid.ofTensor t = .ok g) : g.Built
  | forward {K : Type} {split : List K → Except Error (List K × List K)} {g band : Grid K}
      {bands : GridBands K} (hg : g.Built) (h : Grid.forward split g = .ok bands)
      (hband : band ∈ bands.toList) : band.Built
  | inverse {K : Type} {join : List K → List K → Except Error (List K)} {bands : GridBands K}
      {g : Grid K} (hbands : ∀ band ∈ bands.toList, band.Built)
      (h : Grid.inverse join bands = .ok g) : g.Built

lemma exists_of_plain_map {A B : Type} {x : Except Error A} {f : A → B} {b : B}
    (h : plain (x.map f) = .ok b) : ∃ a, f a = b := by
  obtain ⟨a, -, hab⟩ := map_eq_ok_iff.mp (plain_eq_ok_iff.mp h)
  exact ⟨a, hab⟩

lemma exists_grid_of_mem {bands : Bands K} {band : Grid K} (h : band ∈ bands.grids.toList) :
    ∃ m : Matrix K, m.grid = band := by
  simp only [GridBands.toList, Bands.grids, List.mem_cons, List.not_mem_nil, or_false] at h
  rcases h with rfl | rfl | rfl | rfl
  exacts [⟨_, rfl⟩, ⟨_, rfl⟩, ⟨_, rfl⟩, ⟨_, rfl⟩]

lemma exists_grids_eq {bands : GridBands K}
    (h : ∀ band ∈ bands.toList, ∃ m : Matrix K, m.grid = band) :
    ∃ b : Bands K, b.grids = bands := by
  obtain ⟨ll, lh, hl, hh⟩ := bands
  obtain ⟨mll, rfl⟩ := h ll (by simp [GridBands.toList])
  obtain ⟨mlh, rfl⟩ := h lh (by simp [GridBands.toList])
  obtain ⟨mhl, rfl⟩ := h hl (by simp [GridBands.toList])
  obtain ⟨mhh, rfl⟩ := h hh (by simp [GridBands.toList])
  exact ⟨⟨mll, mlh, mhl, mhh⟩, rfl⟩

/-- **What was built is the grid of a matrix.** -/
lemma Built.exists_eq_grid {g : Grid K} (h : g.Built) : ∃ m : Matrix K, m.grid = g := by
  induction h with
  | ofData hcount h =>
    rw [ofData_eq hcount] at h
    exact exists_of_plain_map h
  | ofRows h =>
    rw [ofRows_eq] at h
    exact exists_of_plain_map h
  | ofColumns h =>
    rw [ofColumns_eq] at h
    exact exists_of_plain_map h
  | map f _ ih =>
    obtain ⟨m, rfl⟩ := ih
    exact ⟨m.map f, rfl⟩
  | ofTensor hcount h =>
    rw [ofTensor_eq hcount] at h
    exact exists_of_plain_map h
  | forward _ h hband ih =>
    obtain ⟨m, rfl⟩ := ih
    rw [forward_grid] at h
    obtain ⟨bands, rfl⟩ := exists_of_plain_map h
    exact exists_grid_of_mem hband
  | inverse _ h ih =>
    obtain ⟨bands, rfl⟩ := exists_grids_eq ih
    rw [inverse_grid] at h
    exact exists_of_plain_map h

/-- The elements fit the shape, and whatever is read at a place inside of the shape is there. -/
structure RowMajor (g : Grid K) : Prop where
  size_eq : g.data.size = g.rows * g.cols
  get : ∀ r < g.rows, ∀ c < g.cols, ∃ v, g.get r c = .ok v
  row : ∀ r < g.rows, ∃ row, g.row r = .ok row ∧ row.length = g.cols ∧
    ∀ c < g.cols, found row[c]? = g.get r c
  column : ∀ c < g.cols, ∃ column, g.column c = .ok column ∧ column.length = g.rows ∧
    ∀ r < g.rows, found column[r]? = g.get r c

lemma rowMajor_grid (m : Matrix K) : m.grid.RowMajor where
  size_eq := m.size_eq
  get r hr c hc := ⟨m.get ⟨r, hr⟩ ⟨c, hc⟩, get_grid m ⟨r, hr⟩ ⟨c, hc⟩⟩
  row r hr := by
    refine ⟨m.row ⟨r, hr⟩, row_grid m ⟨r, hr⟩, List.length_ofFn, fun c hc => ?_⟩
    have hget := get_grid m ⟨r, hr⟩ ⟨c, hc⟩
    rw [m.getElem?_row ⟨r, hr⟩ ⟨c, hc⟩]
    exact hget.symm
  column c hc := by
    refine ⟨m.column ⟨c, hc⟩, column_grid m ⟨c, hc⟩, List.length_ofFn, fun r hr => ?_⟩
    have hget := get_grid m ⟨r, hr⟩ ⟨c, hc⟩
    rw [m.getElem?_column ⟨r, hr⟩ ⟨c, hc⟩]
    exact hget.symm

lemma Built.rowMajor {g : Grid K} (h : g.Built) : g.RowMajor := by
  obtain ⟨m, rfl⟩ := h.exists_eq_grid
  exact rowMajor_grid m

end Grid

/-! ### The layout -/

/-- **The layout of matrices.**  Whatever is built of elements that a word can count has an element
for every place of its shape, and the readers find it.  Lists of one length are assembled into rows
or into columns in their order, lists of unequal lengths are refused, and a matrix with a row or
with a column is assembled again from its rows or from its columns. -/
theorem rowMajor_layout (K : Type) :
    Grid.Faithful K ∧
    (∀ g : Grid K, g.Built → g.RowMajor) ∧
    (∀ (rows : List (List K)) (n : Nat), (∀ row ∈ rows, row.length = n) →
      ∃ m, Matrix.ofRows rows = .ok m ∧ m.shape = [rows.length, if rows.isEmpty then 0 else n] ∧
        ∀ (r : Fin m.rows) (c : Fin m.cols),
          (rows[r.val]?.bind fun row => row[c.val]?) = some (m.get r c)) ∧
    (∀ (columns : List (List K)) (n : Nat), (∀ column ∈ columns, column.length = n) →
      ∃ m, Matrix.ofColumns columns = .ok m ∧
        m.shape = [if columns.isEmpty then 0 else n, columns.length] ∧
        ∀ (r : Fin m.rows) (c : Fin m.cols),
          (columns[c.val]?.bind fun column => column[r.val]?) = some (m.get r c)) ∧
    (∀ lists : List (List K), (∃ l ∈ lists, ∃ l' ∈ lists, l.length ≠ l'.length) →
      ∃ left right, Matrix.FirstUnequal lists left right ∧
        Matrix.ofRows lists = .error (.shapesDiffer [left] [right]) ∧
        Matrix.ofColumns lists = .error (.shapesDiffer [left] [right])) ∧
    ∀ m : Matrix K, (0 < m.rows → Matrix.ofRows m.rowList = .ok m) ∧
      (0 < m.cols → Matrix.ofColumns m.columnList = .ok m) := by
  refine ⟨Grid.faithful K, fun g hg => hg.rowMajor, ?_, ?_, ?_, ?_⟩
  · intro rows n hrows
    exact Matrix.exists_ofRows hrows
  · intro columns n hcolumns
    exact Matrix.exists_ofColumns hcolumns
  · intro lists hlists
    exact Matrix.exists_refusal_of_unequal hlists
  · intro m
    exact ⟨m.ofRows_rowList, m.ofColumns_columnList⟩

/-- A single row that is cut and put together with a zero behind it, so that two of the bands have
neither rows nor columns, and matrices without columns and without rows. -/
theorem rowMajor_layout_single :
    let cut : List Nat → Except Error (List Nat × List Nat) := fun v =>
      .ok (v.take ((v.length + 1) / 2), v.drop ((v.length + 1) / 2))
    let paste : List Nat → List Nat → Except Error (List Nat) := fun a d => .ok (a ++ d ++ [0])
    let bands : GridBands Nat :=
      ⟨⟨1, 2, #[5, 6]⟩, ⟨0, 0, #[]⟩, ⟨1, 1, #[7]⟩, ⟨0, 0, #[]⟩⟩
    let back : Grid Nat := ⟨2, 4, #[5, 6, 7, 0, 0, 0, 0, 0]⟩
    let rows : List (List Nat) := [[], []]
    let columns : List (List Nat) := [[1, 4], [2, 5], [3, 6]]
    let uneven : List (List Nat) := [[1, 4], [2, 5], [3]]
    let tall : Matrix Nat := .ofFn 3 0 fun _ c => c
    let flat : Matrix Nat := .ofFn 0 2 fun r _ => r
    (Grid.ofData 1 3 [5, 6, 7] >>= Grid.forward cut) = .ok bands ∧
      Grid.inverse paste bands = .ok back ∧ back.Built ∧ back.RowMajor ∧
      (∀ row ∈ rows, row.length = 0) ∧
      (∃ m, Matrix.ofRows rows = .ok m ∧ m.shape = [2, 0]) ∧
      (∀ column ∈ columns, column.length = 2) ∧
      (∃ m, Matrix.ofColumns columns = .ok m ∧ m.shape = [2, 3] ∧
        ∀ (r : Fin m.rows) (c : Fin m.cols),
          (columns[c.val]?.bind fun column => column[r.val]?) = some (m.get r c)) ∧
      (∃ l ∈ uneven, ∃ l' ∈ uneven, l.length ≠ l'.length) ∧
      (∃ left right, Matrix.FirstUnequal uneven left right ∧
        Matrix.ofRows uneven = .error (.shapesDiffer [left] [right]) ∧
        Matrix.ofColumns uneven = .error (.shapesDiffer [left] [right])) ∧
      0 < tall.rows ∧ Matrix.ofRows tall.rowList = .ok tall ∧
      0 < flat.cols ∧ Matrix.ofColumns flat.columnList = .ok flat := by
  intro cut paste bands back rows columns uneven tall flat
  have hrow : Grid.ofData 1 3 [5, 6, 7] = .ok ⟨1, 3, #[5, 6, 7]⟩ := by decide +kernel
  have hforward : Grid.forward cut ⟨1, 3, #[5, 6, 7]⟩ = .ok bands := by decide +kernel
  have hinverse : Grid.inverse paste bands = .ok back := by decide +kernel
  have hbuilt : back.Built :=
    .inverse (fun band hband => .forward (.ofData (by decide) hrow) hforward hband) hinverse
  have hempty : ∀ row ∈ rows, row.length = 0 := by decide
  have hcolumns : ∀ column ∈ columns, column.length = 2 := by decide
  have huneven : ∃ l ∈ uneven, ∃ l' ∈ uneven, l.length ≠ l'.length := by decide
  obtain ⟨-, hlayout, hrows, hcols, hrefused, hagain⟩ := rowMajor_layout Nat
  obtain ⟨m, hm, hshape, -⟩ := hrows rows 0 hempty
  refine ⟨?_, hinverse, hbuilt, hlayout back hbuilt, hempty, ⟨m, hm, hshape⟩, hcolumns,
    hcols columns 2 hcolumns, huneven, hrefused uneven huneven, by decide,
    (hagain tall).1 (by decide), by decide, (hagain flat).2 (by decide)⟩
  rw [hrow]
  exact hforward

/-- Two rows of `2 ^ 63` columns are counted as no elements, so they are built of none, and the
first entry is not there. -/
theorem rowMajor_layout_overflow :
    let wide : Grid Nat := ⟨2, 9223372036854775808, #[]⟩
    Grid.ofData 2 9223372036854775808 [] = .ok wide ∧ wide.data.size ≠ wide.rows * wide.cols ∧
      0 < wide.rows ∧ 0 < wide.cols ∧ wide.get 0 0 = .error .outside ∧ ¬wide.RowMajor := by
  intro wide
  have hsize : wide.data.size ≠ wide.rows * wide.cols := by decide
  exact ⟨rfl, hsize, by decide, by decide, rfl, fun h => hsize h.size_eq⟩

end WaveletPrecision
