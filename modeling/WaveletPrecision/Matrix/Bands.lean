import WaveletPrecision.Matrix.Basic

/-
Two-dimensional transforms from a one-dimensional kernel.

The forward transform runs the kernel down every column and then along every row of the
two results; the inverse runs along the rows first and then down the columns.  The kernel
is any pair of functions, which may fail, so the two transform engines and any other
splitting of a list share these definitions.  Rows and columns are read one at a time, and
the first failure of the kernel ends the transform; `ofFnM_eq_mapM` says that this is the
kernel run over the list of all of them.
-/
namespace WaveletPrecision

/-- The four bands of a single-level transform.  The first letter tells what was kept down the
columns and the second what was kept along the rows: `lh` is detail down the columns and
approximation along the rows. -/
structure Bands (K : Type) where
  ll : Matrix K
  lh : Matrix K
  hl : Matrix K
  hh : Matrix K

variable {K L : Type}

/-- The bands with every element replaced. -/
def Bands.map (f : K → L) (bands : Bands K) : Bands L :=
  ⟨bands.ll.map f, bands.lh.map f, bands.hl.map f, bands.hh.map f⟩

namespace Separable

theorem ofFnM_eq_mapM {A B : Type} {n : Nat} (act : A → Except Error B) (f : Fin n → A) :
    List.ofFnM (fun i => act (f i)) = (List.ofFn f).mapM act := by
  induction n with
  | zero => simp
  | succ n ih => simp [List.ofFnM_succ, List.ofFn_succ, ih]

/-- Run a splitting kernel along every row, and collect the two halves of the results. -/
def forwardRows (kernel : List K → Except Error (List K × List K)) (m : Matrix K) :
    Except Error (Matrix K × Matrix K) := do
  let halves ← List.ofFnM fun r => kernel (m.row r)
  let approx ← Matrix.ofRows (halves.map Prod.fst)
  let detail ← Matrix.ofRows (halves.map Prod.snd)
  return (approx, detail)

/-- The four bands of a matrix that is not empty. -/
def forward (kernel : List K → Except Error (List K × List K)) (m : Matrix K) :
    Except Error (Bands K) :=
  if m.rows = 0 ∨ m.cols = 0 then .error .emptyInput
  else do
    let halves ← List.ofFnM fun c => kernel (m.column c)
    let approx ← Matrix.ofColumns (halves.map Prod.fst)
    let detail ← Matrix.ofColumns (halves.map Prod.snd)
    let (ll, hl) ← forwardRows kernel approx
    let (lh, hh) ← forwardRows kernel detail
    return ⟨ll, lh, hl, hh⟩

/-- Run a joining kernel along every pair of rows. -/
def inverseRows (kernel : List K → List K → Except Error (List K)) (approx detail : Matrix K) :
    Except Error (Matrix K) :=
  if h : approx.rows = detail.rows then do
    let rows ← List.ofFnM fun r => kernel (approx.row r) (detail.row (r.cast h))
    Matrix.ofRows rows
  else .error (.shapesDiffer approx.shape detail.shape)

/-- The matrix of four bands.  A detail half without rows, as a single row leaves it, stands
for empty columns. -/
def inverse (kernel : List K → List K → Except Error (List K)) (bands : Bands K) :
    Except Error (Matrix K) := do
  let approx ← inverseRows kernel bands.ll bands.hl
  let detail ← inverseRows kernel bands.lh bands.hh
  if 0 < detail.rows ∧ approx.cols ≠ detail.cols then
    .error (.shapesDiffer approx.shape detail.shape)
  else
    let details := if detail.rows = 0 then List.replicate approx.cols [] else detail.columnList
    let columns ← (approx.columnList.zip details).mapM fun (a, d) => kernel a d
    Matrix.ofColumns columns

end Separable

end WaveletPrecision
