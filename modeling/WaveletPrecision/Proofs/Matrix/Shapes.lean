import WaveletPrecision.Proofs.Error
import WaveletPrecision.Proofs.Matrix.Separable

/-
The shapes in a separable transform.

A kernel that only keeps to its lengths (`Separable.Fits`) can be run over every matrix with a
row and a column, and the shapes of the four bands are known (`Separable.Fits.forward_ok`).  Any
four bands of these shapes can be put together again (`Separable.Fits.inverse_ok`), so it does
not matter what has become of their elements in between.

The passes keep the lengths of the columns and of the rows until their kernel has run over them.
So kernels that agree on lists of these two lengths have the same bands, and the same failures
(`Separable.forward_congr`).
-/
namespace WaveletPrecision

/-! ### Matrices of a shape -/

namespace Matrix

variable {K : Type} {m : Matrix K} {rows cols : Nat}

lemma exists_eq_ofFn (h : m.shape = [rows, cols]) : ∃ f, m = ofFn rows cols f := by
  obtain ⟨rfl, rfl⟩ : m.rows = rows ∧ m.cols = cols := by simpa [shape] using h
  exact ⟨m.get, m.ofFn_get.symm⟩

lemma eq_empty_of_shape (h : m.shape = [0, 0]) : m = empty := by
  obtain ⟨hrows, hcols⟩ : m.rows = 0 ∧ m.cols = 0 := by simpa [shape] using h
  refine ext_data hrows hcols (Array.eq_empty_of_size_eq_zero ?_)
  rw [m.size_eq, hrows, Nat.zero_mul]

lemma cols_ofColumns {columns : List (List K)} (h : ofColumns columns = .ok m) :
    m.cols = columns.length := by
  dsimp only [ofColumns] at h
  split at h
  · cases h
  · cases h
    rfl

end Matrix

/-! ### Four bands -/

/-- Four bands have the shapes that a transform of a matrix leaves, where `n` samples have `A n`
coefficients of approximation and `D n` of detail.  Bands without rows have no columns either. -/
structure Bands.Sized {K : Type} (A D : Nat → Nat) (rows cols : Nat) (bands : Bands K) : Prop where
  ll : bands.ll.shape = [A rows, A cols]
  hl : bands.hl.shape = [A rows, D cols]
  lh : bands.lh.shape = if D rows = 0 then [0, 0] else [D rows, A cols]
  hh : bands.hh.shape = if D rows = 0 then [0, 0] else [D rows, D cols]

lemma Bands.Sized.map {K L : Type} {A D : Nat → Nat} {rows cols : Nat} {bands : Bands K}
    (h : bands.Sized A D rows cols) (f : K → L) : (bands.map f).Sized A D rows cols :=
  ⟨h.ll, h.hl, h.lh, h.hh⟩

/-- The four bands have so many rows and columns. -/
structure Bands.Uniform {K : Type} (bands : Bands K) (rows cols : Nat) : Prop where
  ll : bands.ll.shape = [rows, cols]
  lh : bands.lh.shape = [rows, cols]
  hl : bands.hl.shape = [rows, cols]
  hh : bands.hh.shape = [rows, cols]

/-- A transform that keeps as much detail as approximation leaves bands of one shape. -/
lemma Bands.Sized.uniform {K : Type} {A : Nat → Nat} {rows cols : Nat} {bands : Bands K}
    (h : bands.Sized A A rows cols) (hrows : A rows ≠ 0) :
    bands.Uniform (A rows) (A cols) :=
  ⟨h.ll, h.lh.trans (if_neg hrows), h.hl, h.hh.trans (if_neg hrows)⟩

namespace Separable

variable {K : Type} {A D L : Nat → Nat} {split : List K → Except Error (List K × List K)}
  {join : List K → List K → Except Error (List K)} {rows cols : Nat}

/-- Splitting the rows of a table, which may have none. -/
lemma Fits.exists_forwardRows (h : Fits A D L split join) (hcols : 1 ≤ cols)
    (f : Fin rows → Fin cols → K) :
    ∃ lo hi, forwardRows split (.ofFn rows cols f) = .ok (lo, hi) ∧
      lo.shape = (if rows = 0 then [0, 0] else [rows, A cols]) ∧
      hi.shape = if rows = 0 then [0, 0] else [rows, D cols] := by
  rcases Nat.eq_zero_or_pos rows with hzero | hpos
  · refine ⟨.empty, .empty, forwardRows_of_rows_eq_zero hzero, ?_, ?_⟩ <;> rw [if_pos hzero] <;> rfl
  · obtain ⟨a, d, -, hsplit, -⟩ := h.exists_ofFn hcols
    refine ⟨_, _, forwardRows_ofFn hpos fun r => hsplit (f r), ?_, ?_⟩ <;>
      rw [if_neg hpos.ne', Matrix.shape_ofFn]

/-- **The shapes of the four bands** of a matrix with a row and a column. -/
lemma Fits.forward_ok (h : Fits A D L split join) (m : Matrix K) (hrows : 1 ≤ m.rows)
    (hcols : 1 ≤ m.cols) :
    ∃ bands, forward split m = .ok bands ∧ bands.Sized A D m.rows m.cols := by
  obtain ⟨a, d, -, hsplit, -⟩ := h.exists_ofFn hrows
  obtain ⟨ll, hl, hforwardA, hll, hhl⟩ := h.exists_forwardRows hcols
    fun (r : Fin (A m.rows)) c => a (fun r => m.get r c) r
  obtain ⟨lh, hh, hforwardD, hlh, hhh⟩ := h.exists_forwardRows hcols
    fun (r : Fin (D m.rows)) c => d (fun r => m.get r c) r
  have happrox : A m.rows ≠ 0 := by
    have := h.one_le_approx m.rows hrows
    omega
  rw [if_neg happrox] at hll hhl
  refine ⟨⟨ll, lh, hl, hh⟩, ?_, hll, hhl, hlh, hhh⟩
  rw [← m.ofFn_get]
  exact forward_ofFn hrows hcols (fun c => hsplit fun r => m.get r c) hforwardA hforwardD

/-- **Four bands of the right shapes** are put together, whatever their elements are. -/
lemma Fits.inverse_ok (h : Fits A D L split join) (hrows : 1 ≤ rows) (hcols : 1 ≤ cols)
    {bands : Bands K} (hbands : bands.Sized A D rows cols) :
    ∃ m, inverse join bands = .ok m ∧ m.shape = [L rows, L cols] := by
  obtain ⟨-, -, yR, -, hjoinR⟩ := h.exists_ofFn hrows
  obtain ⟨-, -, yC, -, hjoinC⟩ := h.exists_ofFn hcols
  obtain ⟨ll, hll⟩ := Matrix.exists_eq_ofFn hbands.ll
  obtain ⟨hl, hhl⟩ := Matrix.exists_eq_ofFn hbands.hl
  have hwide : 0 < L cols := Nat.lt_of_lt_of_le hcols (h.le_joined _ hcols)
  have happrox : inverseRows join bands.ll bands.hl
      = .ok (.ofFn (A rows) (L cols) fun r => yC (ll r) (hl r)) := by
    rw [hll, hhl]
    exact inverseRows_ofFn (h.one_le_approx _ hrows) fun r => hjoinC _ _
  have hdetail : ∃ (d : Fin (D rows) → Fin (L cols) → K) (detail : Matrix K),
      inverseRows join bands.lh bands.hh = .ok detail ∧
        (detail = .ofFn (D rows) (L cols) d ∨ D rows = 0 ∧ detail.rows = 0) := by
    have hlh := hbands.lh
    have hhh := hbands.hh
    by_cases hzero : D rows = 0
    · rw [if_pos hzero] at hlh hhh
      rw [Matrix.eq_empty_of_shape hlh, Matrix.eq_empty_of_shape hhh]
      exact ⟨fun r => absurd r.isLt (by omega), .empty, inverseRows_of_rows_eq_zero rfl rfl,
        .inr ⟨hzero, rfl⟩⟩
    · rw [if_neg hzero] at hlh hhh
      obtain ⟨lh, hlh⟩ := Matrix.exists_eq_ofFn hlh
      obtain ⟨hh, hhh⟩ := Matrix.exists_eq_ofFn hhh
      rw [hlh, hhh]
      exact ⟨_, _, inverseRows_ofFn (Nat.pos_of_ne_zero hzero) fun r => hjoinC (lh r) (hh r),
        .inl rfl⟩
  obtain ⟨d, detail, hok, hcases⟩ := hdetail
  exact ⟨_, inverse_of_rows hwide happrox hok hcases fun c => hjoinR _ _, Matrix.shape_ofFn _⟩

/-! ### Kernels that agree -/

lemma length_of_ofFnM {B : Type} {n : Nat} {act : Fin n → Except Error B} {l : List B}
    (h : List.ofFnM act = .ok l) : l.length = n := by
  induction n generalizing l with
  | zero =>
    rw [List.ofFnM_zero] at h
    cases h
    rfl
  | succ n ih =>
    rw [List.ofFnM_succ] at h
    obtain ⟨b, -, h⟩ := bind_eq_ok_iff.mp h
    obtain ⟨rest, hrest, h⟩ := bind_eq_ok_iff.mp h
    cases h
    rw [List.length_cons, ih hrest]

variable {split' : List K → Except Error (List K × List K)} {m : Matrix K}

lemma forwardRows_congr (h : ∀ v, v.length = m.cols → split v = split' v) :
    forwardRows split m = forwardRows split' m := by
  have hrows : (fun r => split (m.row r)) = fun r => split' (m.row r) :=
    funext fun r => h _ (by simp [Matrix.row])
  rw [forwardRows, forwardRows, hrows]

/-- **A transform of a matrix asks its kernel for lists of two lengths only**, those of the columns
and of the rows. -/
lemma forward_congr (hrows : ∀ v, v.length = m.rows → split v = split' v)
    (hcols : ∀ v, v.length = m.cols → split v = split' v) : forward split m = forward split' m := by
  have hcolumns : (fun c => split (m.column c)) = fun c => split' (m.column c) :=
    funext fun c => hrows _ (by simp [Matrix.column])
  rw [forward, forward, hcolumns]
  split
  · rfl
  refine bind_congr_of_ok fun halves hhalves => bind_congr_of_ok fun approx happrox =>
    bind_congr_of_ok fun detail hdetail => ?_
  -- both halves of the columns have as many columns as the matrix
  have hlength := length_of_ofFnM hhalves
  have happroxCols : approx.cols = m.cols := by
    rw [Matrix.cols_ofColumns happrox, List.length_map, hlength]
  have hdetailCols : detail.cols = m.cols := by
    rw [Matrix.cols_ofColumns hdetail, List.length_map, hlength]
  have happroxRows : forwardRows split approx = forwardRows split' approx :=
    forwardRows_congr fun v hv => hcols v (hv.trans happroxCols)
  have hdetailRows : forwardRows split detail = forwardRows split' detail :=
    forwardRows_congr fun v hv => hcols v (hv.trans hdetailCols)
  rw [happroxRows, hdetailRows]

end Separable

end WaveletPrecision
