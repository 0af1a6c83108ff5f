import WaveletPrecision.Proofs.Matrix.Assembly

/-
The separable transform of a matrix undoes itself wherever its kernel does.

A kernel is a pair of functions, `split` and `join`, of which nothing is known but the
lengths of their results and that `join` takes `split` back.  The forward transform runs
`split` down the columns and then along the rows of the two results; the inverse runs
`join` along the rows first, so it meets rows longer than those it came from, and the
columns beyond the original ones are not images of `split`.  All that is used of these
columns is that `join` accepts their lengths.

A column whose detail is empty leaves a detail matrix without rows.  Its two halves have
forgotten their number of columns, so the row passes over them are the passes over
`Matrix.empty`, and the last pass takes empty columns in their place.

* `Separable.RoundTrip` is what is asked of a kernel;
* `Separable.forwardRows_ofFn`, `Separable.inverseRows_ofFn`, `Separable.forward_ofFn` and
  `Separable.inverse_of_rows` say what each pass does to the table of a function;
* `Separable.inverse_forward_extends` is the round trip of a matrix.
-/
namespace WaveletPrecision

/-- The matrix `big` has the entries of `small` in its upper left corner. -/
structure Matrix.Extends {K : Type} (big small : Matrix K) : Prop where
  rows_le : small.rows ≤ big.rows
  cols_le : small.cols ≤ big.cols
  get_eq : ∀ r c, big.get (r.castLE rows_le) (c.castLE cols_le) = small.get r c

lemma Matrix.extends_ofFn {K : Type} {rows cols : Nat} {f : Fin rows → Fin cols → K}
    {m : Matrix K} (hrows : m.rows ≤ rows) (hcols : m.cols ≤ cols)
    (h : ∀ r c, f (r.castLE hrows) (c.castLE hcols) = m.get r c) :
    (Matrix.ofFn rows cols f).Extends m :=
  ⟨hrows, hcols, fun r c => (get_ofFn f _ _).trans (h r c)⟩

namespace Separable

variable {K : Type} {split : List K → Except Error (List K × List K)}
  {join : List K → List K → Except Error (List K)}

/-- A kernel whose second half takes the first half back.  A signal of `n` samples, at least
one, has an approximation of `A n` and a detail of `D n` samples, and of them only the
detail may be empty.  Any two lists of these lengths are joined to a list of `L n` samples,
which begins with the signal if they came from one. -/
structure RoundTrip (A D L : Nat → Nat) (split : List K → Except Error (List K × List K))
    (join : List K → List K → Except Error (List K)) : Prop where
  split_ok : ∀ v : List K, v ≠ [] →
    ∃ a d, split v = .ok (a, d) ∧ a.length = A v.length ∧ d.length = D v.length
  one_le_approx : ∀ n, 1 ≤ n → 1 ≤ A n
  join_ok : ∀ n, 1 ≤ n → ∀ a d : List K, a.length = A n → d.length = D n →
    ∃ y, join a d = .ok y ∧ y.length = L n
  le_joined : ∀ n, 1 ≤ n → n ≤ L n
  prefix_of_join : ∀ v : List K, v ≠ [] → ∀ a d, split v = .ok (a, d) →
    ∀ y, join a d = .ok y → v <+: y

/-- What a kernel does to lengths, whatever it computes. -/
structure Fits (A D L : Nat → Nat) (split : List K → Except Error (List K × List K))
    (join : List K → List K → Except Error (List K)) : Prop where
  split_ok : ∀ v : List K, v ≠ [] →
    ∃ a d, split v = .ok (a, d) ∧ a.length = A v.length ∧ d.length = D v.length
  one_le_approx : ∀ n, 1 ≤ n → 1 ≤ A n
  join_ok : ∀ n, 1 ≤ n → ∀ a d : List K, a.length = A n → d.length = D n →
    ∃ y, join a d = .ok y ∧ y.length = L n
  le_joined : ∀ n, 1 ≤ n → n ≤ L n

lemma RoundTrip.fits {A D L : Nat → Nat} (h : RoundTrip A D L split join) :
    Fits A D L split join :=
  ⟨h.split_ok, h.one_le_approx, h.join_ok, h.le_joined⟩

/-! ### One pass over the table of a function -/

lemma ofFnM_ok {E B : Type} {n : Nat} {act : Fin n → Except E B} {g : Fin n → B}
    (h : ∀ i, act i = .ok (g i)) : List.ofFnM act = .ok (List.ofFn g) := by
  have hact : act = fun i => pure (g i) := funext h
  rw [hact]
  exact List.ofFnM_pure

variable {rows cols p q n : Nat}

lemma forwardRows_ofFn (hrows : 0 < rows) {f : Fin rows → Fin cols → K}
    {a : Fin rows → Fin p → K} {d : Fin rows → Fin q → K}
    (h : ∀ r, split (List.ofFn (f r)) = .ok (List.ofFn (a r), List.ofFn (d r))) :
    forwardRows split (.ofFn rows cols f) = .ok (.ofFn rows p a, .ofFn rows q d) := by
  have hhalves : List.ofFnM (fun r => split ((Matrix.ofFn rows cols f).row r))
      = .ok (List.ofFn fun r => (List.ofFn (a r), List.ofFn (d r))) :=
    ofFnM_ok fun r => (congrArg split (Matrix.row_ofFn f r)).trans (h r)
  rw [forwardRows, hhalves]
  simp only [bind, Except.bind, List.map_ofFn, Function.comp_def,
    Matrix.ofRows_ofFn hrows, pure, Except.pure]

lemma inverseRows_ofFn (hrows : 0 < rows) {a : Fin rows → Fin p → K}
    {d : Fin rows → Fin q → K} {f : Fin rows → Fin n → K}
    (h : ∀ r, join (List.ofFn (a r)) (List.ofFn (d r)) = .ok (List.ofFn (f r))) :
    inverseRows join (.ofFn rows p a) (.ofFn rows q d) = .ok (.ofFn rows n f) := by
  have hrowsEq : (Matrix.ofFn rows p a).rows = (Matrix.ofFn rows q d).rows := rfl
  have hjoined : List.ofFnM (fun r => join ((Matrix.ofFn rows p a).row r)
      ((Matrix.ofFn rows q d).row (r.cast hrowsEq))) = .ok (List.ofFn fun r => List.ofFn (f r)) :=
    ofFnM_ok fun r => (congrArg₂ join (Matrix.row_ofFn a r) (Matrix.row_ofFn d r)).trans (h r)
  rw [inverseRows, dif_pos hrowsEq, hjoined]
  exact Matrix.ofRows_ofFn hrows f

lemma forwardRows_of_rows_eq_zero {m : Matrix K} (hm : m.rows = 0) :
    forwardRows split m = .ok (.empty, .empty) := by
  obtain ⟨rows, cols, data, size⟩ := m
  simp only at hm
  subst hm
  simp only [forwardRows, List.ofFnM_zero]
  rfl

lemma inverseRows_of_rows_eq_zero {approx detail : Matrix K} (happrox : approx.rows = 0)
    (hdetail : detail.rows = 0) : inverseRows join approx detail = .ok .empty := by
  obtain ⟨rows, cols, data, size⟩ := approx
  simp only at happrox
  subst happrox
  rw [inverseRows, dif_pos hdetail.symm]
  simp only [List.ofFnM_zero]
  rfl

/-- The columns first: both halves of every column are collected, and their rows are split. -/
lemma forward_ofFn (hrows : 0 < rows) (hcols : 0 < cols) {f : Fin rows → Fin cols → K}
    {a : Fin p → Fin cols → K} {d : Fin q → Fin cols → K}
    (h : ∀ c, split (List.ofFn fun r => f r c)
      = .ok (List.ofFn fun r => a r c, List.ofFn fun r => d r c))
    {ll hl lh hh : Matrix K} (ha : forwardRows split (.ofFn p cols a) = .ok (ll, hl))
    (hd : forwardRows split (.ofFn q cols d) = .ok (lh, hh)) :
    forward split (.ofFn rows cols f) = .ok ⟨ll, lh, hl, hh⟩ := by
  have hempty : ¬((Matrix.ofFn rows cols f).rows = 0 ∨ (Matrix.ofFn rows cols f).cols = 0) := by
    rintro (hr | hc)
    · exact hrows.ne' hr
    · exact hcols.ne' hc
  have hhalves : List.ofFnM (fun c => split ((Matrix.ofFn rows cols f).column c))
      = .ok (List.ofFn fun c => (List.ofFn fun r => a r c, List.ofFn fun r => d r c)) :=
    ofFnM_ok fun c => (congrArg split (Matrix.column_ofFn f c)).trans (h c)
  rw [forward, if_neg hempty, hhalves]
  simp only [bind, Except.bind, List.map_ofFn, Function.comp_def,
    Matrix.ofColumns_ofFn hcols, ha, hd, pure, Except.pure]

lemma zip_ofFn {A B : Type} (f : Fin n → A) (g : Fin n → B) :
    (List.ofFn f).zip (List.ofFn g) = List.ofFn fun i => (f i, g i) := by
  apply List.ext_getElem <;> simp

/-- The columns that the last pass of the inverse takes for the detail half. -/
lemma details_eq_ofFn {d : Fin q → Fin cols → K} {detail : Matrix K}
    (hdetail : detail = .ofFn q cols d ∨ q = 0 ∧ detail.rows = 0) :
    (if detail.rows = 0 then List.replicate cols [] else detail.columnList)
      = List.ofFn fun c => List.ofFn fun r => d r c := by
  by_cases hq : q = 0
  · have hzero : detail.rows = 0 := by
      rcases hdetail with rfl | ⟨-, hzero⟩
      · exact hq
      · exact hzero
    subst hq
    rw [if_pos hzero]
    simp
  · obtain rfl := hdetail.resolve_right fun h => hq h.1
    have hrows : ¬(Matrix.ofFn q cols d).rows = 0 := hq
    rw [if_neg hrows, Matrix.columnList_ofFn]

/-- The rows first, then the columns.  The detail half is the table of a function, or it has
no rows and the columns of that function are empty. -/
lemma inverse_eq_columns {a : Fin p → Fin cols → K} {d : Fin q → Fin cols → K} {bands : Bands K}
    {detail : Matrix K} (ha : inverseRows join bands.ll bands.hl = .ok (.ofFn p cols a))
    (hd : inverseRows join bands.lh bands.hh = .ok detail)
    (hdetail : detail = .ofFn q cols d ∨ q = 0 ∧ detail.rows = 0) :
    inverse join bands
      = List.ofFnM (fun c => join (List.ofFn fun r => a r c) (List.ofFn fun r => d r c))
        >>= Matrix.ofColumns := by
  have hshape : ¬(0 < detail.rows ∧ (Matrix.ofFn p cols a).cols ≠ detail.cols) := by
    rintro ⟨hpos, hne⟩
    rcases hdetail with rfl | ⟨-, hzero⟩
    · exact hne rfl
    · exact hpos.ne' hzero
  rw [inverse, ha, hd]
  simp only [bind, Except.bind, if_neg hshape]
  rw [Matrix.cols_ofFn, details_eq_ofFn hdetail, Matrix.columnList_ofFn, zip_ofFn,
    ← ofFnM_eq_mapM]

/-- If the kernel joins every pair of columns, they are assembled into the table of the results. -/
lemma inverse_of_rows (hcols : 0 < cols) {a : Fin p → Fin cols → K} {d : Fin q → Fin cols → K}
    {f : Fin n → Fin cols → K} {bands : Bands K} {detail : Matrix K}
    (ha : inverseRows join bands.ll bands.hl = .ok (.ofFn p cols a))
    (hd : inverseRows join bands.lh bands.hh = .ok detail)
    (hdetail : detail = .ofFn q cols d ∨ q = 0 ∧ detail.rows = 0)
    (h : ∀ c, join (List.ofFn fun r => a r c) (List.ofFn fun r => d r c)
      = .ok (List.ofFn fun r => f r c)) :
    inverse join bands = .ok (.ofFn n cols f) := by
  rw [inverse_eq_columns ha hd hdetail, ofFnM_ok h]
  exact Matrix.ofColumns_ofFn hcols f

/-! ### The round trip -/

lemma exists_eq_ofFn {v : List K} {n : Nat} (h : v.length = n) : ∃ f : Fin n → K, v = List.ofFn f :=
  ⟨fun i => v[i], by subst h; exact List.ofFn_getElem.symm⟩

/-- What a kernel computes for the signals of one length, as functions on positions. -/
lemma Fits.exists_ofFn {A D L : Nat → Nat} (h : Fits A D L split join) (hn : 1 ≤ n) :
    ∃ (a : (Fin n → K) → Fin (A n) → K) (d : (Fin n → K) → Fin (D n) → K)
      (y : (Fin (A n) → K) → (Fin (D n) → K) → Fin (L n) → K),
      (∀ v, split (List.ofFn v) = .ok (List.ofFn (a v), List.ofFn (d v))) ∧
      ∀ v w, join (List.ofFn v) (List.ofFn w) = .ok (List.ofFn (y v w)) := by
  have hsplit : ∀ v : Fin n → K, ∃ (a : Fin (A n) → K) (d : Fin (D n) → K),
      split (List.ofFn v) = .ok (List.ofFn a, List.ofFn d) := by
    intro v
    obtain ⟨a, d, hok, ha, hd⟩ := h.split_ok (List.ofFn v) (by simpa using (by omega : n ≠ 0))
    rw [List.length_ofFn] at ha hd
    obtain ⟨a, rfl⟩ := exists_eq_ofFn ha
    obtain ⟨d, rfl⟩ := exists_eq_ofFn hd
    exact ⟨a, d, hok⟩
  have hjoin : ∀ (v : Fin (A n) → K) (w : Fin (D n) → K), ∃ y : Fin (L n) → K,
      join (List.ofFn v) (List.ofFn w) = .ok (List.ofFn y) := by
    intro v w
    obtain ⟨y, hok, hy⟩ := h.join_ok n hn (List.ofFn v) (List.ofFn w) (by simp) (by simp)
    obtain ⟨y, rfl⟩ := exists_eq_ofFn hy
    exact ⟨y, hok⟩
  choose a d hsplit using hsplit
  choose y hjoin using hjoin
  exact ⟨a, d, y, hsplit, hjoin⟩

lemma RoundTrip.exists_ofFn {A D L : Nat → Nat} (h : RoundTrip A D L split join) (hn : 1 ≤ n) :
    ∃ (a : (Fin n → K) → Fin (A n) → K) (d : (Fin n → K) → Fin (D n) → K)
      (y : (Fin (A n) → K) → (Fin (D n) → K) → Fin (L n) → K),
      (∀ v, split (List.ofFn v) = .ok (List.ofFn (a v), List.ofFn (d v))) ∧
      (∀ v w, join (List.ofFn v) (List.ofFn w) = .ok (List.ofFn (y v w))) ∧
      ∀ v i, y (a v) (d v) (i.castLE (h.le_joined n hn)) = v i := by
  obtain ⟨a, d, y, hsplit, hjoin⟩ := h.fits.exists_ofFn hn
  refine ⟨a, d, y, hsplit, hjoin, fun v i => ?_⟩
  have hpre : List.ofFn v <+: List.ofFn (y (a v) (d v)) :=
    h.prefix_of_join _ (by simpa using (by omega : n ≠ 0)) _ _ (hsplit v) _ (hjoin _ _)
  have hi := hpre.getElem (i := i) (by simp)
  rw [List.getElem_ofFn, List.getElem_ofFn] at hi
  exact hi.symm

/-- The row passes of the two directions, one after the other.  Only a table without rows may
come back with another number of columns. -/
lemma exists_inverseRows_forwardRows {p q n cols : Nat} {a : (Fin cols → K) → Fin p → K}
    {d : (Fin cols → K) → Fin q → K} {y : (Fin p → K) → (Fin q → K) → Fin n → K}
    (hsplit : ∀ v, split (List.ofFn v) = .ok (List.ofFn (a v), List.ofFn (d v)))
    (hjoin : ∀ v w, join (List.ofFn v) (List.ofFn w) = .ok (List.ofFn (y v w)))
    (f : Fin rows → Fin cols → K) :
    ∃ lo hi back, forwardRows split (.ofFn rows cols f) = .ok (lo, hi) ∧
      inverseRows join lo hi = .ok back ∧
      (back = .ofFn rows n (fun r => y (a (f r)) (d (f r))) ∨ rows = 0 ∧ back.rows = 0) := by
  rcases Nat.eq_zero_or_pos rows with hzero | hpos
  · exact ⟨.empty, .empty, .empty, forwardRows_of_rows_eq_zero hzero,
      inverseRows_of_rows_eq_zero rfl rfl, Or.inr ⟨hzero, rfl⟩⟩
  · exact ⟨_, _, _, forwardRows_ofFn hpos fun r => hsplit (f r),
      inverseRows_ofFn hpos fun r => hjoin (a (f r)) (d (f r)), Or.inl rfl⟩

/-- **The round trip of a matrix.**  The inverse transform of the forward transform of a
matrix with a row and a column gives back a matrix of the sizes that the kernel joins, with
the original in its upper left corner. -/
theorem inverse_forward_extends {A D L : Nat → Nat} (h : RoundTrip A D L split join) (m : Matrix K)
    (hrows : 1 ≤ m.rows) (hcols : 1 ≤ m.cols) :
    ∃ bands y, forward split m = .ok bands ∧ inverse join bands = .ok y ∧
      y.rows = L m.rows ∧ y.cols = L m.cols ∧ y.Extends m := by
  obtain ⟨aR, dR, yR, hsplitR, hjoinR, hbackR⟩ := h.exists_ofFn hrows
  obtain ⟨aC, dC, yC, hsplitC, hjoinC, hbackC⟩ := h.exists_ofFn hcols
  -- the two halves of the columns, which the row passes take apart and put together again
  let approx : Fin (A m.rows) → Fin m.cols → K := fun r c => aR (fun r => m.get r c) r
  let detail : Fin (D m.rows) → Fin m.cols → K := fun r c => dR (fun r => m.get r c) r
  obtain ⟨ll, hl, backA, hforwardA, hinverseA, hbackA⟩ :=
    exists_inverseRows_forwardRows hsplitC hjoinC approx
  obtain ⟨lh, hh, backD, hforwardD, hinverseD, hbackD⟩ :=
    exists_inverseRows_forwardRows hsplitC hjoinC detail
  have happrox : ¬(A m.rows = 0 ∧ backA.rows = 0) := by
    have := h.one_le_approx m.rows hrows
    omega
  rw [hbackA.resolve_right happrox] at hinverseA
  have hforward : forward split m = .ok ⟨ll, lh, hl, hh⟩ := by
    rw [← m.ofFn_get]
    exact forward_ofFn hrows hcols (fun c => hsplitR fun r => m.get r c) hforwardA hforwardD
  have hwide : 0 < L m.cols := Nat.lt_of_lt_of_le hcols (h.le_joined _ hcols)
  refine ⟨_, _, hforward, inverse_of_rows hwide hinverseA hinverseD hbackD fun c => hjoinR _ _,
    rfl, rfl, Matrix.extends_ofFn (h.le_joined _ hrows) (h.le_joined _ hcols) fun r c => ?_⟩
  -- a column of the original comes out of the row passes as the two halves it was split into
  simp only [hbackC]
  exact hbackR (fun r => m.get r c) r

/-- The kernel that cuts a list in the middle, and joins two lists and a zero.  A single row
has no detail down its columns, and every row and column comes back one sample longer. -/
theorem inverse_forward_extends_cut :
    let cut : List Nat → Except Error (List Nat × List Nat) := fun v =>
      .ok (v.take ((v.length + 1) / 2), v.drop ((v.length + 1) / 2))
    let paste : List Nat → List Nat → Except Error (List Nat) := fun a d => .ok (a ++ d ++ [0])
    let m : Matrix Nat := .ofFn 1 3 fun _ c => c + 5
    RoundTrip (fun n => (n + 1) / 2) (fun n => n / 2) (fun n => n + 1) cut paste ∧
      1 ≤ m.rows ∧ 1 ≤ m.cols ∧ ∃ bands y, forward cut m = .ok bands ∧
        inverse paste bands = .ok y ∧ y.rows = 2 ∧ y.cols = 4 ∧ y.Extends m := by
  intro cut paste m
  have h : RoundTrip (fun n => (n + 1) / 2) (fun n => n / 2) (fun n => n + 1) cut paste :=
    { split_ok := fun v _ => ⟨_, _, rfl, by simp; omega, by simp; omega⟩
      one_le_approx := fun n hn => by omega
      join_ok := fun n _ a d ha hd => ⟨_, rfl, by simp [ha, hd]; omega⟩
      le_joined := fun n _ => by omega
      prefix_of_join := by
        rintro v - a d hsplit y hjoin
        cases hsplit
        cases hjoin
        simp }
  exact ⟨h, by decide, by decide, inverse_forward_extends h m (by decide) (by decide)⟩

end Separable

end WaveletPrecision
