import WaveletPrecision.Proofs.Matrix.Shapes

/-
The shape that bands of one shape are put together to.

Whether a kernel joins two lists of one length is decided by that length, and so is the length
of the result (`Separable.Gauged`).  The inverse transform asks its kernel once for every row and
once for every column of what the rows have left, so with bands of one shape it asks about two
lengths at most, and the shape of the result is known from the two answers
(`Separable.Gauged.shape_inverse`).  Where there is no row, or where the rows become empty, it does
not ask about the columns at all.
-/
namespace WaveletPrecision

namespace Separable

variable {K : Type} {L : Nat → Except Error Nat} {join : List K → List K → Except Error (List K)}
  {rows cols n length : Nat} {bands : Bands K}

/-- What a joining kernel does with two lists of one length: there is a list of `L n` elements, or
the refusal that `L n` is. -/
def Gauged (L : Nat → Except Error Nat) (join : List K → List K → Except Error (List K)) : Prop :=
  ∀ a d : List K, a.length = d.length → (join a d).map List.length = L a.length

/-- The lists of a length that is joined, as functions on positions. -/
lemma Gauged.exists_ofFn (h : Gauged L join) (hn : L n = .ok length) :
    ∃ y : (Fin n → K) → (Fin n → K) → Fin length → K,
      ∀ v w, join (List.ofFn v) (List.ofFn w) = .ok (List.ofFn (y v w)) := by
  have hjoin : ∀ v w : Fin n → K, ∃ y : Fin length → K,
      join (List.ofFn v) (List.ofFn w) = .ok (List.ofFn y) := by
    intro v w
    have hlength := h (List.ofFn v) (List.ofFn w) (by simp)
    rw [List.length_ofFn, hn, map_eq_ok_iff] at hlength
    obtain ⟨x, hx, hlength⟩ := hlength
    obtain ⟨y, rfl⟩ := exists_eq_ofFn hlength
    exact ⟨y, hx⟩
  choose y hy using hjoin
  exact ⟨y, hy⟩

lemma Gauged.join_eq_error (h : Gauged L join) {e : Error} (hn : L n = .error e) (v w : Fin n → K) :
    join (List.ofFn v) (List.ofFn w) = .error e := by
  have hlength := h (List.ofFn v) (List.ofFn w) (by simp)
  rw [List.length_ofFn, hn] at hlength
  exact map_eq_error_iff.mp hlength

lemma ofFnM_eq_error {B : Type} {act : Fin n → Except Error B} {e : Error} (hn : 0 < n)
    (h : act ⟨0, hn⟩ = .error e) : List.ofFnM act = .error e := by
  obtain ⟨n, rfl⟩ := Nat.exists_eq_succ_of_ne_zero hn.ne'
  rw [List.ofFnM_succ]
  have hfirst : act 0 = .error e := h
  rw [hfirst]
  rfl

lemma Gauged.inverseRows_eq_error (h : Gauged L join) {e : Error} (hcols : L cols = .error e)
    (hrows : 0 < rows) (a d : Fin rows → Fin cols → K) :
    inverseRows join (.ofFn rows cols a) (.ofFn rows cols d) = .error e := by
  have hrowsEq : (Matrix.ofFn rows cols a).rows = (Matrix.ofFn rows cols d).rows := rfl
  have hrefused : List.ofFnM (fun r => join ((Matrix.ofFn rows cols a).row r)
      ((Matrix.ofFn rows cols d).row (r.cast hrowsEq))) = .error e :=
    ofFnM_eq_error hrows ((congrArg₂ join (Matrix.row_ofFn a _) (Matrix.row_ofFn d _)).trans
      (h.join_eq_error hcols _ _))
  rw [inverseRows, dif_pos hrowsEq, hrefused]
  rfl

/-! ### Four bands of one shape -/

lemma inverse_of_rows_eq_zero (h : bands.Uniform 0 cols) :
    (inverse join bands).map Matrix.shape = .ok [0, 0] := by
  have hnone : ∀ m : Matrix K, m.shape = [0, cols] → m.rows = 0 := by
    intro m hm
    simpa [Matrix.shape] using congrArg List.head? hm
  rw [inverse, inverseRows_of_rows_eq_zero (hnone _ h.ll) (hnone _ h.hl),
    inverseRows_of_rows_eq_zero (hnone _ h.lh) (hnone _ h.hh)]
  rfl

lemma Gauged.inverse_eq_error (h : Gauged L join) (hbands : bands.Uniform rows cols)
    (hrows : 0 < rows) {e : Error} (hcols : L cols = .error e) :
    inverse join bands = .error e := by
  obtain ⟨ll, hll⟩ := Matrix.exists_eq_ofFn hbands.ll
  obtain ⟨hl, hhl⟩ := Matrix.exists_eq_ofFn hbands.hl
  rw [inverse, hll, hhl, h.inverseRows_eq_error hcols hrows]
  rfl

/-- If the kernel joins rows of this length, the columns that they leave are joined. -/
lemma Gauged.shape_inverse_of_width (h : Gauged L join) (hbands : bands.Uniform rows cols)
    (hrows : 0 < rows) {width : Nat} (hcols : L cols = .ok width) :
    (inverse join bands).map Matrix.shape =
      if width = 0 then .ok [0, 0]
      else do
        let height ← L rows
        return [height, width] := by
  obtain ⟨ll, hll⟩ := Matrix.exists_eq_ofFn hbands.ll
  obtain ⟨hl, hhl⟩ := Matrix.exists_eq_ofFn hbands.hl
  obtain ⟨lh, hlh⟩ := Matrix.exists_eq_ofFn hbands.lh
  obtain ⟨hh, hhh⟩ := Matrix.exists_eq_ofFn hbands.hh
  obtain ⟨y, hy⟩ := h.exists_ofFn hcols
  have happrox : inverseRows join bands.ll bands.hl
      = .ok (.ofFn rows width fun r => y (ll r) (hl r)) := by
    rw [hll, hhl]
    exact inverseRows_ofFn hrows fun r => hy _ _
  have hdetail : inverseRows join bands.lh bands.hh
      = .ok (.ofFn rows width fun r => y (lh r) (hh r)) := by
    rw [hlh, hhh]
    exact inverseRows_ofFn hrows fun r => hy _ _
  have hcolumns := inverse_eq_columns happrox hdetail (.inl rfl)
  rcases Nat.eq_zero_or_pos width with hempty | hwide
  · -- no column is left, so the kernel is not asked for their length
    subst hempty
    rw [hcolumns, List.ofFnM_zero]
    rfl
  · rw [if_neg hwide.ne']
    cases hheight : L rows with
    | error e =>
      rw [hcolumns, ofFnM_eq_error hwide (h.join_eq_error hheight _ _)]
      rfl
    | ok height =>
      obtain ⟨z, hz⟩ := h.exists_ofFn hheight
      rw [inverse_of_rows hwide happrox hdetail (.inl rfl) fun c => hz _ _]
      rfl

/-- **The shape that bands of one shape are put together to.**  The kernel is asked for the length
of the rows if there are rows, and for the length of the columns if the joined rows have left any
columns. -/
lemma Gauged.shape_inverse (h : Gauged L join) (hbands : bands.Uniform rows cols) :
    (inverse join bands).map Matrix.shape =
      if rows = 0 then .ok [0, 0]
      else do
        let width ← L cols
        if width = 0 then .ok [0, 0]
        else do
          let height ← L rows
          return [height, width] := by
  rcases Nat.eq_zero_or_pos rows with hzero | hrows
  · subst hzero
    rw [if_pos rfl]
    exact inverse_of_rows_eq_zero hbands
  rw [if_neg hrows.ne']
  cases hcols : L cols with
  | error e =>
    rw [h.inverse_eq_error hbands hrows hcols]
    rfl
  | ok width => exact h.shape_inverse_of_width hbands hrows hcols

end Separable

end WaveletPrecision
