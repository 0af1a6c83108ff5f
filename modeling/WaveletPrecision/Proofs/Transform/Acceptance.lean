import WaveletPrecision.Proofs.Matrix.Joined
import WaveletPrecision.Proofs.Transform.Lengths

/-
Which bands a filter bank puts together.

The numbers of rows and of columns of four bands of one shape decide whether they are put together
and what the shape of the result is: nothing is left of them, or they are joined, or the kernel
refuses one of the two numbers (`FilterBank.Fate`, `FilterBank.fate_inverseMatrix`).  Bands of
several shapes are refused before the kernel is asked.

`Wavelet.inverseMatrix_outcome` is the account of all bands.  It is not the kernel alone that
decides, because bands without rows, and rows that are joined to nothing, are put together without
a question to it; `Wavelet.inverseMatrix_of_empty` has bands that the kernel would refuse.
-/
namespace WaveletPrecision

namespace FilterBank

/-! ### Numbers of rows and columns -/

section Counts

variable {K : Type} {mode : BoundaryMode} {taps rows cols n length : Nat}
  {result : Except Error (Matrix K)}

/-- The length of what so many coefficients of each band are joined to, or why they are refused. -/
def joinedLength (mode : BoundaryMode) (taps n : Nat) : Except Error Nat :=
  if n = 0 then .error .emptyInput
  else
    match reconstructionLength? mode taps n with
    | some length => .ok length
    | none => .error (.tooFewCoefficients n taps)

/-- So many coefficients of each band are joined. -/
def Joins (mode : BoundaryMode) (taps n : Nat) : Prop :=
  1 ≤ n ∧ (mode ≠ .periodization → taps ≤ 2 * n + 2)

/-- Bands of this shape leave no columns that could be joined: they have no rows, or their rows are
joined to nothing. -/
def LeavesNothing (mode : BoundaryMode) (taps rows cols : Nat) : Prop :=
  rows = 0 ∨ 1 ≤ cols ∧ mode ≠ .periodization ∧ taps = 2 * cols + 2

lemma joinedLength_eq_ok_iff :
    joinedLength mode taps n = .ok length
      ↔ Joins mode taps n ∧ reconstructionLength? mode taps n = some length := by
  rw [joinedLength, Joins, reconstructionLength?]
  by_cases hzero : n = 0
  · simp [hzero]
  · rw [if_neg hzero]
    by_cases hmode : mode = .periodization
    · simp [hmode, Nat.one_le_iff_ne_zero, hzero]
    · by_cases hfew : taps ≤ 2 * n + 2 <;> simp [hmode, hfew, Nat.one_le_iff_ne_zero, hzero]

lemma exists_joinedLength_iff :
    (∃ length, joinedLength mode taps n = .ok length) ↔ Joins mode taps n := by
  refine ⟨fun ⟨_, h⟩ => (joinedLength_eq_ok_iff.mp h).1, fun h => ?_⟩
  by_cases hmode : mode = .periodization
  · exact ⟨_, joinedLength_eq_ok_iff.mpr ⟨h, if_pos hmode⟩⟩
  · exact ⟨_, joinedLength_eq_ok_iff.mpr ⟨h, (if_neg hmode).trans (if_pos (h.2 hmode))⟩⟩

/-- The numbers that are refused, and why. -/
lemma joinedLength_eq_error {e : Error} (h : joinedLength mode taps n = .error e) :
    ¬Joins mode taps n ∧ (e = .emptyInput ∨ e = .tooFewCoefficients n taps) := by
  constructor
  · intro hjoins
    obtain ⟨length, hlength⟩ := exists_joinedLength_iff.mpr hjoins
    rw [hlength] at h
    cases h
  · rw [joinedLength] at h
    split at h
    · cases h
      exact .inl rfl
    · split at h
      · cases h
      · cases h
        exact .inr rfl

/-- Rows that the kernel joins leave no columns if it joins them to the empty list. -/
lemma leavesNothing_iff :
    LeavesNothing mode taps rows cols ↔ rows = 0 ∨ joinedLength mode taps cols = .ok 0 := by
  rw [LeavesNothing, joinedLength_eq_ok_iff, Joins, reconstructionLength?]
  refine or_congr_right ?_
  by_cases hmode : mode = .periodization
  · simp only [hmode, ne_eq, not_true_eq_false, false_and, and_false, if_true, Option.some.injEq,
      false_iff, not_and]
    omega
  · rw [if_neg hmode]
    simp only [hmode, ne_eq, not_false_eq_true, true_and, forall_const]
    split
    · rw [Option.some.injEq]
      omega
    · simp only [reduceCtorEq, and_false, iff_false]
      omega

/-- What becomes of bands of one shape: nothing is left of them, or they are put together, or the
kernel refuses their columns or their rows. -/
inductive Fate (mode : BoundaryMode) (taps rows cols : Nat) : Except Error (Matrix K) → Prop where
  | nothing {m : Matrix K} (h : LeavesNothing mode taps rows cols) (hshape : m.shape = [0, 0]) :
      Fate mode taps rows cols (.ok m)
  | joined {m : Matrix K} {height width : Nat} (h : ¬LeavesNothing mode taps rows cols)
      (hrows : joinedLength mode taps rows = .ok height)
      (hcols : joinedLength mode taps cols = .ok width) (hshape : m.shape = [height, width]) :
      Fate mode taps rows cols (.ok m)
  | refused {e : Error} {n : Nat} (h : ¬LeavesNothing mode taps rows cols)
      (hn : n = rows ∨ n = cols) (hrefused : joinedLength mode taps n = .error e) :
      Fate mode taps rows cols (.error e)

lemma Fate.exists_ok_iff (h : Fate mode taps rows cols result) :
    (∃ m, result = .ok m) ↔
      LeavesNothing mode taps rows cols ∨ Joins mode taps rows ∧ Joins mode taps cols := by
  cases h with
  | nothing hnothing _ => exact iff_of_true ⟨_, rfl⟩ (.inl hnothing)
  | joined _ hrows hcols _ =>
    exact iff_of_true ⟨_, rfl⟩
      (.inr ⟨(joinedLength_eq_ok_iff.mp hrows).1, (joinedLength_eq_ok_iff.mp hcols).1⟩)
  | refused hnothing hn hrefused =>
    refine iff_of_false (fun ⟨m, hm⟩ => by cases hm) (not_or.mpr ⟨hnothing, ?_⟩)
    rintro ⟨hrows, hcols⟩
    have hnot := (joinedLength_eq_error hrefused).1
    rcases hn with rfl | rfl
    · exact hnot hrows
    · exact hnot hcols

lemma Fate.shape_of_ok {m : Matrix K} (h : Fate mode taps rows cols (.ok m)) :
    (LeavesNothing mode taps rows cols → m.shape = [0, 0]) ∧
      (¬LeavesNothing mode taps rows cols → ∃ height width,
        reconstructionLength? mode taps rows = some height ∧
          reconstructionLength? mode taps cols = some width ∧ m.shape = [height, width]) := by
  cases h with
  | nothing hnothing hshape => exact ⟨fun _ => hshape, absurd hnothing⟩
  | joined hnothing hrows hcols hshape =>
    exact ⟨fun h => absurd h hnothing, fun _ => ⟨_, _, (joinedLength_eq_ok_iff.mp hrows).2,
      (joinedLength_eq_ok_iff.mp hcols).2, hshape⟩⟩

lemma Fate.cause_of_error {e : Error}
    (h : Fate mode taps rows cols (.error e : Except Error (Matrix K))) :
    e = .emptyInput ∨ ∃ n, e = .tooFewCoefficients n taps := by
  cases h with
  | refused _ _ hrefused =>
    exact (joinedLength_eq_error hrefused).2.imp_right fun h => ⟨_, h⟩

end Counts

/-! ### The inverse transform of a bank -/

section Bank

variable {K : Type} [Zero K] [Add K] [Mul K] {bank : FilterBank K} {mode : BoundaryMode}
  {bands : Bands K} {rows cols : Nat}

lemma gauged_inverse (mode : BoundaryMode) (hbank : bank.high.length = bank.low.length) :
    Separable.Gauged (joinedLength mode bank.size) (bank.inverse mode) := by
  intro a d hlength
  have hsame : ¬a.length ≠ d.length := not_not.mpr hlength
  by_cases hzero : a.length = 0
  · have hempty : a.isEmpty := by simpa using hzero
    rw [joinedLength, if_pos hzero, inverse, if_neg hsame, if_pos hempty]
    rfl
  have hempty : ¬a.isEmpty := by simpa using hzero
  cases hsome : reconstructionLength? mode bank.size a.length with
  | none =>
    rw [joinedLength, if_neg hzero, inverse, if_neg hsame, if_neg hempty, hsome]
    rfl
  | some length =>
    have hjoined : ∃ x, bank.inverse mode a d = .ok x := by
      rw [inverse, if_neg hsame, if_neg hempty, hsome]
      simp only
      split <;> exact ⟨_, rfl⟩
    obtain ⟨x, hx⟩ := hjoined
    rw [hx, joinedLength, if_neg hzero, length_inverse hbank hx]
    rfl

lemma exists_inverse_iff (hbank : bank.high.length = bank.low.length) {a d : List K}
    (hlength : a.length = d.length) :
    (∃ x, bank.inverse mode a d = .ok x) ↔ Joins mode bank.size a.length := by
  rw [← exists_joinedLength_iff, ← gauged_inverse mode hbank a d hlength]
  simp only [map_eq_ok_iff]
  exact ⟨fun ⟨x, hx⟩ => ⟨_, x, hx, rfl⟩, fun ⟨_, x, hx, _⟩ => ⟨x, hx⟩⟩

lemma inverseMatrix_of_uniform (h : bands.Uniform rows cols) :
    bank.inverseMatrix mode bands = Separable.inverse (bank.inverse mode) bands := by
  rw [inverseMatrix]
  simp [h.ll, h.lh, h.hl, h.hh]

/-- Four bands that do not share one shape are refused. -/
lemma exists_uniform_or_shapesDiffer (bank : FilterBank K) (mode : BoundaryMode) (bands : Bands K) :
    (∃ rows cols, bands.Uniform rows cols) ∨
      ∃ left right, bank.inverseMatrix mode bands = .error (.shapesDiffer left right) := by
  rw [inverseMatrix]
  cases hfind : [bands.lh, bands.hl, bands.hh].find? (fun band => band.shape != bands.ll.shape) with
  | some band => exact .inr ⟨_, _, rfl⟩
  | none =>
    simp only [List.find?_eq_none, List.mem_cons, List.not_mem_nil, or_false, bne_iff_ne, ne_eq,
      not_not, forall_eq_or_imp, forall_eq] at hfind
    exact .inl ⟨_, _, rfl, hfind.1, hfind.2.1, hfind.2.2⟩

/-- **Bands of one shape have one of the three fates.** -/
lemma fate_inverseMatrix (hbank : bank.high.length = bank.low.length)
    (h : bands.Uniform rows cols) :
    Fate mode bank.size rows cols (bank.inverseMatrix mode bands) := by
  have hshape := (gauged_inverse mode hbank).shape_inverse h
  rw [← inverseMatrix_of_uniform h] at hshape
  by_cases hnothing : LeavesNothing mode bank.size rows cols
  · have hzero : (bank.inverseMatrix mode bands).map Matrix.shape = .ok [0, 0] := by
      rw [hshape]
      rcases leavesNothing_iff.mp hnothing with hrows | hcols
      · exact if_pos hrows
      · rw [hcols]
        exact ite_self _
    obtain ⟨m, hm, hmShape⟩ := map_eq_ok_iff.mp hzero
    rw [hm]
    exact .nothing hnothing hmShape
  obtain ⟨hrows, hwide⟩ := not_or.mp (leavesNothing_iff.not.mp hnothing)
  rw [if_neg hrows] at hshape
  cases hcols : joinedLength mode bank.size cols with
  | error e =>
    rw [hcols] at hshape
    rw [map_eq_error_iff.mp hshape]
    exact .refused hnothing (.inr rfl) hcols
  | ok width =>
    have hne : width ≠ 0 := by
      rintro rfl
      exact hwide hcols
    rw [hcols] at hshape
    change _ = if width = 0 then _ else _ at hshape
    rw [if_neg hne] at hshape
    cases hheight : joinedLength mode bank.size rows with
    | error e =>
      rw [hheight] at hshape
      rw [map_eq_error_iff.mp hshape]
      exact .refused hnothing (.inl rfl) hheight
    | ok height =>
      rw [hheight] at hshape
      obtain ⟨m, hm, hmShape⟩ := map_eq_ok_iff.mp hshape
      rw [hm]
      exact .joined hnothing hheight hcols hmShape

end Bank

end FilterBank

/-- **Which bands a wavelet puts together.**  Four bands are put together if and only if they share
one shape, and either the kernel joins lists as long as its rows and lists as long as its columns,
or there is nothing to join.  If there is something to join, the two numbers of coefficients give
the shape of the result; otherwise the result is empty, also where the kernel would refuse the rows
or the columns if it were asked.  All other bands are refused, because they have several shapes or
as the kernel refuses lists. -/
theorem Wavelet.inverseMatrix_outcome (T : Type) [Sample T] (w : Wavelet) (mode : BoundaryMode)
    (bands : Bands T) :
    ((∃ m, (w.bankIn T).inverseMatrix mode bands = .ok m) ↔
      ∃ rows cols, bands.Uniform rows cols ∧
        (FilterBank.LeavesNothing mode w.filterSize rows cols ∨
          FilterBank.Joins mode w.filterSize rows ∧ FilterBank.Joins mode w.filterSize cols)) ∧
    (∀ rows cols m, bands.Uniform rows cols → (w.bankIn T).inverseMatrix mode bands = .ok m →
      (FilterBank.LeavesNothing mode w.filterSize rows cols → m.shape = [0, 0]) ∧
      (¬FilterBank.LeavesNothing mode w.filterSize rows cols → ∃ height width,
        reconstructionLength? mode w.filterSize rows = some height ∧
          reconstructionLength? mode w.filterSize cols = some width ∧
          m.shape = [height, width])) ∧
    (∀ e, (w.bankIn T).inverseMatrix mode bands = .error e →
      (∃ left right, e = .shapesDiffer left right) ∨ e = .emptyInput ∨
        ∃ n, e = .tooFewCoefficients n w.filterSize) ∧
    ∀ a d, a.length = d.length → ((∃ x, (w.bankIn T).inverse mode a d = .ok x) ↔
      FilterBank.Joins mode w.filterSize a.length) := by
  have hbank : (w.bankIn T).high.length = (w.bankIn T).low.length := by
    rw [w.size_bankIn T, w.length_high_bankIn T]
  have hfate : ∀ rows cols, bands.Uniform rows cols → FilterBank.Fate mode w.filterSize rows cols
      ((w.bankIn T).inverseMatrix mode bands) := by
    intro rows cols h
    rw [← w.size_bankIn T]
    exact FilterBank.fate_inverseMatrix hbank h
  have hshapes := FilterBank.exists_uniform_or_shapesDiffer (w.bankIn T) mode bands
  refine ⟨⟨fun hok => ?_, fun ⟨rows, cols, h, hjoins⟩ => ?_⟩, fun rows cols m h hm => ?_,
    fun e he => ?_, fun a d hlength => ?_⟩
  · obtain ⟨rows, cols, h⟩ | ⟨left, right, hrefused⟩ := hshapes
    · exact ⟨rows, cols, h, (hfate rows cols h).exists_ok_iff.mp hok⟩
    · obtain ⟨m, hm⟩ := hok
      rw [hrefused] at hm
      cases hm
  · exact (hfate rows cols h).exists_ok_iff.mpr hjoins
  · have hm' := hfate rows cols h
    rw [hm] at hm'
    exact hm'.shape_of_ok
  · obtain ⟨rows, cols, h⟩ | ⟨left, right, hrefused⟩ := hshapes
    · have he' := hfate rows cols h
      rw [he] at he'
      exact .inr he'.cause_of_error
    · rw [hrefused] at he
      cases he
      exact .inl ⟨left, right, rfl⟩
  · rw [← w.size_bankIn T]
    exact FilterBank.exists_inverse_iff hbank hlength

/-- Single coefficients of the Haar wavelet are put together to a square of four values.  Bands of
one row and two columns are put together too by a filter of six taps, to nothing, although it
refuses columns as short as these. -/
theorem Wavelet.inverseMatrix_outcome_single_row :
    let bands : Nat → Bands Binary64 := fun cols =>
      ⟨.ofFn 1 cols fun _ _ => 0, .ofFn 1 cols fun _ _ => 0, .ofFn 1 cols fun _ _ => 0,
        .ofFn 1 cols fun _ _ => 0⟩
    let haar : Wavelet := ⟨"haar", .haar⟩
    let db3 : Wavelet := ⟨"db3", .daubechies3⟩
    (∃ m, (haar.bankIn Binary64).inverseMatrix .symmetric (bands 1) = .ok m ∧ m.shape = [2, 2]) ∧
      (∃ m, (db3.bankIn Binary64).inverseMatrix .symmetric (bands 2) = .ok m ∧ m.shape = [0, 0]) ∧
      ¬FilterBank.Joins .symmetric db3.filterSize 1 := by
  intro bands haar db3
  have huniform : ∀ cols, (bands cols).Uniform 1 cols := fun _ => ⟨rfl, rfl, rfl, rfl⟩
  have hhaar : haar.filterSize = 2 := by decide
  have hdb3 : db3.filterSize = 6 := by decide
  refine ⟨?_, ?_, ?_⟩
  · obtain ⟨hok, hshape, -⟩ := inverseMatrix_outcome Binary64 haar .symmetric (bands 1)
    rw [hhaar] at hok hshape
    have hjoins : FilterBank.Joins .symmetric 2 1 := ⟨by decide, by decide⟩
    obtain ⟨m, hm⟩ := hok.mpr ⟨1, 1, huniform 1, .inr ⟨hjoins, hjoins⟩⟩
    have hsome : ¬FilterBank.LeavesNothing .symmetric 2 1 1 := by
      rintro (h | ⟨-, -, h⟩)
      · omega
      · omega
    obtain ⟨height, width, hheight, hwidth, hm'⟩ := (hshape 1 1 m (huniform 1) hm).2 hsome
    cases hheight
    cases hwidth
    exact ⟨m, hm, hm'⟩
  · obtain ⟨hok, hshape, -⟩ := inverseMatrix_outcome Binary64 db3 .symmetric (bands 2)
    rw [hdb3] at hok hshape
    have hnothing : FilterBank.LeavesNothing .symmetric 6 1 2 := .inr ⟨by decide, by decide, rfl⟩
    obtain ⟨m, hm⟩ := hok.mpr ⟨1, 2, huniform 2, .inl hnothing⟩
    exact ⟨m, hm, (hshape 1 2 m (huniform 2) hm).1 hnothing⟩
  · rw [hdb3]
    exact fun h => absurd (h.2 (by decide)) (by decide)

/-- Four bands without rows are put together, but they have no row and no column that the kernel
would join: it refuses empty lists, and the forward transform refuses an empty matrix. -/
theorem Wavelet.inverseMatrix_of_empty :
    let bank := (Wavelet.bankIn Binary64 ⟨"haar", .haar⟩)
    let bands : Bands Binary64 := ⟨.empty, .empty, .empty, .empty⟩
    ¬((∃ m, bank.inverseMatrix .symmetric bands = .ok m) ↔ ∃ rows cols, bands.Uniform rows cols ∧
        FilterBank.Joins .symmetric bank.size rows ∧ FilterBank.Joins .symmetric bank.size cols) ∧
      bank.inverse .symmetric [] [] = .error .emptyInput ∧
      bank.forwardMatrix .symmetric .empty = .error .emptyInput := by
  intro bank bands
  have huniform : bands.Uniform 0 0 := ⟨rfl, rfl, rfl, rfl⟩
  have hshape : (bank.inverseMatrix .symmetric bands).map Matrix.shape = .ok [0, 0] := by
    rw [FilterBank.inverseMatrix_of_uniform huniform]
    exact Separable.inverse_of_rows_eq_zero huniform
  obtain ⟨m, hm, -⟩ := map_eq_ok_iff.mp hshape
  refine ⟨fun h => ?_, rfl, rfl⟩
  obtain ⟨rows, cols, hrows, hjoins, -⟩ := h.mp ⟨m, hm⟩
  have hshape : [0, 0] = [rows, cols] := hrows.ll
  cases hshape
  exact absurd hjoins.1 (by decide)

end WaveletPrecision
