import Mathlib.Data.List.OfFn
import WaveletPrecision.Matrix.Bands

/-
Assembling a matrix from its rows and from its columns.

A matrix is the table of a function of the row and the column, `Matrix.ofFn`, and the
rows, columns and lists of them that it is read by are lists of the values of that
function.  This file says so for each of the ways to read and to build a matrix, so that
what is said about two-dimensional transforms can be said about functions on `Fin`, with
no length left to compare.

The main results are

* `Matrix.ofFn_get`: every matrix is the table of its own entries;
* `Matrix.ofRows_ofFn` and `Matrix.ofColumns_ofFn`: lists of one length, at least one of
  them, are assembled into the table of their elements;
* `Matrix.exists_ofRows` and `Matrix.exists_ofColumns`: lists of one length are assembled, and the
  entries are the elements of the lists, also where there is no list or where the lists are empty;
* `Matrix.exists_refusal_of_unequal`: any other lists are refused, for the first of them that is not
  as long as those before it.
-/
namespace WaveletPrecision

namespace Matrix

variable {K : Type} {rows cols : Nat}

lemma ext_data {m m' : Matrix K} (hrows : m.rows = m'.rows) (hcols : m.cols = m'.cols)
    (hdata : m.data = m'.data) : m = m' := by
  obtain ⟨rows, cols, data, size⟩ := m
  obtain ⟨rows', cols', data', size'⟩ := m'
  simp only at hrows hcols hdata
  subst hrows hcols hdata
  rfl

lemma ofFn_get (m : Matrix K) : ofFn m.rows m.cols m.get = m := by
  refine ext_data rfl rfl ?_
  apply Array.ext
  · simp [ofFn, m.size_eq]
  · intro i _ hi
    have hcell : i / m.cols * m.cols + i % m.cols = i := Nat.div_add_mod' i m.cols
    simp [ofFn, get, hcell]

lemma ofFn_congr {rows' cols' : Nat} {f : Fin rows → Fin cols → K} {g : Fin rows' → Fin cols' → K}
    (hrows : rows' = rows) (hcols : cols' = cols)
    (h : ∀ r c, g (r.cast hrows.symm) (c.cast hcols.symm) = f r c) :
    ofFn rows' cols' g = ofFn rows cols f := by
  subst hrows hcols
  exact congrArg (ofFn _ _) (funext fun r => funext fun c => h r c)

/-! ### Reading a table -/

lemma shape_ofFn (f : Fin rows → Fin cols → K) : (ofFn rows cols f).shape = [rows, cols] := rfl

@[simp] lemma cols_ofFn (f : Fin rows → Fin cols → K) : (ofFn rows cols f).cols = cols := rfl

@[simp] lemma row_ofFn (f : Fin rows → Fin cols → K) (r : Fin rows) :
    (ofFn rows cols f).row r = List.ofFn (f r) :=
  congrArg List.ofFn (funext fun c => get_ofFn f r c)

@[simp] lemma column_ofFn (f : Fin rows → Fin cols → K) (c : Fin cols) :
    (ofFn rows cols f).column c = List.ofFn fun r => f r c :=
  congrArg List.ofFn (funext fun r => get_ofFn f r c)

@[simp] lemma columnList_ofFn (f : Fin rows → Fin cols → K) :
    (ofFn rows cols f).columnList = List.ofFn fun c => List.ofFn fun r => f r c :=
  congrArg List.ofFn (funext fun c => column_ofFn f c)

/-! ### Assembling a table -/

lemma head?_ofFn {A : Type} {n : Nat} (hn : 0 < n) (f : Fin n → A) :
    (List.ofFn f).head? = some (f ⟨0, hn⟩) := by
  obtain ⟨n, rfl⟩ := Nat.exists_eq_succ_of_ne_zero hn.ne'
  simp [List.ofFn_succ]

lemma find?_length_ne_ofFn {n : Nat} (f : Fin n → Fin cols → K) :
    (List.ofFn fun i => List.ofFn (f i)).find? (fun xs => xs.length != cols) = none := by
  rw [List.find?_eq_none]
  intro xs hxs
  obtain ⟨i, rfl⟩ := List.mem_ofFn.1 hxs
  simp

/-- The elements of a table are those of its rows, one row after the other. -/
lemma flatten_ofFn (f : Fin rows → Fin cols → K) :
    (List.ofFn fun r => List.ofFn (f r)).flatten = (ofFn rows cols f).data.toList := by
  rw [ofFn, Array.toList_ofFn, List.ofFn_mul]
  refine congrArg List.flatten (congrArg List.ofFn (funext fun r => congrArg List.ofFn ?_))
  funext c
  have hcols : 0 < cols := Nat.lt_of_le_of_lt (Nat.zero_le _) c.isLt
  have hr : (r * cols + c.val) / cols = r := by
    rw [Nat.add_comm, Nat.add_mul_div_right _ _ hcols, Nat.div_eq_of_lt c.isLt, Nat.zero_add]
  have hc : (r * cols + c.val) % cols = c := by
    rw [Nat.add_comm, Nat.add_mul_mod_self_right, Nat.mod_eq_of_lt c.isLt]
  simp [hr, hc]

lemma ofRows_ofFn (hrows : 0 < rows) (f : Fin rows → Fin cols → K) :
    ofRows (List.ofFn fun r => List.ofFn (f r)) = .ok (ofFn rows cols f) := by
  have hcols : ((List.ofFn fun r => List.ofFn (f r)).head?.map List.length).getD 0 = cols := by
    simp [head?_ofFn hrows]
  dsimp only [ofRows]
  split
  · rename_i bad hbad
    rw [hcols, find?_length_ne_ofFn] at hbad
    exact absurd hbad (by simp)
  · refine congrArg Except.ok (ext_data ?_ hcols ?_)
    · simp [ofFn]
    · simp [flatten_ofFn]

lemma ofColumns_ofFn (hcols : 0 < cols) (f : Fin rows → Fin cols → K) :
    ofColumns (List.ofFn fun c => List.ofFn fun r => f r c) = .ok (ofFn rows cols f) := by
  have hrows : ((List.ofFn fun c => List.ofFn fun r => f r c).head?.map List.length).getD 0
      = rows := by
    simp [head?_ofFn hcols]
  dsimp only [ofColumns]
  split
  · rename_i bad hbad
    rw [hrows, find?_length_ne_ofFn] at hbad
    exact absurd hbad (by simp)
  · refine congrArg Except.ok (ofFn_congr hrows (by simp) fun r c => ?_)
    simp

/-- The matrix without rows, which has no columns either when it is assembled from them. -/
def empty : Matrix K := ⟨0, 0, #[], rfl⟩

lemma ofRows_rowList (m : Matrix K) (hrows : 0 < m.rows) : ofRows m.rowList = .ok m :=
  (ofRows_ofFn hrows m.get).trans (congrArg Except.ok m.ofFn_get)

lemma ofColumns_columnList (m : Matrix K) (hcols : 0 < m.cols) : ofColumns m.columnList = .ok m :=
  (ofColumns_ofFn hcols m.get).trans (congrArg Except.ok m.ofFn_get)

/-! ### Lists of one length -/

section Lists

variable {lists : List (List K)} {n : Nat}

/-- Lists of one length are the rows of a table, and their elements are its entries. -/
lemma exists_eq_ofFn_ofFn (h : ∀ l ∈ lists, l.length = n) :
    ∃ f : Fin lists.length → Fin n → K, lists = List.ofFn (fun i => List.ofFn (f i)) ∧
      ∀ (i : Fin lists.length) (j : Fin n),
        (lists[i.val]?.bind fun l => l[j.val]?) = some (f i j) := by
  refine ⟨fun i j => (lists.get i).get (j.cast (h _ (List.get_mem lists i)).symm), ?_, ?_⟩
  · refine List.ext_getElem (by simp) fun i hi _ => ?_
    refine List.ext_getElem (by simp [h _ (List.getElem_mem hi)]) fun j _ _ => ?_
    simp
  · intro i j
    have hj : j.val < lists[i.val].length := by
      rw [h _ (List.getElem_mem i.isLt)]
      exact j.isLt
    simp [hj]

/-- **Rows of one length** are assembled, and the entries are their elements. -/
lemma exists_ofRows (h : ∀ row ∈ lists, row.length = n) :
    ∃ m, ofRows lists = .ok m ∧ m.shape = [lists.length, if lists.isEmpty then 0 else n] ∧
      ∀ (r : Fin m.rows) (c : Fin m.cols),
        (lists[r.val]?.bind fun row => row[c.val]?) = some (m.get r c) := by
  by_cases hempty : lists = []
  · subst hempty
    exact ⟨empty, rfl, rfl, fun r => r.elim0⟩
  · obtain ⟨f, hf, hentry⟩ := exists_eq_ofFn_ofFn h
    have hok := ofRows_ofFn (List.length_pos_iff.mpr hempty) f
    rw [← hf] at hok
    refine ⟨_, hok, by simp [hempty, shape_ofFn], fun r c => ?_⟩
    exact (hentry r c).trans (congrArg some (get_ofFn f r c).symm)

/-- **Columns of one length** are assembled, and the entries are their elements. -/
lemma exists_ofColumns (h : ∀ column ∈ lists, column.length = n) :
    ∃ m, ofColumns lists = .ok m ∧ m.shape = [if lists.isEmpty then 0 else n, lists.length] ∧
      ∀ (r : Fin m.rows) (c : Fin m.cols),
        (lists[c.val]?.bind fun column => column[r.val]?) = some (m.get r c) := by
  by_cases hempty : lists = []
  · subst hempty
    exact ⟨_, rfl, rfl, fun r => r.elim0⟩
  · obtain ⟨f, hf, hentry⟩ := exists_eq_ofFn_ofFn h
    have hok := ofColumns_ofFn (List.length_pos_iff.mpr hempty) fun r c => f c r
    rw [← hf] at hok
    refine ⟨_, hok, by simp [hempty, shape_ofFn], fun r c => ?_⟩
    exact (hentry c r).trans (congrArg some (get_ofFn (fun r c => f c r) r c).symm)

/-! ### Lists of unequal lengths -/

/-- The length of the first list, which the other lists are asked to have. -/
def firstLength (lists : List (List K)) : Nat := (lists.head?.map List.length).getD 0

/-- The first list that is not as long as the lists before it has `right` elements, and they have
`left`. -/
def FirstUnequal (lists : List (List K)) (left right : Nat) : Prop :=
  ∃ before other after, lists = before ++ other :: after ∧ before ≠ [] ∧
    (∀ l ∈ before, l.length = left) ∧ other.length = right ∧ right ≠ left

lemma length_eq_firstLength
    (h : lists.find? (fun l => l.length != firstLength lists) = none) :
    ∀ l ∈ lists, l.length = firstLength lists := by
  intro l hl
  simpa using List.find?_eq_none.mp h l hl

/-- Among lists of unequal lengths there is one that is not as long as the first. -/
lemma exists_find?_of_unequal (h : ∃ l ∈ lists, ∃ l' ∈ lists, l.length ≠ l'.length) :
    ∃ bad, lists.find? (fun l => l.length != firstLength lists) = some bad := by
  obtain ⟨l, hl, l', hl', hne⟩ := h
  cases hfind : lists.find? (fun l => l.length != firstLength lists) with
  | none =>
    have hsame := length_eq_firstLength hfind
    exact absurd ((hsame l hl).trans (hsame l' hl').symm) hne
  | some bad => exact ⟨bad, rfl⟩

lemma firstUnequal_of_find? {bad : List K}
    (h : lists.find? (fun l => l.length != firstLength lists) = some bad) :
    FirstUnequal lists (firstLength lists) bad.length := by
  obtain ⟨hbad, before, after, hsplit, hbefore⟩ := List.find?_eq_some_iff_append.mp h
  have hbad : bad.length ≠ firstLength lists := by simpa using hbad
  refine ⟨before, bad, after, hsplit, ?_, fun l hl => by simpa using hbefore l hl, rfl, hbad⟩
  -- the first list is as long as itself, so it is not the one that is found
  rintro rfl
  rw [hsplit] at hbad
  exact hbad rfl

lemma ofRows_of_find? {bad : List K}
    (h : lists.find? (fun l => l.length != firstLength lists) = some bad) :
    ofRows lists = .error (.shapesDiffer [firstLength lists] [bad.length]) := by
  rw [firstLength] at h
  dsimp only [ofRows]
  split <;> rename_i hfind <;> rw [h] at hfind <;> cases hfind
  rfl

lemma ofColumns_of_find? {bad : List K}
    (h : lists.find? (fun l => l.length != firstLength lists) = some bad) :
    ofColumns lists = .error (.shapesDiffer [firstLength lists] [bad.length]) := by
  rw [firstLength] at h
  dsimp only [ofColumns]
  split <;> rename_i hfind <;> rw [h] at hfind <;> cases hfind
  rfl

/-- **Lists of unequal lengths** are neither the rows nor the columns of a matrix. -/
lemma exists_refusal_of_unequal (h : ∃ l ∈ lists, ∃ l' ∈ lists, l.length ≠ l'.length) :
    ∃ left right, FirstUnequal lists left right ∧
      ofRows lists = .error (.shapesDiffer [left] [right]) ∧
      ofColumns lists = .error (.shapesDiffer [left] [right]) := by
  obtain ⟨bad, hbad⟩ := exists_find?_of_unequal h
  exact ⟨_, _, firstUnequal_of_find? hbad, ofRows_of_find? hbad, ofColumns_of_find? hbad⟩

end Lists

end Matrix

end WaveletPrecision
