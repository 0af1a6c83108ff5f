import Mathlib.Algebra.Order.BigOperators.Group.List
import Mathlib.Algebra.Order.Field.Basic
import Mathlib.Data.List.Perm.Basic
import Mathlib.Tactic.NormNum
import WaveletPrecision.Experiment.ErrorStats

/-
What the error measures of two lists say.

A place with a zero reference has an absolute error and every other place has a relative one, so
the measures are a maximum over the errors of the one kind (`absoluteErrors`), and a maximum and a
mean over those of the other kind (`relativeErrors`); `ErrorStats.between_eq` says so for any type
of values.

Over exact numbers the folds are maxima and sums, and `ErrorStats.between_exact` tells the measures
without them: what is counted, what the two maxima are the largest of, what the mean is the mean of,
what they do not depend on, and when there is no error at all.
-/
namespace WaveletPrecision

/-! ### The two kinds of errors -/

section Kinds

variable {K : Type} [Sub K] [Measured K]

/-- The errors at the places of the pairs with a zero reference, which stands second. -/
def absoluteErrors (pairs : List (K × K)) : List K :=
  (pairs.filter fun p => Measured.isZero p.2).map fun p => Measured.absolute (p.1 - p.2)

/-- The errors at the other places. -/
def relativeErrors [Div K] (pairs : List (K × K)) : List K :=
  (pairs.filter fun p => !Measured.isZero p.2).map fun p =>
    Measured.absolute (p.1 - p.2) / Measured.absolute p.2

lemma zip_absoluteDifferences (compared reference : List K) :
    (absoluteDifferences compared reference).zip reference
      = (compared.zip reference).map fun p => (Measured.absolute (p.1 - p.2), p.2) := by
  induction compared generalizing reference with
  | nil => simp [absoluteDifferences]
  | cons c compared ih =>
    cases reference with
    | nil => simp
    | cons r reference => simpa [absoluteDifferences] using ih reference

/-- **The measures of a list** are those of its two kinds of errors. -/
lemma ErrorStats.between_eq [Zero K] [Add K] [Div K] [NatCast K] (compared reference : List K) :
    between compared reference =
      { maxAbsZeroRef := (absoluteErrors (compared.zip reference)).foldl Measured.larger 0
        maxRel := (relativeErrors (compared.zip reference)).foldl Measured.larger 0
        meanRel :=
          if (relativeErrors (compared.zip reference)).isEmpty then 0
          else (relativeErrors (compared.zip reference)).foldl (· + ·) 0
            / ((relativeErrors (compared.zip reference)).length : K)
        zeroRefCount := (absoluteErrors (compared.zip reference)).length
        nonzeroRefCount := (relativeErrors (compared.zip reference)).length } := by
  simp only [between, zip_absoluteDifferences, List.filter_map, List.map_map, Function.comp_def,
    absoluteErrors, relativeErrors]
  rfl

end Kinds

/-! ### Exact numbers -/

section Largest

variable {K : Type} [Zero K] [LinearOrder K]

/-- A number is the largest of a set of numbers, or zero if there are none. -/
def IsLargest (s : Set K) (m : K) : Prop := s = ∅ ∧ m = 0 ∨ IsGreatest s m

lemma IsLargest.le {s : Set K} {m x : K} (h : IsLargest s m) (hx : x ∈ s) : x ≤ m := by
  rcases h with ⟨rfl, -⟩ | h
  · exact absurd hx (Set.notMem_empty x)
  · exact h.2 hx

lemma IsLargest.eq_zero_iff {s : Set K} {m : K} (h : IsLargest s m) (hs : ∀ x ∈ s, 0 ≤ x) :
    m = 0 ↔ ∀ x ∈ s, x = 0 := by
  constructor
  · rintro rfl x hx
    exact (h.le hx).antisymm (hs x hx)
  · intro hzero
    rcases h with ⟨-, hm⟩ | h
    · exact hm
    · exact hzero m h.1

omit [Zero K] in
/-- What a running maximum ends with is where it started or an element, and none is larger. -/
lemma foldl_max_mem (l : List K) (a : K) :
    l.foldl max a ∈ a :: l ∧ ∀ x ∈ a :: l, x ≤ l.foldl max a := by
  induction l generalizing a with
  | nil => simp
  | cons b l ih =>
    obtain ⟨hmem, hle⟩ := ih (max a b)
    rw [List.forall_mem_cons, max_le_iff] at hle
    rw [List.foldl_cons]
    refine ⟨?_, by simpa [hle.1.1, hle.1.2] using hle.2⟩
    rcases List.mem_cons.mp hmem with heq | hmem
    · rw [heq]
      rcases max_choice a b with h | h <;> simp [h]
    · exact .tail _ (.tail _ hmem)

lemma isLargest_foldl_max {l : List K} (h : ∀ x ∈ l, 0 ≤ x) :
    IsLargest {x | x ∈ l} (l.foldl max 0) := by
  obtain ⟨hmem, hle⟩ := foldl_max_mem l 0
  rw [List.forall_mem_cons] at hle
  rcases l with _ | ⟨x, l⟩
  · exact .inl ⟨by simp, rfl⟩
  · refine .inr ⟨?_, fun y hy => hle.2 y hy⟩
    rcases List.mem_cons.mp hmem with hzero | hmem
    · -- all of them are zero, so the first one is the largest
      have hx : x = 0 := (hzero ▸ hle.2 x List.mem_cons_self).antisymm (h x List.mem_cons_self)
      rw [hzero, ← hx]
      exact List.mem_cons_self
    · exact hmem

end Largest

section Exact

variable {K : Type} [Field K] [LinearOrder K]

/-- Exact numbers have their absolute value for a size, and the larger one is the maximum. -/
instance : Measured K where
  absolute x := |x|
  larger := max
  isZero x := decide (x = 0)

lemma mem_absoluteErrors {pairs : List (K × K)} {e : K} :
    e ∈ absoluteErrors pairs ↔ ∃ c, (c, 0) ∈ pairs ∧ e = |c| := by
  constructor
  · intro he
    obtain ⟨⟨c, r⟩, hp, rfl⟩ := List.mem_map.mp he
    obtain ⟨hp, hr⟩ := List.mem_filter.mp hp
    obtain rfl : r = 0 := of_decide_eq_true hr
    exact ⟨c, hp, congrArg abs (sub_zero c)⟩
  · rintro ⟨c, hp, rfl⟩
    exact List.mem_map.mpr ⟨(c, 0), List.mem_filter.mpr ⟨hp, decide_eq_true rfl⟩,
      congrArg abs (sub_zero c)⟩

lemma mem_relativeErrors {pairs : List (K × K)} {e : K} :
    e ∈ relativeErrors pairs ↔ ∃ c r, (c, r) ∈ pairs ∧ r ≠ 0 ∧ e = |c - r| / |r| := by
  constructor
  · intro he
    obtain ⟨⟨c, r⟩, hp, rfl⟩ := List.mem_map.mp he
    obtain ⟨hp, hr⟩ := List.mem_filter.mp hp
    exact ⟨c, r, hp, by simpa [Measured.isZero] using hr, rfl⟩
  · rintro ⟨c, r, hp, hr, rfl⟩
    exact List.mem_map.mpr ⟨(c, r), List.mem_filter.mpr ⟨hp, by simpa [Measured.isZero] using hr⟩,
      rfl⟩

lemma length_errors {compared reference : List K} (h : compared.length = reference.length) :
    (absoluteErrors (compared.zip reference)).length = reference.count 0 ∧
      (relativeErrors (compared.zip reference)).length = reference.countP (· ≠ 0) := by
  have hsecond : (compared.zip reference).map Prod.snd = reference := List.map_snd_zip h.ge
  constructor
  · rw [absoluteErrors, List.length_map, ← List.countP_eq_length_filter]
    conv_rhs => rw [← hsecond, List.count, List.countP_map]
    rfl
  · rw [relativeErrors, List.length_map, ← List.countP_eq_length_filter]
    conv_rhs => rw [← hsecond, List.countP_map]
    exact List.countP_congr fun p _ => by simp [Measured.isZero]

variable [IsStrictOrderedRing K]

lemma absoluteErrors_nonneg (pairs : List (K × K)) : ∀ e ∈ absoluteErrors pairs, 0 ≤ e := by
  intro e he
  obtain ⟨c, -, rfl⟩ := mem_absoluteErrors.mp he
  exact abs_nonneg c

lemma relativeErrors_nonneg (pairs : List (K × K)) : ∀ e ∈ relativeErrors pairs, 0 ≤ e := by
  intro e he
  obtain ⟨c, r, -, -, rfl⟩ := mem_relativeErrors.mp he
  positivity

lemma relativeErrors_map_mul {s : K} (hs : s ≠ 0) (pairs : List (K × K)) :
    relativeErrors (pairs.map fun p => (s * p.1, s * p.2)) = relativeErrors pairs := by
  have hkept : ∀ p : K × K, (!Measured.isZero (s * p.2)) = !Measured.isZero p.2 := by
    simp [Measured.isZero, hs]
  have herror : ∀ p : K × K, Measured.absolute (s * p.1 - s * p.2) / Measured.absolute (s * p.2)
      = Measured.absolute (p.1 - p.2) / Measured.absolute p.2 := by
    intro p
    change |s * p.1 - s * p.2| / |s * p.2| = |p.1 - p.2| / |p.2|
    rw [← mul_sub, abs_mul, abs_mul, mul_div_mul_left _ _ (abs_pos.mpr hs).ne']
  simp only [relativeErrors, List.filter_map, List.map_map, Function.comp_def, hkept, herror]

omit [IsStrictOrderedRing K] in
/-- The sum of the relative errors, with nothing in the places that have none. -/
lemma sum_relativeErrors (pairs : List (K × K)) :
    (relativeErrors pairs).sum
      = (pairs.map fun p => if p.2 = 0 then 0 else |p.1 - p.2| / |p.2|).sum := by
  induction pairs with
  | nil => rfl
  | cons p pairs ih =>
    by_cases hp : p.2 = 0
    · have hskip : relativeErrors (p :: pairs) = relativeErrors pairs := by
        simp [relativeErrors, Measured.isZero, hp]
      rw [hskip, ih, List.map_cons, List.sum_cons, if_pos hp, zero_add]
    · have htake : relativeErrors (p :: pairs) = |p.1 - p.2| / |p.2| :: relativeErrors pairs := by
        simp [relativeErrors, Measured.isZero, Measured.absolute, hp]
      rw [htake, List.sum_cons, ih, List.map_cons, List.sum_cons, if_neg hp]

/-- The measures of a list against a reference of the same length, over exact numbers: what they
count, the largest of which errors they are, and the mean of which. -/
structure ErrorStats.Exact (stats : ErrorStats K) (compared reference : List K) : Prop where
  zeroRefCount_eq : stats.zeroRefCount = reference.count 0
  nonzeroRefCount_eq : stats.nonzeroRefCount = reference.countP (· ≠ 0)
  count_add_count : stats.zeroRefCount + stats.nonzeroRefCount = reference.length
  maxAbsZeroRef : IsLargest {e | ∃ c, (c, 0) ∈ compared.zip reference ∧ e = |c|}
    stats.maxAbsZeroRef
  maxRel : IsLargest {e | ∃ c r, (c, r) ∈ compared.zip reference ∧ r ≠ 0 ∧ e = |c - r| / |r|}
    stats.maxRel
  meanRel_nonneg : 0 ≤ stats.meanRel
  meanRel_le : stats.meanRel ≤ stats.maxRel
  meanRel_mul : stats.meanRel * stats.nonzeroRefCount
    = ((compared.zip reference).map fun p => if p.2 = 0 then 0 else |p.1 - p.2| / |p.2|).sum

namespace ErrorStats

variable {compared reference : List K}

/-- A mean of the relative errors is between zero and the largest of them, and together they weigh
as much as their number of means. -/
lemma meanRel_between (compared reference : List K) :
    0 ≤ (between compared reference).meanRel ∧
      (between compared reference).meanRel ≤ (between compared reference).maxRel ∧
      (between compared reference).meanRel * (between compared reference).nonzeroRefCount
        = (relativeErrors (compared.zip reference)).sum := by
  rw [between_eq]
  generalize herrors : relativeErrors (compared.zip reference) = errors
  have hnonneg : ∀ e ∈ errors, 0 ≤ e := herrors ▸ relativeErrors_nonneg _
  rcases eq_or_ne errors [] with rfl | hne
  · simp
  · have hcount : (0 : K) < errors.length := by exact_mod_cast List.length_pos_iff.mpr hne
    have hlargest := isLargest_foldl_max hnonneg
    have hsum : errors.sum ≤ errors.length * errors.foldl max 0 := by
      rw [← nsmul_eq_mul]
      exact errors.sum_le_card_nsmul _ fun e he => hlargest.le he
    simp only [if_neg (mt List.isEmpty_iff.mp hne), ← List.sum_eq_foldl]
    refine ⟨div_nonneg (List.sum_nonneg hnonneg) hcount.le, ?_, div_mul_cancel₀ _ hcount.ne'⟩
    rw [div_le_iff₀ hcount, mul_comm]
    exact hsum

omit [IsStrictOrderedRing K] in
lemma between_perm {compared' reference' : List K}
    (h : (compared'.zip reference').Perm (compared.zip reference)) :
    between compared' reference' = between compared reference := by
  have habsolute : (absoluteErrors (compared'.zip reference')).Perm
      (absoluteErrors (compared.zip reference)) := (h.filter _).map _
  have hrelative : (relativeErrors (compared'.zip reference')).Perm
      (relativeErrors (compared.zip reference)) := (h.filter _).map _
  have hmax : ∀ {l l' : List K}, l'.Perm l →
      l'.foldl Measured.larger 0 = l.foldl Measured.larger 0 :=
    fun hperm => hperm.foldl_eq (f := max) 0
  simp only [between_eq, hmax habsolute, hmax hrelative, habsolute.length_eq,
    hrelative.length_eq, ← List.sum_eq_foldl, hrelative.sum_eq, hrelative.isEmpty_eq]

/-- What the measures of a list against a reference of the same length are. -/
lemma exact_between (h : compared.length = reference.length) :
    (between compared reference).Exact compared reference := by
  obtain ⟨hzero, hnonzero⟩ := length_errors h
  obtain ⟨hnonneg, hle, hmul⟩ := meanRel_between compared reference
  have hcount : reference.count 0 + reference.countP (· ≠ 0) = reference.length := by
    rw [List.length_eq_countP_add_countP (· == 0), List.count]
    congr 1
    exact List.countP_congr fun r _ => by simp
  refine ⟨?_, ?_, ?_, ?_, ?_, hnonneg, hle, hmul.trans (sum_relativeErrors _)⟩
  · rw [between_eq, hzero]
  · rw [between_eq, hnonzero]
  · rw [between_eq, hzero, hnonzero, hcount]
  · have hlargest := isLargest_foldl_max (absoluteErrors_nonneg (compared.zip reference))
    simp only [mem_absoluteErrors] at hlargest
    rw [between_eq]
    exact hlargest
  · have hlargest := isLargest_foldl_max (relativeErrors_nonneg (compared.zip reference))
    simp only [mem_relativeErrors] at hlargest
    rw [between_eq]
    exact hlargest

lemma Exact.eq_zero_iff {stats : ErrorStats K} (h : stats.Exact compared reference)
    (hlength : compared.length = reference.length) :
    stats.maxAbsZeroRef = 0 ∧ stats.maxRel = 0 ↔ compared = reference := by
  rw [h.maxAbsZeroRef.eq_zero_iff (by rintro _ ⟨c, -, rfl⟩; exact abs_nonneg c),
    h.maxRel.eq_zero_iff (by rintro _ ⟨c, r, -, -, rfl⟩; positivity)]
  constructor
  · rintro ⟨habsolute, hrelative⟩
    refine List.ext_getElem hlength fun i hi hi' => ?_
    have hmem : (compared[i], reference[i]) ∈ compared.zip reference := by
      rw [← List.getElem_zip (h := by simp [hi, hi'])]
      exact List.getElem_mem _
    by_cases hr : reference[i] = 0
    · rw [hr] at hmem ⊢
      exact abs_eq_zero.mp (habsolute _ ⟨_, hmem, rfl⟩)
    · have herror := hrelative _ ⟨_, _, hmem, hr, rfl⟩
      rw [div_eq_zero_iff, or_iff_left (abs_ne_zero.mpr hr), abs_eq_zero, sub_eq_zero] at herror
      exact herror
  · rintro rfl
    have hequal : ∀ p ∈ compared.zip compared, p.1 = p.2 := by
      intro p hp
      obtain ⟨i, hi, rfl⟩ := List.getElem_of_mem hp
      rw [List.getElem_zip]
    constructor
    · rintro _ ⟨c, hp, rfl⟩
      obtain rfl : c = 0 := hequal _ hp
      exact abs_zero
    · rintro _ ⟨c, r, hp, -, rfl⟩
      obtain rfl : c = r := hequal _ hp
      rw [sub_self, abs_zero, zero_div]

/-- **The error measures over exact numbers.**  They are what they are called, they do not depend on
the order of the places, the relative ones do not depend on a common factor, and there is no error
exactly if the lists are equal. -/
theorem between_exact (h : compared.length = reference.length) :
    (between compared reference).Exact compared reference ∧
    (∀ compared' reference' : List K, compared'.length = reference'.length →
      (compared'.zip reference').Perm (compared.zip reference) →
      between compared' reference' = between compared reference) ∧
    (∀ s : K, s ≠ 0 →
      (between (compared.map (s * ·)) (reference.map (s * ·))).maxRel
        = (between compared reference).maxRel ∧
      (between (compared.map (s * ·)) (reference.map (s * ·))).meanRel
        = (between compared reference).meanRel) ∧
    ((between compared reference).maxAbsZeroRef = 0 ∧ (between compared reference).maxRel = 0 ↔
      compared = reference) := by
  have hexact := exact_between h
  refine ⟨hexact, fun _ _ _ hperm => between_perm hperm, fun s hs => ?_, hexact.eq_zero_iff h⟩
  have hscaled : relativeErrors ((compared.map (s * ·)).zip (reference.map (s * ·)))
      = relativeErrors (compared.zip reference) := by
    rw [List.zip_map]
    exact relativeErrors_map_mul hs _
  simp only [between_eq, hscaled, and_self]

end ErrorStats

end Exact

/-- Four rational places, two of them with a zero reference, also in another order. -/
theorem ErrorStats.between_exact_four :
    let compared : List ℚ := [3, 1 / 2, -2, 5]
    let reference : List ℚ := [2, 0, 0, -4]
    compared.length = reference.length ∧
      between compared reference = ⟨2, 9 / 4, 11 / 8, 2, 2⟩ ∧
      (between compared reference).Exact compared reference ∧
      between [-2, 3, 5, 1 / 2] [0, 2, -4, 0] = between compared reference := by
  intro compared reference
  obtain ⟨hexact, hperm, -⟩ := between_exact (show compared.length = reference.length from rfl)
  have hplaces : ([-2, 3, 5, 1 / 2].zip [0, 2, -4, 0]).Perm (compared.zip reference) := by
    decide +kernel
  exact ⟨rfl, by decide +kernel, hexact, hperm _ _ rfl hplaces⟩

end WaveletPrecision
