import WaveletPrecision.Proofs.Binary.NotANumber
import WaveletPrecision.Proofs.Experiment.ErrorStats

/-
When an error measure is not a number.

The two maxima keep a not-a-number once they have met it.  The sum of the relative errors does too,
and it makes none of its own: the errors have no negative sign, so infinities among them never
cancel.  What is left are the single errors, and `ErrorStats.isNaN_between_iff` says which places of
the two lists have one that is not a number.
-/
namespace WaveletPrecision

-- Powers are those of the core library, whatever else is imported beside this module.
attribute [local instance (high)] instPowNat

variable {pairs : List (Binary64 × Binary64)}

lemma exists_isNaN_absoluteErrors_iff :
    (∃ e ∈ absoluteErrors pairs, e.isNaN) ↔ ∃ c r, (c, r) ∈ pairs ∧ r.isZero ∧ c.isNaN := by
  constructor
  · rintro ⟨e, he, hnan⟩
    obtain ⟨⟨c, r⟩, hp, rfl⟩ := List.mem_map.mp he
    obtain ⟨hp, hr⟩ := List.mem_filter.mp hp
    exact ⟨c, r, hp, hr, (Binary.isNaN_sub_iff_of_isZero hr).mp hnan⟩
  · rintro ⟨c, r, hp, hr, hnan⟩
    exact ⟨_, List.mem_map_of_mem (List.mem_filter.mpr ⟨hp, hr⟩),
      (Binary.isNaN_sub_iff_of_isZero hr).mpr hnan⟩

/-- The relative errors lose none either, and an infinite reference adds one. -/
lemma exists_isNaN_relativeErrors_iff :
    (∃ e ∈ relativeErrors pairs, e.isNaN) ↔
      ∃ c r, (c, r) ∈ pairs ∧ ¬r.isZero ∧ (c.isNaN ∨ r.isNaN ∨ r.isInfinite) := by
  constructor
  · rintro ⟨e, he, hnan⟩
    obtain ⟨⟨c, r⟩, hp, rfl⟩ := List.mem_map.mp he
    obtain ⟨hp, hr⟩ := List.mem_filter.mp hp
    have hzero : ¬r.isZero := by simpa [Measured.isZero] using hr
    exact ⟨c, r, hp, hzero, (Binary.isNaN_relativeError_iff hzero).mp hnan⟩
  · rintro ⟨c, r, hp, hzero, hnan⟩
    have hr : (!r.isZero) = true := by simpa using hzero
    exact ⟨_, List.mem_map_of_mem (List.mem_filter.mpr ⟨hp, hr⟩),
      (Binary.isNaN_relativeError_iff hzero).mpr hnan⟩

lemma isUnsigned_relativeErrors : ∀ e ∈ relativeErrors pairs, e.IsUnsigned := by
  intro e he
  obtain ⟨p, -, rfl⟩ := List.mem_map.mp he
  exact Binary.isUnsigned_div rfl rfl

namespace ErrorStats

/-- A mean of values without a negative sign is not a number exactly if one of them is not, as long
as their number is not rounded to infinity. -/
lemma isNaN_mean_iff {errors : List Binary64} (hunsigned : ∀ e ∈ errors, e.IsUnsigned)
    (hcount : (errors.length : ℚ) < Format.binary64.overflow) :
    (if errors.isEmpty then (0 : Binary64)
      else errors.foldl (· + ·) 0 / (errors.length : Binary64)).isNaN ↔ ∃ e ∈ errors, e.isNaN := by
  have hzero : (0 : Binary64).isNaN = false := Binary.isNaN_zero false
  rcases eq_or_ne errors [] with rfl | hne
  · simp [hzero]
  · have hlength : errors.length ≠ 0 := mt List.length_eq_zero_iff.mp hne
    have hinfinite : (Binary.ofNat errors.length : Binary64).isInfinite = false :=
      Binary.isInfinite_ofNat hcount
    have hsum : (errors.foldl Binary.add (Binary.zero false)).isNaN ↔ ∃ e ∈ errors, e.isNaN := by
      rw [Binary.isNaN_foldl_add_iff (.inr rfl) hunsigned]
      simp
    rw [if_neg (mt List.isEmpty_iff.mp hne)]
    change ((errors.foldl Binary.add (Binary.zero false)).div (.ofNat errors.length)).isNaN ↔ _
    rw [Binary.isNaN_div_iff, hsum, hinfinite, Binary.isZero_ofNat hlength, Binary.isNaN_ofNat]
    simp

/-- **When the error measures are not numbers.**  The largest absolute error is not a number exactly
if a not-a-number was compared with a zero.  The largest relative error is not one exactly if, at a
place whose reference is not zero, a not-a-number was compared or the reference is a not-a-number or
infinite; and so is the mean, as long as the number of places is not itself rounded to infinity,
which takes more than `2 ^ 1023` of them. -/
theorem isNaN_between_iff (compared reference : List Binary64) :
    ((between compared reference).maxAbsZeroRef.isNaN ↔
      ∃ c r, (c, r) ∈ compared.zip reference ∧ r.isZero ∧ c.isNaN) ∧
    ((between compared reference).maxRel.isNaN ↔
      ∃ c r, (c, r) ∈ compared.zip reference ∧ ¬r.isZero ∧
        (c.isNaN ∨ r.isNaN ∨ r.isInfinite)) ∧
    ((reference.length : ℚ) < Format.binary64.overflow →
      ((between compared reference).meanRel.isNaN ↔
        (between compared reference).maxRel.isNaN)) := by
  have hmax : ∀ errors : List Binary64,
      (errors.foldl Measured.larger 0).isNaN ↔ ∃ e ∈ errors, e.isNaN := by
    intro errors
    change (errors.foldl Binary.larger (Binary.zero false)).isNaN ↔ _
    rw [Binary.isNaN_foldl_larger_iff]
    simp
  rw [between_eq]
  refine ⟨(hmax _).trans exists_isNaN_absoluteErrors_iff,
    (hmax _).trans exists_isNaN_relativeErrors_iff, fun hcount => ?_⟩
  have hle : (relativeErrors (compared.zip reference)).length ≤ reference.length := by
    rw [relativeErrors, List.length_map]
    exact (List.length_filter_le _ _).trans (by simp)
  have hfew : ((relativeErrors (compared.zip reference)).length : ℚ) < Format.binary64.overflow :=
    (Nat.cast_le.mpr hle).trans_lt hcount
  exact (isNaN_mean_iff isUnsigned_relativeErrors hfew).trans (hmax _).symm

/-- A not-a-number beside a zero and an infinite reference spoil the two measures of their places,
whatever follows; infinite errors, of values with opposite signs, spoil none. -/
theorem isNaN_between_iff_three :
    let one : Binary64 := .ofNat 1
    let infinity : Binary64 := .infinity false
    let spoilt := between [.invalid, one, one] [.zero true, infinity, one]
    let infinite := between [infinity, infinity.neg, one] [one, one, .zero false]
    spoilt.maxAbsZeroRef.isNaN ∧ spoilt.maxRel.isNaN ∧ spoilt.meanRel.isNaN ∧
      ¬infinite.maxAbsZeroRef.isNaN ∧ ¬infinite.maxRel.isNaN ∧ ¬infinite.meanRel.isNaN := by
  intro one infinity spoilt infinite
  have hcount : ((3 : ℕ) : ℚ) < Format.binary64.overflow :=
    Format.lt_overflow _ (by decide) (by decide : 3 < 2 ^ 2)
  obtain ⟨habsolute, hmax, hmean⟩ :=
    isNaN_between_iff [.invalid, one, one] [.zero true, infinity, one]
  obtain ⟨habsolute', hmax', hmean'⟩ :=
    isNaN_between_iff [infinity, infinity.neg, one] [one, one, .zero false]
  have hspoilt : spoilt.maxRel.isNaN :=
    hmax.mpr ⟨one, infinity, by simp, by decide +kernel, .inr (.inr (by decide +kernel))⟩
  have hnumbers : ∀ p ∈ [(infinity, one), (infinity.neg, one), (one, .zero false)],
      ¬p.1.isNaN ∧ ¬p.2.isNaN ∧ ¬p.2.isInfinite := by decide +kernel
  have hinfinite : ¬infinite.maxRel.isNaN := by
    rw [hmax']
    rintro ⟨c, r, hp, -, hnan⟩
    obtain ⟨hc, hr, hr'⟩ := hnumbers (c, r) hp
    exact hnan.elim hc fun h => h.elim hr hr'
  refine ⟨habsolute.mpr ⟨.invalid, .zero true, by simp, rfl, by decide +kernel⟩, hspoilt,
    (hmean hcount).mpr hspoilt, ?_, hinfinite, mt (hmean' hcount).mp hinfinite⟩
  rw [habsolute']
  rintro ⟨c, r, hp, -, hnan⟩
  exact (hnumbers (c, r) hp).1 hnan

end ErrorStats

end WaveletPrecision
