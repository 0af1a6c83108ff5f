import WaveletPrecision.Proofs.Binary.Product
import WaveletPrecision.Proofs.Experiment.Signals

/-
The range of the samples of a signal.

A uniform sample is a multiple of `2 ^ -53` below one, and it is not rounded (`unitSample_eq`).  The
product with the magnitude is rounded, but not beyond the magnitude, so every sample is finite and
lies between zero and the magnitude of its input (`sample_bounds`).

That is less than a place in `[0, magnitude)`.  A negative magnitude is accepted, and its samples
are negative.  A positive one up to `2 ^ -1022` is the product of the largest uniform sample with
it.  Larger ones are never reached (`forall_inRange_iff`, `Config.signal_inRange_iff`).
-/
namespace WaveletPrecision

-- Powers are those of the core library, whatever else is imported beside this module.
attribute [local instance (high)] instPowNat

open Binary

/-! ### Uniform samples -/

/-- The leading bits of a word that decide on a uniform sample. -/
def leadingBits (word : UInt64) : ℕ := word.toNat >>> (wordBits - unitBits)

lemma leadingBits_lt (word : UInt64) : leadingBits word < 2 ^ unitBits := by
  have hword : word.toNat < 2 ^ 64 := word.toNat_lt
  rw [leadingBits, Nat.shiftRight_eq_div_pow, Nat.div_lt_iff_lt_mul (Nat.two_pow_pos _)]
  exact hword

/-- **A uniform sample** is the binary fraction of the leading bits, and not rounded. -/
lemma unitSample_eq (word : UInt64) :
    (unitSample word).isFinite ∧ (unitSample word).negative = false ∧
      (unitSample word).factor = leadingBits word / 2 ^ unitBits := by
  obtain ⟨s, hplaces, hscale⟩ : ∃ s : ℕ, Format.binary64.places = 53 + s ∧
      (Format.binary64.places - unitBits : ℤ) = s := ⟨1021, by decide, by decide⟩
  have hbits := leadingBits_lt word
  have hbits' : (leadingBits word : ℚ) < 2 ^ 53 := by exact_mod_cast hbits
  have hone : (1 : ℚ) < Format.binary64.overflow := by
    exact_mod_cast Format.binary64.lt_overflow (n := 1) (e := 1) (by decide) (by decide)
  have hpow : (0 : ℚ) < 2 ^ s := by positivity
  have hrange : (leadingBits word * 2 ^ s : ℚ)
      < Format.binary64.overflow * 2 ^ Format.binary64.places := by
    rw [hplaces, pow_add, ← mul_assoc]
    exact mul_lt_mul_of_pos_right (hbits'.trans (lt_mul_of_one_lt_left (by positivity) hone)) hpow
  obtain ⟨hfinite, hunits⟩ := units_ofScaled (F := .binary64) false hbits.le hrange
  rw [← hscale] at hfinite hunits
  refine ⟨hfinite, rfl, ?_⟩
  rw [factor, unitSample, ← leadingBits, hunits, hplaces, pow_add]
  push_cast
  exact mul_div_mul_right _ _ hpow.ne'

/-- A uniform sample is below one, and the largest one is the largest value there. -/
lemma factor_unitSample_le (word : UInt64) :
    (unitSample word).factor ≤ 1 - 1 / 2 ^ Format.binary64.significandBits := by
  have hbits : (leadingBits word + 1 : ℚ) ≤ 2 ^ 53 := by exact_mod_cast leadingBits_lt word
  have hwidths : unitBits = 53 ∧ Format.binary64.significandBits = 53 := ⟨rfl, rfl⟩
  rw [(unitSample_eq word).2.2, hwidths.1, hwidths.2, div_le_iff₀ (by positivity), sub_mul,
    one_mul, div_mul_cancel₀ _ (by positivity)]
  linarith

/-! ### Samples of a signal -/

section Bounds

variable {m : Binary64} (word : UInt64)

/-- **A sample** has the sign of the magnitude and does not go beyond it. -/
lemma sample_bounds (hm : m.isFinite) :
    (unitSample word * m).isFinite ∧ (unitSample word * m).negative = m.negative ∧
      (unitSample word * m).code ≤ m.code := by
  obtain ⟨hfinite, hsign, -⟩ := unitSample_eq word
  have hone : (unitSample word).factor ≤ 1 :=
    (factor_unitSample_le word).trans (sub_le_self _ (by positivity))
  have hle : (unitSample word * m).code ≤ m.code := (isNearestCode_code_mul hfinite hm hone).2
  obtain ⟨-, -, -, hnegative⟩ := exists_isNearestCode_mul hfinite hm
  simp only [isFinite, decide_eq_true_eq] at hm
  refine ⟨?_, ?_, hle⟩
  · simpa only [isFinite, decide_eq_true_eq] using hle.trans_lt hm
  · rw [hsign, Bool.false_bne] at hnegative
    exact hnegative

/-- A magnitude above the lowest binades is not reached. -/
lemma sample_code_lt (hm : m.isFinite) (hlarge : Format.binary64.binadeSize < m.code) :
    (unitSample word * m).code < m.code :=
  code_mul_lt (unitSample_eq word).1 hm (factor_unitSample_le word) hlarge

/-- The word of the largest uniform sample. -/
def largestWord : UInt64 := 0xffffffffffffffff

/-- A magnitude in the lowest binades is reached by the largest uniform sample. -/
lemma largest_sample (hm : m.isFinite) (hsmall : m.code ≤ Format.binary64.binadeSize) :
    unitSample largestWord * m = m := by
  obtain ⟨hfinite, -, hfactor⟩ := unitSample_eq largestWord
  have hlargest : (unitSample largestWord).factor
      = 1 - 1 / 2 ^ Format.binary64.significandBits := by
    have hbits : leadingBits largestWord = 2 ^ 53 - 1 := by decide
    have hwidths : unitBits = 53 ∧ Format.binary64.significandBits = 53 := ⟨rfl, rfl⟩
    rw [hfactor, hbits, hwidths.1, hwidths.2]
    norm_num
  exact Binary.ext (sample_bounds largestWord hm).2.1 (code_mul_eq hfinite hm hlargest hsmall)

end Bounds

/-! ### The documented range -/

/-- A sample lies in the range that starts at zero and ends below a magnitude, or it is zero as the
magnitude is. -/
def InRange (m v : Binary64) : Prop :=
  0 ≤ v.toRat ∧ v.toRat < m.toRat ∨ m.toRat = 0 ∧ v.toRat = 0

instance (m v : Binary64) : Decidable (InRange m v) := inferInstanceAs (Decidable (_ ∨ _))

section Range

variable {m v : Binary64}

/-- The least value with a leading bit. -/
def leastNormal : Binary64 := ⟨false, Format.binary64.binadeSize, by decide⟩

lemma lt_toRat_iff (m : Binary64) : 1 / 2 ^ 1022 < m.toRat ↔
    m.negative = false ∧ Format.binary64.binadeSize < m.code := by
  have hleast : leastNormal.toRat = 1 / 2 ^ 1022 := by decide +kernel
  rw [← hleast]
  cases hm : m.negative with
  | false => rw [toRat_lt_toRat_iff rfl hm, and_iff_right rfl, leastNormal]
  | true =>
    have hneg := toRat_nonpos hm
    have hpos := toRat_nonneg (x := leastNormal) rfl
    exact iff_of_false (by linarith) (by simp)

/-- **The samples of a magnitude are in range** for every word if the magnitude is zero or above the
lowest binades, and only then. -/
lemma forall_inRange_iff (hm : m.isFinite) :
    (∀ word, InRange m (unitSample word * m)) ↔ m.toRat = 0 ∨ 1 / 2 ^ 1022 < m.toRat := by
  constructor
  · intro hrange
    by_contra hm'
    obtain ⟨hzero, hsmall⟩ := not_or.mp hm'
    obtain ⟨hnonneg, hlt⟩ := (hrange largestWord).resolve_right fun h => hzero h.1
    have hsign : m.negative = false := by
      by_contra hneg
      linarith [toRat_nonpos (Bool.not_eq_false _ ▸ hneg : m.negative = true)]
    rw [lt_toRat_iff, and_iff_right hsign, not_lt] at hsmall
    rw [largest_sample hm hsmall] at hlt
    exact lt_irrefl _ hlt
  · rintro (hzero | hlarge) word
    · obtain ⟨-, -, hle⟩ := sample_bounds word hm
      refine .inr ⟨hzero, ?_⟩
      rw [toRat_eq_zero_iff] at hzero ⊢
      omega
    · obtain ⟨hsign, hcode⟩ := (lt_toRat_iff m).mp hlarge
      have hsign' := (sample_bounds word hm).2.1.trans hsign
      exact .inl ⟨toRat_nonneg hsign',
        (toRat_lt_toRat_iff hsign' hsign).mpr (sample_code_lt word hm hcode)⟩

end Range

/-! ### The signals of an experiment -/

lemma RandomSource.exists_word_of_mem {S K : Type} [RandomSource S] {ofWord : UInt64 → K} {n : ℕ}
    {source : S} {v : K} (h : v ∈ (samples ofWord n source).1) : ∃ word, v = ofWord word := by
  induction n generalizing source with
  | zero => cases h
  | succ n ih =>
    rw [samples, collect_succ, List.mem_cons] at h
    exact h.elim (fun heq => ⟨_, heq⟩) ih

lemma RandomSource.mem_samples_ofList {K : Type} {ofWord : UInt64 → K} {n : ℕ} (hn : n ≠ 0)
    (word : UInt64) : ofWord word ∈ (samples ofWord n (WordCycle.ofList [word])).1 := by
  obtain ⟨n, rfl⟩ := Nat.exists_eq_succ_of_ne_zero hn
  rw [samples, collect_succ]
  exact List.mem_cons_self

/-- **The range of the samples.**  Let an experiment be accepted.  Then every sample of each of its
inputs, whatever is drawn, is finite, has the sign of the magnitude, and does not go beyond it.  The
samples of an input that has samples are in the documented range for all draws if and only if the
magnitude is zero or larger than `2 ^ -1022`. -/
theorem Config.signal_inRange_iff {config : Config} (hvalid : config.validate = .ok ())
    {entry : InputEntry} (hentry : entry ∈ config.inputs) :
    (∀ {S : Type} [RandomSource S] (source : S), ∀ v ∈ (entry.signal source).1,
      v.isFinite ∧ v.negative = entry.magnitude.negative ∧
        |v.toRat| ≤ |entry.magnitude.toRat|) ∧
    ((∀ {S : Type} [RandomSource S] (source : S), ∀ v ∈ (entry.signal source).1,
        InRange entry.magnitude v) ↔
      entry.size = 0 ∨ entry.magnitude.toRat = 0 ∨ 1 / 2 ^ 1022 < entry.magnitude.toRat) := by
  have hm := (Config.validate_eq_ok_iff.mp hvalid).2 entry hentry
  constructor
  · intro S _ source v hv
    obtain ⟨word, rfl⟩ := RandomSource.exists_word_of_mem hv
    obtain ⟨hfinite, hsign, hle⟩ := sample_bounds word hm
    exact ⟨hfinite, hsign, abs_toRat_le_iff.mpr hle⟩
  · rw [← forall_inRange_iff hm]
    constructor
    · intro hrange
      by_cases hsize : entry.size = 0
      · exact .inl hsize
      · refine .inr fun word => hrange (WordCycle.ofList [word]) _ ?_
        exact RandomSource.mem_samples_ofList hsize word
    · rintro (hsize | hwords) S _ source v hv
      · rw [InputEntry.signal, hsize] at hv
        cases hv
      · obtain ⟨word, rfl⟩ := RandomSource.exists_word_of_mem hv
        exact hwords word

/-- A magnitude of five is never reached. -/
theorem Config.signal_inRange_iff_five :
    let entry : InputEntry := ⟨"signal", [16, 16], 5.0⟩
    let config : Config := ⟨[], [entry], []⟩
    config.validate = .ok () ∧ entry ∈ config.inputs ∧
      ∀ source : WordCycle, ∀ v ∈ (entry.signal source).1, InRange entry.magnitude v := by
  intro entry config
  have hvalid : config.validate = .ok () := by decide +kernel
  have hentry : entry ∈ config.inputs := List.mem_cons_self
  have hlarge : 1 / 2 ^ 1022 < entry.magnitude.toRat := by decide +kernel
  exact ⟨hvalid, hentry,
    (Config.signal_inRange_iff hvalid hentry).2.mpr (.inr (.inr hlarge))⟩

/-- **Accepted magnitudes whose samples are out of range**: the least positive value is reached by
the largest uniform sample, and the samples of a negative magnitude are negative. -/
theorem Config.signal_not_inRange :
    let least : InputEntry := ⟨"least", [1], .ofWord 1⟩
    let below : InputEntry := ⟨"below", [1], -1.0⟩
    (⟨[], [least, below], []⟩ : Config).validate = .ok () ∧
      (least.signal (WordCycle.ofList [largestWord])).1 = [least.magnitude] ∧
        ¬InRange least.magnitude least.magnitude ∧
      (below.signal (WordCycle.ofList [0x8000000000000000])).1 = [-0.5] ∧
        ¬InRange below.magnitude (-0.5) := by
  decide +kernel

end WaveletPrecision
