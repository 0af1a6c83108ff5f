import WaveletPrecision.Proofs.Binary.Exact
import WaveletPrecision.Sample.Precision

/-
Entering a sample type.

A signal enters a transform by narrowing its values.  Binary64 and binary32 values are the
roundings of what they come from.  The conversion to bfloat16 first forgets the low half of the
word, and rounds what is left.  This is the rounding of the value itself, unless it has been a
little above the middle between two neighbours: when the low half is forgotten it falls on the
middle, and from there it is rounded to the even one, which can be the lower one
(`BFloat16.BeyondTie`).

* `Format.exists_middle` says that the middle between two neighbours of bfloat16 is a binary64 value
  without a low half, so that forgetting it does not move a value across a middle;
* `BFloat16.ofBinary64_eq_convert` and `BFloat16.not_isNearestEven_of_beyondTie` are the two cases;
* `Sample.narrow_isNearestEven_iff` is the statement on all sample types.
-/
namespace WaveletPrecision

-- Powers are those of the core library, whatever else is imported beside this module.
attribute [local instance (high)] instPowNat

/-! ### Middles between neighbours -/

/-- The middle between two neighbouring magnitudes of bfloat16 is a magnitude of binary64 whose
word has no low half. -/
lemma Format.exists_middle (code : ℕ) : ∃ wide, 2 ^ BFloat16.ignoredBits ∣ wide ∧
    (binary64.units wide / 2 ^ binary64.places * 2 ^ bfloat16.places : ℚ)
      = (bfloat16.units code + bfloat16.units (code + 1)) / 2 := by
  have hsignificand : bfloat16.significand code < 256 := bfloat16.significand_lt code
  have hsize : binary64.binadeSize = 2 ^ 52 := rfl
  have hignored : BFloat16.ignoredBits = 32 := rfl
  obtain ⟨s, hs⟩ : ∃ s, s = bfloat16.exponent code + 908 := ⟨_, rfl⟩
  -- the significand of the middle has one bit more
  obtain ⟨wide, hdvd, hunits⟩ := binary64.exists_code_of_multiple (b := BFloat16.ignoredBits)
    (m := 2 * bfloat16.significand code + 1) (by decide) (by rw [hignored, hsize]; omega) s
  refine ⟨wide, hdvd, ?_⟩
  have hplaces : binary64.places = 1074 ∧ bfloat16.places = 133 := ⟨rfl, rfl⟩
  have hexponents : BFloat16.ignoredBits + s + bfloat16.places + 1
      = bfloat16.exponent code + binary64.places := by omega
  have hpowers : (2 : ℚ) ^ BFloat16.ignoredBits * 2 ^ s * 2 ^ bfloat16.places * 2
      = 2 ^ bfloat16.exponent code * 2 ^ binary64.places := by
    rw [← pow_add, ← pow_add, ← pow_succ, ← pow_add, hexponents]
  rw [hunits, bfloat16.units_succ, Format.units, div_mul_eq_mul_div,
    div_eq_div_iff (by positivity) (by positivity)]
  push_cast
  linear_combination (2 * (bfloat16.significand code : ℚ) + 1) * hpowers

namespace BFloat16

open Binary

/-- A binary64 value is a little further from zero than the middle between two neighbours of
bfloat16, of which the lower one is even: without its low bits it is the middle. -/
def BeyondTie (x : Binary64) : Prop :=
  x.dropLow ignoredBits ≠ x ∧ ∃ y z : BFloat16, y.negative = x.negative ∧ z.negative = x.negative ∧
    z.isFinite ∧ z.code = y.code + 1 ∧ Even y.significand ∧
      (x.dropLow ignoredBits).toRat = (y.toRat + z.toRat) / 2

variable {x : Binary64}

/-- The magnitude of a binary64 value, counted in units of bfloat16. -/
def scaled (x : Binary64) : ℚ :=
  x.units / 2 ^ Format.binary64.places * 2 ^ Format.bfloat16.places

lemma scaled_lt_scaled_iff {x y : Binary64} : scaled x < scaled y ↔ x.code < y.code := by
  rw [scaled, scaled, mul_lt_mul_iff_left₀ (by positivity),
    div_lt_div_iff_of_pos_right (by positivity), Nat.cast_lt]
  exact Format.binary64.units_strictMono.lt_iff_lt

lemma toRat_eq_scaled (x : Binary64) :
    x.toRat = signFactor x.negative * (scaled x / 2 ^ Format.bfloat16.places) := by
  rw [scaled, mul_div_cancel_right₀ _ (by positivity), toRat_eq]

lemma dropLow_code_le (x : Binary64) : (x.dropLow ignoredBits).code ≤ x.code :=
  Nat.div_mul_le_self _ _

lemma isFinite_dropLow (hx : x.isFinite) : (x.dropLow ignoredBits).isFinite := by
  simp only [isFinite, decide_eq_true_eq] at hx ⊢
  exact Nat.lt_of_le_of_lt (dropLow_code_le x) hx

lemma ofBinary64_eq (hx : x.isFinite) :
    ofBinary64 x = (x.dropLow ignoredBits).convert .bfloat16 := by
  simp only [isFinite, decide_eq_true_eq] at hx
  rw [ofBinary64, if_neg (by simpa [isNaN] using hx.le)]

/-- Forgetting the low bits moves a value towards zero, if it moves it. -/
lemma scaled_dropLow_lt (h : x.dropLow ignoredBits ≠ x) :
    scaled (x.dropLow ignoredBits) < scaled x := by
  rw [scaled_lt_scaled_iff]
  refine (dropLow_code_le x).lt_of_ne fun hcode => h (Binary.ext rfl hcode)

/-- Forgetting the low bits moves a value to no other side of a middle. -/
lemma middle_le_scaled_dropLow (code : ℕ)
    (h : (Format.bfloat16.units code + Format.bfloat16.units (code + 1)) / 2 ≤ scaled x) :
    (Format.bfloat16.units code + Format.bfloat16.units (code + 1)) / 2
      ≤ scaled (x.dropLow ignoredBits) := by
  obtain ⟨wide, ⟨high, rfl⟩, hwide⟩ := Format.exists_middle code
  have hmono : ∀ code',
      Format.binary64.units (2 ^ ignoredBits * high) ≤ Format.binary64.units code' ↔
        2 ^ ignoredBits * high ≤ code' :=
    fun _ => Format.binary64.units_strictMono.le_iff_le
  rw [← hwide, scaled, mul_le_mul_iff_left₀ (by positivity),
    div_le_div_iff_of_pos_right (by positivity), Nat.cast_le] at h ⊢
  have hcode := (hmono _).mp h
  refine (hmono _).mpr ?_
  rw [Nat.mul_comm, ← Nat.le_div_iff_mul_le (Nat.two_pow_pos _)] at hcode
  rw [Nat.mul_comm]
  exact Nat.mul_le_mul_right _ hcode

/-- The value of a sign with a code that is not beyond that of infinity. -/
def ofCode (negative : Bool) (code : ℕ) (h : code ≤ Format.bfloat16.infinityCode) : BFloat16 :=
  ⟨negative, code, Nat.lt_of_le_of_lt h Format.bfloat16.infinityCode_lt_codeCount⟩

/-- **Away from ties the value itself is rounded.** -/
lemma ofBinary64_eq_convert (hx : x.isFinite) (htie : ¬BeyondTie x) :
    ofBinary64 x = x.convert .bfloat16 := by
  rw [ofBinary64_eq hx]
  by_cases hlow : x.dropLow ignoredBits = x
  · rw [hlow]
  obtain ⟨code, hcode, hconvert, hsign⟩ :=
    exists_isNearestCode_convert .bfloat16 (isFinite_dropLow hx)
  obtain ⟨code', hcode', hconvert', hsign'⟩ := exists_isNearestCode_convert .bfloat16 hx
  refine Binary.ext (hsign.trans hsign'.symm) (hconvert.trans (.trans ?_ hconvert'.symm))
  have hlt := scaled_dropLow_lt hlow
  have hle : code ≤ code' := hcode.le_of_lt hcode' hlt
  by_contra hne
  have hcodes : code < code' := by omega
  have hfinite : code < Format.bfloat16.infinityCode := by omega
  -- the value is not below the middle behind the code, so without its low bits it is that middle
  have hmono : (Format.bfloat16.units (code + 1) : ℚ) ≤ Format.bfloat16.units code' := by
    exact_mod_cast Format.bfloat16.units_strictMono.monotone hcodes
  have habove := hcode'.le_two_mul hcodes
  have hmiddle := middle_le_scaled_dropLow (x := x) code (by rw [scaled]; linarith)
  have hbelow := hcode.two_mul_le (Nat.lt_succ_self code)
  have heven : Even code :=
    hcode.even_of_middle (Nat.lt_succ_self code) (by rw [scaled] at hmiddle; linarith)
  have hnext : code + 1 < Format.bfloat16.infinityCode := by
    obtain ⟨a, ha⟩ := heven
    obtain ⟨b, hb⟩ := Format.bfloat16.even_infinityCode
    omega
  refine htie ⟨hlow, ofCode x.negative code hfinite.le, ofCode x.negative (code + 1) hfinite, rfl,
    rfl, decide_eq_true hnext, rfl,
    (Format.even_significand_iff _ code).mpr heven, ?_⟩
  have hequal : scaled (x.dropLow ignoredBits)
      = (Format.bfloat16.units code + Format.bfloat16.units (code + 1)) / 2 :=
    hmiddle.antisymm' (by rw [scaled]; linarith)
  rw [toRat_eq_scaled, toRat_eq, toRat_eq, hequal]
  simp only [ofCode, units, dropLow]
  ring

/-- A value in the middle of two others of its sign, counted in units. -/
lemma two_mul_scaled_eq {y z : BFloat16} (hy : y.negative = x.negative)
    (hz : z.negative = x.negative) (h : x.toRat = (y.toRat + z.toRat) / 2) :
    2 * scaled x = y.units + z.units := by
  rw [toRat_eq_scaled, toRat_eq y, toRat_eq z, hy, hz] at h
  have hfactor : signFactor x.negative ≠ 0 := by
    rw [← abs_ne_zero, abs_signFactor]
    exact one_ne_zero
  have hsame : scaled x / 2 ^ Format.bfloat16.places
      = (y.units / 2 ^ Format.bfloat16.places + z.units / 2 ^ Format.bfloat16.places) / 2 := by
    refine mul_left_cancel₀ hfactor (h.trans ?_)
    ring
  field_simp at hsame
  linarith

/-- **Beyond a tie the value itself is not rounded**: the upper neighbour is nearer. -/
lemma not_isNearestEven_of_beyondTie (hx : x.isFinite) (htie : BeyondTie x) :
    ¬(ofBinary64 x).IsNearestEven x.toRat := by
  obtain ⟨hlow, y, z, hy, hz, hfinite, hnext, heven, hmiddle⟩ := htie
  obtain ⟨code, hcode, hconvert, hsign⟩ :=
    exists_isNearestCode_convert .bfloat16 (isFinite_dropLow hx)
  rw [← ofBinary64_eq hx] at hconvert hsign
  have hpos : (0 : ℚ) < 2 ^ Format.bfloat16.places := by positivity
  have hunits : z.units = Format.bfloat16.units (y.code + 1) := by rw [units, hnext]
  simp only [isFinite, decide_eq_true_eq] at hfinite
  have htwice : 2 * scaled (x.dropLow ignoredBits) = y.units + z.units :=
    two_mul_scaled_eq hy hz hmiddle
  -- the conversion has taken the lower neighbour
  have hlower : code = y.code :=
    hcode.eq_of_middle ((Format.even_significand_iff _ _).mp heven) (by rw [← hunits]; exact htwice)
  have hresult : ofBinary64 x = y := by
    refine Binary.ext (hsign.trans hy.symm) ?_
    rw [hconvert, hlower]
    omega
  intro hnearest
  rw [hresult] at hnearest
  have hle := hnearest.nearest (by simp only [isFinite, decide_eq_true_eq]; omega) z
    (by simpa only [isFinite, decide_eq_true_eq] using hfinite)
  have hdistance := abs_sub_toRat (scaled x) y
  have hdistance' := abs_sub_toRat (scaled x) z
  rw [hy, ← toRat_eq_scaled] at hdistance
  rw [hz, ← toRat_eq_scaled] at hdistance'
  rw [hdistance, hdistance', div_le_div_iff_of_pos_right hpos] at hle
  have hbelow : (y.units : ℚ) < z.units := by
    rw [hunits]
    exact Format.IsNearestCode.cast_units_lt (Nat.lt_succ_self _)
  have := (abs_sub_le_abs_sub_iff_le hbelow).mp hle
  linarith [scaled_dropLow_lt hlow]

end BFloat16

/-! ### The sample types -/

/-- **Narrowing is rounding to nearest even**, but for bfloat16 values beyond a tie.  A finite value
keeps its sign when it enters a sample type.  In binary64 and in binary32 it becomes the value
nearest to it, the even one of two that are equally near, with overflow from the usual threshold
on.  In bfloat16 this is so exactly if the value is not beyond a tie, and in any case for the
value without its low bits. -/
theorem Sample.narrow_isNearestEven_iff (p : Precision) {x : Binary64} (hx : x.isFinite) :
    (narrow x : p.Carrier).negative = x.negative ∧
      ((narrow x : p.Carrier).IsNearestEven x.toRat
        ↔ ¬(p = .bfloat16 ∧ BFloat16.BeyondTie x)) ∧
      (p = .bfloat16 →
        (narrow x : p.Carrier).IsNearestEven (x.dropLow BFloat16.ignoredBits).toRat) := by
  cases p with
  | binary64 =>
    refine ⟨rfl, iff_of_true ?_ (by simp), by simp⟩
    have hself := (Binary.isNearestEven_convert .binary64 hx).1
    rw [Binary.convert_self hx] at hself
    exact hself
  | binary32 =>
    obtain ⟨hnearest, hsign⟩ := Binary.isNearestEven_convert .binary32 hx
    exact ⟨hsign, iff_of_true hnearest (by simp), by simp⟩
  | bfloat16 =>
    have heq := BFloat16.ofBinary64_eq hx
    obtain ⟨hnearest, hsign⟩ :=
      Binary.isNearestEven_convert .bfloat16 (BFloat16.isFinite_dropLow hx)
    rw [← heq] at hnearest hsign
    refine ⟨hsign, ⟨fun h htie => BFloat16.not_isNearestEven_of_beyondTie hx htie.2 h,
      fun h => ?_⟩, fun _ => hnearest⟩
    have htie : ¬BFloat16.BeyondTie x := fun htie => h ⟨rfl, htie⟩
    have hrounded := (Binary.isNearestEven_convert .bfloat16 hx).1
    rw [← BFloat16.ofBinary64_eq_convert hx htie] at hrounded
    exact hrounded

/-- The double nearest to `1 / 10` in single precision, and in bfloat16 a value in the middle of two
neighbours, both of which are rounded to nearest even. -/
theorem Sample.narrow_isNearestEven_iff_middle :
    let tenth : Binary64 := 0.1
    let middle : Binary64 := 1.00390625
    tenth.isFinite ∧ (narrow tenth : Precision.binary32.Carrier).IsNearestEven tenth.toRat ∧
      middle.isFinite ∧ (narrow middle : Precision.bfloat16.Carrier).IsNearestEven middle.toRat ∧
        (narrow middle : Precision.bfloat16.Carrier).toRat = 1 := by
  intro tenth middle
  have htenth : tenth.isFinite := by decide +kernel
  have hmiddle : middle.isFinite := by decide +kernel
  have hlow : middle.dropLow BFloat16.ignoredBits = middle := by decide +kernel
  exact ⟨htenth, (narrow_isNearestEven_iff .binary32 htenth).2.1.mpr (by simp), hmiddle,
    (narrow_isNearestEven_iff .bfloat16 hmiddle).2.1.mpr fun h => h.2.1 hlow, by decide +kernel⟩

/-- A value one step of binary64 above the middle between `1` and the next value of bfloat16 is
rounded to `1`, but the other one is nearer. -/
theorem Sample.narrow_not_isNearestEven :
    let x : Binary64 := .ofWord 0x3ff0100000000001
    x.isFinite ∧ x.toRat = 1 + 1 / 2 ^ 8 + 1 / 2 ^ 52 ∧
      (narrow x : Precision.bfloat16.Carrier).toRat = 1 ∧
        ¬(narrow x : Precision.bfloat16.Carrier).IsNearestEven x.toRat := by
  intro x
  refine ⟨by decide +kernel, by decide +kernel, by decide +kernel, fun h => ?_⟩
  -- the next value of bfloat16
  have hnext := h.nearest (by decide +kernel) (.ofWord 0x3f81) (by decide +kernel)
  exact absurd hnext (by decide +kernel)

end WaveletPrecision
