import WaveletPrecision.Proofs.Binary.NotANumber

/-
Magnitudes that a format has.

A significand that is not too long, moved to the left, is a magnitude of a format
(`Format.exists_code_of_multiple`), so nothing is rounded when it is made
(`Binary.units_ofScaled`).

A format with at least as many exponent bits and fraction bits as another one has all of its
magnitudes (`Format.FitsIn.exists_code`).  Such a magnitude is a significand of the smaller format,
moved to the left, and in the larger format its code leaves those bits free by which the significand
has been moved.  So a value that is converted into the larger format is not rounded, and it is found
again when it is converted back (`Binary.convert_convert`).
-/
namespace WaveletPrecision

-- Powers are those of the core library, whatever else is imported beside this module.
attribute [local instance (high)] instPowNat

/-! ### Magnitudes -/

namespace Format

variable {F G : Format}

/-- Above the lowest binade a significand has its leading bit. -/
lemma binadeSize_le_significand {code : ℕ} (h : G.binadeSize ≤ code) :
    G.binadeSize ≤ G.significand code := by
  rw [significand, if_neg (Nat.not_lt_of_le h)]
  exact Nat.le_add_right _ _

lemma units_of_le {code : ℕ} (h : code ≤ 2 * G.binadeSize) : G.units code = code := by
  simpa using G.units_mul_add (k := 0) (m := code) (.inl rfl) h

/-- The code of twice a magnitude, which leaves free the bits that the code of the magnitude
leaves free. -/
lemma exists_code_double (G : Format) {b : ℕ} (hb : b ≤ G.fractionBits) {code : ℕ}
    (hcode : 2 ^ b ∣ code) : ∃ double, 2 ^ b ∣ double ∧ G.units double = G.units code * 2 := by
  rcases Nat.lt_or_ge code G.binadeSize with hlow | hhigh
  · refine ⟨code * 2, hcode.mul_right 2, ?_⟩
    rw [units_of_le (by omega), units_of_le (by omega)]
  · -- the same significand has a magnitude in the next binade
    have hleading := binadeSize_le_significand hhigh
    have hsplit := G.exponent_mul_add code
    have hnext : code + G.binadeSize
        = (G.exponent code + 1) * G.binadeSize + G.significand code := by
      rw [Nat.add_mul, Nat.one_mul]
      omega
    refine ⟨code + G.binadeSize, Nat.dvd_add hcode (Nat.pow_dvd_pow 2 hb), ?_⟩
    rw [hnext, G.units_mul_add (.inr hleading) (G.significand_lt code).le, units, Nat.pow_succ,
      Nat.mul_assoc]

/-- **A short significand, moved to the left, is a magnitude** whose code has as many low bits free
as the significand. -/
lemma exists_code_of_multiple (G : Format) {b m : ℕ} (hb : b ≤ G.fractionBits)
    (hm : m * 2 ^ b ≤ 2 * G.binadeSize) (s : ℕ) :
    ∃ code, 2 ^ b ∣ code ∧ G.units code = m * 2 ^ b * 2 ^ s := by
  induction s with
  | zero =>
    exact ⟨m * 2 ^ b, Nat.dvd_mul_left _ _, by rw [units_of_le hm, Nat.pow_zero, Nat.mul_one]⟩
  | succ s ih =>
    obtain ⟨code, hdvd, hunits⟩ := ih
    obtain ⟨double, hdvd', hdouble⟩ := G.exists_code_double hb hdvd
    exact ⟨double, hdvd', by rw [hdouble, hunits, Nat.pow_succ, ← Nat.mul_assoc]⟩

lemma isNearestCode_units (F : Format) (code : ℕ) : F.IsNearestCode (F.units code) code := by
  constructor
  · intro other
    rw [sub_self, abs_zero]
    exact abs_nonneg _
  · intro other hother heq
    rw [sub_self, abs_zero, eq_comm, abs_eq_zero, sub_eq_zero] at heq
    exact absurd (F.units_strictMono.injective (by exact_mod_cast heq.symm)) hother

lemma lt_infinityCode_iff (F : Format) (code : ℕ) :
    code < F.infinityCode ↔ (F.units code : ℚ) < F.overflow * 2 ^ F.places := by
  rw [← not_le, (F.isNearestCode_units code).infinityCode_le_iff, not_le]

/-- The magnitudes of a format are magnitudes of another one: it has no more exponent bits and no
more fraction bits. -/
structure FitsIn (F G : Format) : Prop where
  exponentBits : F.exponentBits ≤ G.exponentBits
  fractionBits : F.fractionBits ≤ G.fractionBits

namespace FitsIn

variable (h : F.FitsIn G)

include h

lemma overflow_le : F.overflow ≤ G.overflow := by
  have hrange : 2 ^ (F.exponentBits - 1) ≤ 2 ^ (G.exponentBits - 1) :=
    Nat.pow_le_pow_right two_pos (Nat.sub_le_sub_right h.exponentBits 1)
  have hbits : (2 : ℚ) ^ F.significandBits ≤ 2 ^ G.significandBits :=
    pow_le_pow_right₀ one_le_two (Nat.succ_le_succ h.fractionBits)
  have hlast : (1 : ℚ) / 2 ^ G.significandBits ≤ 1 / 2 ^ F.significandBits :=
    one_div_le_one_div_of_le (by positivity) hbits
  have hlast' : (1 : ℚ) / 2 ^ F.significandBits ≤ 1 :=
    (div_le_one (by positivity)).mpr (one_le_pow₀ one_le_two)
  refine mul_le_mul (pow_le_pow_right₀ one_le_two (Nat.sub_le_sub_right hrange 1)) ?_ ?_
    (by positivity)
  · linarith
  · linarith

lemma exists_places_eq : ∃ s, G.places = F.places + (G.fractionBits - F.fractionBits) + s := by
  obtain ⟨t, ht, -, hF⟩ := F.exists_exponentBits_eq
  obtain ⟨u, hu, -, hG⟩ := G.exists_exponentBits_eq
  have hrange : 2 ^ (F.exponentBits - 1) ≤ 2 ^ (G.exponentBits - 1) :=
    Nat.pow_le_pow_right two_pos (Nat.sub_le_sub_right h.exponentBits 1)
  have := h.fractionBits
  exact ⟨u - t, by omega⟩

/-- **A magnitude of the smaller format is one of the larger format**, and the bits that it does not
need are free. -/
lemma exists_code {code : ℕ} (hcode : code < F.infinityCode) :
    ∃ wide < G.infinityCode, 2 ^ (G.fractionBits - F.fractionBits) ∣ wide ∧
      (G.units wide : ℚ) = F.units code / 2 ^ F.places * 2 ^ G.places := by
  obtain ⟨b, hb⟩ := Nat.exists_eq_add_of_le' h.fractionBits
  obtain ⟨s, hs⟩ := h.exists_places_eq
  rw [hb, Nat.add_sub_cancel] at hs ⊢
  have hsize : 2 * G.binadeSize = 2 * F.binadeSize * 2 ^ b := by
    rw [binadeSize, binadeSize, hb, Nat.pow_add, Nat.mul_comm (2 ^ b), Nat.mul_assoc]
  have hsignificand : F.significand code * 2 ^ b ≤ 2 * G.binadeSize := by
    rw [hsize]
    exact Nat.mul_le_mul_right _ (F.significand_lt code).le
  obtain ⟨wide, hdvd, hunits⟩ :=
    G.exists_code_of_multiple (by omega) hsignificand (F.exponent code + s)
  have hvalue : (G.units wide : ℚ) = F.units code / 2 ^ F.places * 2 ^ G.places := by
    rw [hunits, units, hs]
    push_cast
    rw [pow_add, pow_add, pow_add]
    field_simp
  refine ⟨wide, ?_, hdvd, hvalue⟩
  rw [lt_infinityCode_iff] at hcode ⊢
  rw [hvalue]
  have hsmall : (F.units code : ℚ) / 2 ^ F.places < F.overflow :=
    (div_lt_iff₀ (by positivity)).mpr hcode
  exact mul_lt_mul_of_pos_right (hsmall.trans_le h.overflow_le) (by positivity)

end FitsIn

end Format

/-! ### Values -/

namespace Binary

variable {F G : Format} {x : Binary F}

/-- **A short significand is not rounded**, as far as the format reaches. -/
lemma units_ofScaled (negative : Bool) {m s : ℕ} (hm : m ≤ 2 * F.binadeSize)
    (hrange : (m * 2 ^ s : ℚ) < F.overflow * 2 ^ F.places) :
    (ofScaled negative m s : Binary F).isFinite ∧
      (ofScaled negative m s : Binary F).units = m * 2 ^ s := by
  obtain ⟨own, -, hunits⟩ := F.exists_code_of_multiple (b := 0) (Nat.zero_le _) (by simpa) s
  rw [Nat.pow_zero, Nat.mul_one] at hunits
  obtain ⟨code, hnearest, hcode⟩ := exists_isNearestCode_ofScaled (F := F) negative m
    (show (s : ℤ) = s - (0 : ℕ) by simp)
  have hvalue : (m * 2 ^ s / 2 ^ 0 : ℚ) = F.units own := by
    rw [hunits]
    push_cast
    ring
  rw [hvalue] at hnearest
  obtain rfl := hnearest.eq_of_units
  have hfinite : code < F.infinityCode := by
    rw [F.lt_infinityCode_iff, hunits]
    exact_mod_cast hrange
  rw [min_eq_right hfinite.le] at hcode
  exact ⟨by simpa only [isFinite, decide_eq_true_eq, hcode] using hfinite,
    by rw [units, hcode, hunits]⟩

lemma eq_infinity_of_isInfinite (hx : x.isInfinite) : x = infinity x.negative :=
  Binary.ext rfl (of_decide_eq_true hx)

lemma convert_infinity (G : Format) (negative : Bool) :
    (infinity negative : Binary F).convert G = infinity negative := by
  rw [convert, if_neg (by simp), if_pos (by simp [isInfinite, infinity])]
  rfl

lemma isNaN_convert (G : Format) (x : Binary F) : (x.convert G).isNaN = x.isNaN := by
  rw [convert]
  split
  · rename_i hx
    rw [isNaN_quietNaN, hx]
  · rename_i hx
    rw [Bool.not_eq_true] at hx
    rw [hx]
    split <;> simp

lemma isFinite_or_isInfinite (hx : ¬x.isNaN) : x.isFinite ∨ x.isInfinite := by
  simp only [isNaN, isFinite, isInfinite, decide_eq_true_eq] at hx ⊢
  omega

/-- **A finite value is not rounded in a larger format.** -/
lemma convert_of_fitsIn (h : F.FitsIn G) (hx : x.isFinite) :
    (x.convert G).isFinite ∧ (x.convert G).negative = x.negative ∧
      2 ^ (G.fractionBits - F.fractionBits) ∣ (x.convert G).code ∧
      ((x.convert G).units : ℚ) = x.units / 2 ^ F.places * 2 ^ G.places := by
  obtain ⟨code, hnearest, hcode, hsign⟩ := exists_isNearestCode_convert G hx
  simp only [isFinite, decide_eq_true_eq] at hx
  obtain ⟨wide, hwide, hdvd, hunits⟩ := h.exists_code hx
  rw [units, ← hunits] at hnearest
  obtain rfl := hnearest.eq_of_units
  rw [min_eq_right hwide.le] at hcode
  refine ⟨?_, hsign, hcode ▸ hdvd, ?_⟩
  · simpa only [isFinite, decide_eq_true_eq, hcode] using hwide
  · rw [units, hcode, hunits, units]

/-- **A value that is converted into a larger format and back** is the same value. -/
lemma convert_convert (h : F.FitsIn G) (hx : ¬x.isNaN) : (x.convert G).convert F = x := by
  rcases isFinite_or_isInfinite hx with hfinite | hinfinite
  · obtain ⟨hwide, hsign, -, hunits⟩ := convert_of_fitsIn h hfinite
    obtain ⟨code, hnearest, hcode, hsign'⟩ := exists_isNearestCode_convert F hwide
    rw [hunits, mul_div_cancel_right₀ _ (by positivity), div_mul_cancel₀ _ (by positivity),
      units] at hnearest
    obtain rfl := hnearest.eq_of_units
    simp only [isFinite, decide_eq_true_eq] at hfinite
    exact Binary.ext (hsign'.trans hsign) (hcode.trans (min_eq_right hfinite.le))
  · rw [eq_infinity_of_isInfinite hinfinite, convert_infinity, convert_infinity]

end Binary

end WaveletPrecision
