import WaveletPrecision.Binary.Format

/-
Correct rounding.

Every rounding is to nearest, with ties to even.

* `roundHalfEven` divides two natural numbers and rounds to the nearest integer, and
  `roundShift` multiplies by a power of two and rounds in the same way;
* `Format.roundRatio` is the code of the magnitude nearest to an exact ratio;
* `Format.roundScaled` and `Format.roundScaledRatio` are the codes of the magnitudes nearest
  to a number and to a ratio times a power of two.  They compute only as many binary places
  as the rounding needs; `Format.roundScaled_eq` and `Format.roundScaledRatio_eq` say that
  they round the exact value.
-/
namespace WaveletPrecision

-- Powers are those of the core library, whatever else is imported beside this module.
attribute [local instance (high)] instPowNat

/-! ### Integers -/

/-- The integer nearest to `n / d`, the even one when two are equally near. -/
def roundHalfEven (n d : Nat) : Nat :=
  let q := n / d
  let r := n % d
  if 2 * r < d ∨ (2 * r = d ∧ q % 2 = 0) then q else q + 1

theorem roundHalfEven_mul_left (c n d : Nat) (hc : 0 < c) :
    roundHalfEven (c * n) (c * d) = roundHalfEven n d := by
  have lt : 2 * (c * (n % d)) < c * d ↔ 2 * (n % d) < d := by
    rw [Nat.mul_left_comm]; exact Nat.mul_lt_mul_left hc
  have eq : 2 * (c * (n % d)) = c * d ↔ 2 * (n % d) = d := by
    rw [Nat.mul_left_comm]; exact Nat.mul_right_inj (Nat.ne_of_gt hc)
  simp only [roundHalfEven, Nat.mul_div_mul_left n d hc, Nat.mul_mod_mul_left, lt, eq]

theorem roundHalfEven_zero (d : Nat) : roundHalfEven 0 d = 0 := by
  have nearest : 2 * 0 < d ∨ (2 * 0 = d ∧ 0 % 2 = 0) := by omega
  rw [roundHalfEven, Nat.zero_div, Nat.zero_mod, if_pos nearest]

theorem roundHalfEven_one (n : Nat) : roundHalfEven n 1 = n := by
  simp [roundHalfEven, Nat.mod_one]

/-- The integer nearest to `m * 2 ^ shift`, the even one when two are equally near.

Of a quotient and its first binary place, which `m >>> s` holds, the place tells whether the
remainder is below one half; only when it is not, and the quotient is even, the remainder
itself is looked at. -/
def roundShift (m : Nat) : Int → Nat
  | .ofNat 0 => m
  | .ofNat s => m <<< s
  | .negSucc s =>
    let halves := m >>> s
    let q := halves / 2
    if halves % 2 = 0 then q
    else if q % 2 = 0 && halves <<< s = m then q
    else q + 1

theorem roundShift_ofNat (m s : Nat) : roundShift m s = m * 2 ^ s := by
  cases s with
  | zero => show m = _; simp
  | succ s => exact Nat.shiftLeft_eq m (s + 1)

theorem roundShift_neg (m s : Nat) : roundShift m (-(s : Int)) = roundHalfEven m (2 ^ s) := by
  cases s with
  | zero => show m = _; simp [roundHalfEven_one]
  | succ s =>
    rw [show -((s + 1 : Nat) : Int) = .negSucc s from rfl]
    simp only [roundShift, roundHalfEven, Nat.shiftRight_eq_div_pow, Nat.shiftLeft_eq,
      Nat.pow_succ, ← Nat.div_div_eq_div_mul]
    have hpos := Nat.two_pow_pos s
    have hm : m % (2 ^ s * 2) = m % 2 ^ s + 2 ^ s * (m / 2 ^ s % 2) := Nat.mod_mul
    have hr := Nat.mod_lt m hpos
    have hq : m / 2 ^ s * 2 ^ s = m ↔ m % 2 ^ s = 0 := by
      have := Nat.div_add_mod' m (2 ^ s)
      omega
    rw [hm]
    rcases Nat.mod_two_eq_zero_or_one (m / 2 ^ s) with h | h
    · simp only [h, Nat.mul_zero, Nat.add_zero, if_true]
      rw [if_pos (Or.inl (by omega))]
    · simp only [h, Nat.mul_one, Nat.one_ne_zero, if_false, Bool.and_eq_true, decide_eq_true_eq, hq]
      congr 1
      simp only [eq_iff_iff]
      omega

/-! ### Magnitudes -/

namespace Format

/-- The code of the magnitude nearest to `n / d` units, ties to the even significand.

The significand of a magnitude of `2 ^ k` times the lowest binade is a multiple of
`2 ^ k` units; a carry out of the significand moves on to the next binade, because
the codes of two neighbouring binades follow each other. -/
def roundRatio (F : Format) (n d : Nat) : Nat :=
  let k := (n / d).log2 - F.fractionBits
  min F.infinityCode (k * F.binadeSize + roundHalfEven n (d * 2 ^ k))

theorem roundRatio_le (F : Format) (n d : Nat) : F.roundRatio n d ≤ F.infinityCode :=
  Nat.min_le_left _ _

end Format

/-! ### Numbers times a power of two -/

theorem log2_mul_two_pow {m : Nat} (s : Nat) (hm : m ≠ 0) : (m * 2 ^ s).log2 = m.log2 + s := by
  induction s with
  | zero => simp
  | succ s ih =>
    rw [Nat.pow_succ, ← Nat.mul_assoc, Nat.mul_comm, Nat.log2_two_mul, ih, Nat.add_assoc]
    exact Nat.mul_ne_zero hm (Nat.ne_of_gt (Nat.two_pow_pos s))

theorem log2_div_two_pow (m s : Nat) : (m / 2 ^ s).log2 = m.log2 - s := by
  induction s with
  | zero => simp
  | succ s ih =>
    have half : ∀ n : Nat, (n / 2).log2 = n.log2 - 1 := by
      intro n
      rw [Nat.log2_def n]
      split
      · simp
      · have : n / 2 = 0 := by omega
        rw [this]; rfl
    rw [Nat.pow_succ, ← Nat.div_div_eq_div_mul, half, ih, Nat.sub_sub]

namespace Format

/-- The code of the magnitude nearest to `m * 2 ^ scale` units, ties to the even significand. -/
@[inline]
def roundScaled (F : Format) (m : Nat) (scale : Int) : Nat :=
  if m = 0 then 0
  else
    let k := (m.log2 + scale).toNat - F.fractionBits
    min F.infinityCode (k * F.binadeSize + roundShift m (scale - k))

theorem roundScaled_le (F : Format) (m : Nat) (scale : Int) :
    F.roundScaled m scale ≤ F.infinityCode := by
  unfold roundScaled
  split
  · exact Nat.zero_le _
  · exact Nat.min_le_left _ _

theorem roundScaled_ofNat (F : Format) (m s : Nat) :
    F.roundScaled m s = F.roundRatio (m * 2 ^ s) 1 := by
  by_cases hm : m = 0
  · simp [roundScaled, roundRatio, hm, roundHalfEven]
  · have hk : ((m.log2 : Int) + s).toNat = m.log2 + s := by omega
    simp only [roundScaled, roundRatio, hm, if_false, Nat.div_one, log2_mul_two_pow s hm, hk,
      Nat.one_mul]
    congr 2
    generalize m.log2 + s - F.fractionBits = k
    rcases Nat.le_total k s with h | h
    · obtain ⟨t, rfl⟩ := Nat.exists_eq_add_of_le h
      rw [show ((k + t : Nat) : Int) - k = t by omega, roundShift_ofNat, Nat.pow_add,
        Nat.mul_left_comm]
      conv => rhs; arg 2; rw [← Nat.mul_one (2 ^ k)]
      rw [roundHalfEven_mul_left _ _ _ (Nat.two_pow_pos k), roundHalfEven_one]
    · obtain ⟨t, rfl⟩ := Nat.exists_eq_add_of_le h
      rw [show (s : Int) - (s + t : Nat) = -(t : Int) by omega, roundShift_neg, Nat.pow_add,
        Nat.mul_comm m, roundHalfEven_mul_left _ _ _ (Nat.two_pow_pos s)]

theorem roundScaled_neg (F : Format) (m s : Nat) :
    F.roundScaled m (-(s : Int)) = F.roundRatio m (2 ^ s) := by
  by_cases hm : m = 0
  · simp [roundScaled, roundRatio, hm, roundHalfEven_zero]
  · have hk : ((m.log2 : Int) + -(s : Int)).toNat = m.log2 - s := by omega
    simp only [roundScaled, roundRatio, hm, if_false, log2_div_two_pow, hk, ← Nat.pow_add]
    congr 2
    generalize m.log2 - s - F.fractionBits = k
    rw [show -(s : Int) - k = -((s + k : Nat) : Int) by omega, roundShift_neg]

theorem roundScaled_eq (F : Format) (m : Nat) (scale : Int) :
    F.roundScaled m scale = F.roundRatio (m * 2 ^ scale.toNat) (2 ^ (-scale).toNat) := by
  obtain ⟨s, rfl | rfl⟩ := Int.eq_nat_or_neg scale
  · simpa using F.roundScaled_ofNat m s
  · simpa using F.roundScaled_neg m s

end Format

/-! ### Ratios times a power of two -/

/-- The exponent of the leading bit of `n / d`. -/
def log2Ratio (n d : Nat) : Int :=
  let e : Int := n.log2 - d.log2
  if d <<< e.toNat ≤ n <<< (-e).toNat then e else e - 1

/-- A comparison of two multiples of powers of two depends on the difference of the exponents
only. -/
theorem mul_two_pow_le_iff {n d p q r s : Nat} (h : p + s = r + q) :
    d * 2 ^ p ≤ n * 2 ^ q ↔ d * 2 ^ r ≤ n * 2 ^ s := by
  rw [← Nat.mul_le_mul_right_iff (Nat.two_pow_pos s), Nat.mul_assoc, Nat.mul_assoc, ← Nat.pow_add,
    ← Nat.pow_add, h, Nat.add_comm q s, Nat.pow_add, Nat.pow_add, ← Nat.mul_assoc,
    ← Nat.mul_assoc, Nat.mul_le_mul_right_iff (Nat.two_pow_pos q)]

/-- The leading bit of a ratio of positive numbers: `2 ^ e ≤ n / d < 2 ^ (e + 1)`. -/
theorem log2Ratio_bounds {n d : Nat} (hn : n ≠ 0) (hd : d ≠ 0) {p q : Nat}
    (h : log2Ratio n d = (p : Int) - q) :
    d * 2 ^ p ≤ n * 2 ^ q ∧ n * 2 ^ q < d * 2 ^ (p + 1) := by
  have hn1 := Nat.log2_self_le hn
  have hd1 := Nat.log2_self_le hd
  have hn2 := (Nat.log2_eq_iff hn).1 rfl |>.2
  have hd2 := (Nat.log2_eq_iff hd).1 rfl |>.2
  have lower : d * 2 ^ n.log2 ≤ n * 2 ^ (d.log2 + 1) :=
    calc d * 2 ^ n.log2 ≤ 2 ^ (d.log2 + 1) * 2 ^ n.log2 := Nat.mul_le_mul_right _ (Nat.le_of_lt hd2)
      _ ≤ 2 ^ (d.log2 + 1) * n := Nat.mul_le_mul_left _ hn1
      _ = n * 2 ^ (d.log2 + 1) := Nat.mul_comm ..
  have upper : n * 2 ^ d.log2 < d * 2 ^ (n.log2 + 1) :=
    calc n * 2 ^ d.log2 < 2 ^ (n.log2 + 1) * 2 ^ d.log2 :=
          Nat.mul_lt_mul_of_pos_right hn2 (Nat.two_pow_pos _)
      _ ≤ 2 ^ (n.log2 + 1) * d := Nat.mul_le_mul_left _ hd1
      _ = d * 2 ^ (n.log2 + 1) := Nat.mul_comm ..
  simp only [log2Ratio, Nat.shiftLeft_eq] at h
  split at h
  next hle =>
    refine ⟨(mul_two_pow_le_iff (by omega)).1 hle, Nat.lt_of_not_le fun hge => ?_⟩
    exact Nat.not_le_of_gt upper ((mul_two_pow_le_iff (by omega)).1 hge)
  next hgt =>
    refine ⟨(mul_two_pow_le_iff (by omega)).1 lower, Nat.lt_of_not_le fun hge => ?_⟩
    exact hgt ((mul_two_pow_le_iff (by omega)).1 hge)

namespace Format

/-- The code of the magnitude nearest to `n / d * 2 ^ scale` units, ties to the even
significand. -/
@[inline]
def roundScaledRatio (F : Format) (n d : Nat) (scale : Int) : Nat :=
  if n = 0 then 0
  else
    let k := (log2Ratio n d + scale).toNat - F.fractionBits
    let shift := scale - k
    min F.infinityCode
      (k * F.binadeSize + roundHalfEven (n <<< shift.toNat) (d <<< (-shift).toNat))

theorem roundScaledRatio_le (F : Format) (n d : Nat) (scale : Int) :
    F.roundScaledRatio n d scale ≤ F.infinityCode := by
  unfold roundScaledRatio
  split
  · exact Nat.zero_le _
  · exact Nat.min_le_left _ _

theorem log2_div_scaled {n d : Nat} (hn : n ≠ 0) (hd : d ≠ 0) (a b : Nat) :
    (n * 2 ^ a / (d * 2 ^ b)).log2 = (log2Ratio n d + a - b).toNat := by
  have hpos : 0 < d * 2 ^ b := Nat.mul_pos (Nat.pos_of_ne_zero hd) (Nat.two_pow_pos b)
  rcases Int.lt_or_le (log2Ratio n d + a - b) 0 with h | h
  · obtain ⟨j, hj⟩ := Int.eq_ofNat_of_zero_le (show 0 ≤ b - a - log2Ratio n d - 1 by omega)
    have hb := (log2Ratio_bounds hn hd
      (show log2Ratio n d = ((log2Ratio n d).toNat : Int) - (-log2Ratio n d).toNat by omega)).2
    have hlt : n * 2 ^ a < d * 2 ^ b := Nat.lt_of_not_le fun hge =>
      Nat.not_le_of_gt hb ((mul_two_pow_le_iff (by omega)).1 (Nat.le_trans hge
        (Nat.mul_le_mul_left n (Nat.pow_le_pow_right (by decide) (Nat.le_add_right a j)))))
    rw [Nat.div_eq_of_lt hlt, show (log2Ratio n d + a - b).toNat = 0 by omega]
    rfl
  · obtain ⟨t, ht⟩ := Int.eq_ofNat_of_zero_le h
    have hb := log2Ratio_bounds hn hd (show log2Ratio n d = ((t + b : Nat) : Int) - a by omega)
    rw [ht, Int.toNat_natCast]
    have lower : 2 ^ t ≤ n * 2 ^ a / (d * 2 ^ b) := by
      rw [Nat.le_div_iff_mul_le hpos, Nat.mul_left_comm, ← Nat.pow_add]
      exact hb.1
    have upper : n * 2 ^ a / (d * 2 ^ b) < 2 ^ (t + 1) := by
      rw [Nat.div_lt_iff_lt_mul hpos, Nat.mul_left_comm, ← Nat.pow_add,
        show t + 1 + b = t + b + 1 by omega]
      exact hb.2
    exact (Nat.log2_eq_iff (Nat.ne_of_gt (Nat.lt_of_lt_of_le (Nat.two_pow_pos t) lower))).2
      ⟨lower, upper⟩

/-- Scaling a ratio by a power of two and rounding is rounding the ratio that the power makes. -/
theorem roundScaledRatio_eq (F : Format) (n : Nat) {d : Nat} (hd : d ≠ 0) (scale : Int) :
    F.roundScaledRatio n d scale
      = F.roundRatio (n * 2 ^ scale.toNat) (d * 2 ^ (-scale).toNat) := by
  have hpos : 0 < d * 2 ^ (-scale).toNat :=
    Nat.mul_pos (Nat.pos_of_ne_zero hd) (Nat.two_pow_pos _)
  by_cases hn : n = 0
  · simp [roundScaledRatio, roundRatio, hn, roundHalfEven, hpos]
  · have hk : log2Ratio n d + scale.toNat - (-scale).toNat = log2Ratio n d + scale := by omega
    simp only [roundScaledRatio, roundRatio, hn, if_false, log2_div_scaled hn hd, hk,
      Nat.shiftLeft_eq]
    congr 2
    generalize (log2Ratio n d + scale).toNat - F.fractionBits = k
    obtain ⟨c, h1, h2⟩ : ∃ c : Nat, scale.toNat = c + (scale - k).toNat ∧
        (-scale).toNat + k = c + (-(scale - k)).toNat :=
      ⟨min scale.toNat ((-scale).toNat + k), by omega, by omega⟩
    rw [Nat.mul_assoc d, ← Nat.pow_add, h1, h2, Nat.pow_add, Nat.pow_add, Nat.mul_left_comm n,
      Nat.mul_left_comm d, roundHalfEven_mul_left _ _ _ (Nat.two_pow_pos c)]

end Format

end WaveletPrecision
