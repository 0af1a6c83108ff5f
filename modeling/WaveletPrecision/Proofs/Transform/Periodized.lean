import WaveletPrecision.Proofs.Transform.Convolution

/-
Periodization is a bijection.

In periodization both directions of the transform read and write positions by their
remainder, so that bands and signals are best seen as repeated in both directions.  Then

* a coefficient is a sum over the taps (`wrapped_analyze`), and
* a sample of the reconstruction is a sum over every other tap
  (`wrapped_synthesizePeriodized`), because a tap that meets the sample at a position of
  the other parity belongs to no coefficient, and otherwise to exactly one
  (`sum_at_position`).

It does not matter how often a window wraps around.  One direction after the other gives a
sum over the pairs of taps (`wrapped_synthesizePeriodized_analyze` for a signal), and an
orthonormal filter leaves a sample of the signal (`synthesizePeriodized_analyze`) or a
coefficient of one of the two bands (`analyze_synthesizePeriodized`).  A signal of odd length is
first made even, which changes none of its coefficients (`analyze_padEven`).

`FilterBank.periodization_bijection` puts the two directions together.
-/
namespace WaveletPrecision

open Finset

variable {K : Type}

/-! ### Signals of odd length -/

section PadEven

lemma padEven_of_even {x : List K} (h : x.length % 2 = 0) : padEven x = x :=
  if_neg (by omega)

lemma padEven_of_odd {x : List K} (hx : x ≠ []) (h : x.length % 2 ≠ 0) :
    padEven x = x ++ [x.getLast hx] := by
  rw [padEven, if_pos (by omega), List.getLast?_eq_some_getLast hx]
  rfl

lemma length_padEven (x : List K) : (padEven x).length = 2 * ((x.length + 1) / 2) := by
  by_cases h : x.length % 2 = 0
  · rw [padEven_of_even h]
    omega
  · have hx : x ≠ [] := by
      rintro rfl
      exact h rfl
    rw [padEven_of_odd hx h, List.length_append, List.length_singleton]
    omega

/-- Every sample is one of the signal, the one behind it the last one. -/
lemma getD_padEven [Zero K] {x : List K} {i : ℕ} (hi : i < (padEven x).length) :
    (padEven x).getD i 0 = x.getD (min i (x.length - 1)) 0 := by
  rw [length_padEven] at hi
  by_cases hinside : i < x.length
  · rw [min_eq_left (by omega)]
    by_cases heven : x.length % 2 = 0
    · rw [padEven_of_even heven]
    · rw [padEven_of_odd (List.length_pos_iff.mp (by omega)) heven,
        List.getD_append _ _ _ _ hinside]
  · obtain rfl : i = x.length := by omega
    have hpos : 0 < x.length := by omega
    have hx : x ≠ [] := List.length_pos_iff.mp hpos
    have hlast : x.length - 1 < x.length := by omega
    rw [padEven_of_odd hx (by omega), List.getD_append_right _ _ _ _ le_rfl, Nat.sub_self,
      min_eq_right (by omega), List.getD_eq_getElem _ _ hlast, ← List.getLast_eq_getElem hx]
    rfl

lemma mem_of_mem_padEven {x : List K} {a : K} (h : a ∈ padEven x) : a ∈ x := by
  by_cases hx : x.length % 2 = 0
  · rwa [padEven_of_even hx] at h
  · have hne : x ≠ [] := by
      rintro rfl
      exact hx rfl
    rw [padEven_of_odd hne hx, List.mem_append, List.mem_singleton] at h
    rcases h with h | rfl
    · exact h
    · exact List.getLast_mem hne

lemma analyze_padEven [Zero K] [Add K] [Sub K] [Mul K] [Neg K] [NatCast K] (filter x : List K) :
    analyze .periodization filter (padEven x) = analyze .periodization filter x := by
  have hlength := length_padEven x
  have heven : padEven (padEven x) = padEven x := padEven_of_even (by omega)
  have hcount : coefficientCount .periodization filter.length (padEven x).length
      = coefficientCount .periodization filter.length x.length := by
    simp only [coefficientCount, if_true]
    omega
  rw [analyze, analyze, hcount]
  simp only [if_true, heven]

end PadEven

section Operations

variable [Zero K] [Add K] [Sub K] [Mul K] [Neg K] [NatCast K]

lemma length_analyze_periodization (filter x : List K) :
    (analyze .periodization filter x).length = (x.length + 1) / 2 := by
  rw [length_analyze, coefficientCount, if_pos rfl]

/-- A coefficient at any position of a band that is repeated, in any arithmetic. -/
lemma wrapped_analyze_eq_weightedSum (filter : List K) {x : List K} {count : ℕ}
    (hcount : 0 < count) (hx : x.length = 2 * count) (k : ℤ) :
    wrapped (analyze .periodization filter x) k
      = weightedSum filter fun j => wrapped x ((filter.length / 2 : ℕ) + 2 * k - j) := by
  have hempty : x ≠ [] := List.length_pos_iff.mp (by omega)
  have hlength : (analyze .periodization filter x).length = count := by
    rw [length_analyze_periodization]
    omega
  have ho := toNat_emod_lt hcount k
  rw [wrapped, hlength, List.getD_eq_getElem _ _ (by rwa [hlength])]
  simp only [analyze, if_true, padEven_of_even (show x.length % 2 = 0 by omega), List.getElem_map,
    List.getElem_range, extend_periodization hempty, windowStart]
  refine congrArg (weightedSum filter) (funext fun j => ?_)
  -- the window has moved on by a multiple of the length
  have hnonneg := Int.emod_nonneg k (show (count : ℤ) ≠ 0 by omega)
  have hposition : ((filter.length / 2 : ℕ) + 2 * k - j : ℤ)
      = ((filter.length / 2 + 2 * (k % count).toNat : ℕ) - j : ℤ) + x.length * (k / count) := by
    have hdivision := Int.emod_add_mul_ediv k count
    rw [hx]
    push_cast [Int.toNat_of_nonneg hnonneg]
    linear_combination -2 * hdivision
  rw [hposition, wrapped_add_mul]

end Operations

variable [CommRing K]

/-! ### Bands and signals that are repeated -/

lemma wrapped_analyze (filter : List K) {x : List K} {count : ℕ} (hcount : 0 < count)
    (hx : x.length = 2 * count) (k : ℤ) :
    wrapped (analyze .periodization filter x) k
      = ∑ j ∈ range filter.length,
          filter.getD j 0 * wrapped x ((filter.length / 2 : ℕ) + 2 * k - j) := by
  rw [wrapped_analyze_eq_weightedSum filter hcount hx, weightedSum_eq_sum]

/-- Of all positions at a distance of two, the repetition holds one, if the parity is right. -/
lemma sum_at_position {count : ℕ} (hcount : 0 < count) (w : ℤ) (f : ℕ → K) :
    ∑ o ∈ range count, (if 2 * (o : ℤ) % (2 * count : ℕ) = w % (2 * count : ℕ) then f o else 0)
      = if w % 2 = 0 then f (w / 2 % count).toNat else 0 := by
  split
  · rename_i hpar
    obtain ⟨v, rfl⟩ : ∃ v, w = 2 * v := ⟨w / 2, by omega⟩
    have hiff : ∀ o ∈ range count, (2 * (o : ℤ) % (2 * count : ℕ) = 2 * v % (2 * count : ℕ)
        ↔ o = (v % count).toNat) := by
      intro o ho
      rw [mem_range] at ho
      have hnonneg := Int.emod_nonneg v (show (count : ℤ) ≠ 0 by omega)
      push_cast
      rw [Int.mul_emod_mul_of_pos _ _ two_pos, Int.mul_emod_mul_of_pos _ _ two_pos,
        Int.emod_eq_of_lt (by omega) (by omega)]
      omega
    rw [Int.mul_ediv_cancel_left v two_ne_zero,
      sum_congr rfl fun o ho => if_congr (hiff o ho) rfl rfl, sum_ite_eq']
    exact if_pos (mem_range.mpr (toNat_emod_lt hcount v))
  · rename_i hpar
    refine sum_eq_zero fun o _ => if_neg fun heq => hpar ?_
    have hdvd : (2 : ℤ) ∣ (2 * count : ℕ) := ⟨count, by push_cast; ring⟩
    rw [← Int.emod_emod_of_dvd w hdvd, ← heq, Int.emod_emod_of_dvd _ hdvd, Int.mul_emod_right]

lemma wrapped_synthesizePeriodized {bank : FilterBank K}
    (hbank : bank.high.length = bank.low.length) {approx detail : List K} (happrox : approx ≠ [])
    (hbands : detail.length = approx.length) (k : ℤ) :
    wrapped (synthesizePeriodized bank approx detail) k
      = ∑ j ∈ range bank.size, if (k + j - (bank.size / 2 : ℕ)) % 2 = 0 then
          bank.low.getD j 0 * wrapped approx ((k + j - (bank.size / 2 : ℕ)) / 2)
            + bank.high.getD j 0 * wrapped detail ((k + j - (bank.size / 2 : ℕ)) / 2)
        else 0 := by
  have hpos : 0 < approx.length := List.length_pos_iff.mpr happrox
  rw [wrapped, length_synthesizePeriodized hbank hbands,
    getD_synthesizePeriodized hbank hbands (toNat_emod_lt (by omega) k), sum_comm]
  refine sum_congr rfl fun j _ => ?_
  have hmeets : ∀ o : ℕ, ((windowStart .periodization bank.size o - j)
      % (2 * approx.length : ℕ)).toNat = (k % (2 * approx.length : ℕ)).toNat
      ↔ 2 * (o : ℤ) % (2 * approx.length : ℕ)
        = (k + j - (bank.size / 2 : ℕ)) % (2 * approx.length : ℕ) := by
    intro o
    have hstart : windowStart .periodization bank.size o - j + (j - (bank.size / 2 : ℕ))
        = 2 * (o : ℤ) := by
      rw [windowStart, if_pos rfl]
      omega
    have hshift := Int.emod_add_cancel_right (m := windowStart .periodization bank.size o - j)
      (n := (2 * approx.length : ℕ)) (k := k) (j - (bank.size / 2 : ℕ) : ℤ)
    rw [hstart, ← add_sub_assoc] at hshift
    have hleft := Int.emod_nonneg (windowStart .periodization bank.size o - j)
      (show ((2 * approx.length : ℕ) : ℤ) ≠ 0 by omega)
    have hright := Int.emod_nonneg k (show ((2 * approx.length : ℕ) : ℤ) ≠ 0 by omega)
    rw [hshift]
    omega
  simp only [hmeets]
  rw [sum_at_position hpos (k + j - (bank.size / 2 : ℕ))
    fun o => bank.low.getD j 0 * approx.getD o 0 + bank.high.getD j 0 * detail.getD o 0]
  simp only [wrapped, hbands]

/-! ### One direction after the other -/

variable {low : List K}

/-- A sample of the reconstruction of a signal of even length from its own coefficients: the
samples around it, each weighed by the pairs of taps at its distance. -/
lemma wrapped_synthesizePeriodized_analyze (hlow : Even low.length) {x : List K} {count : ℕ}
    (hcount : 0 < count) (hx : x.length = 2 * count) (k : ℤ) :
    wrapped (synthesizePeriodized (.ofLow low) (analyze .periodization low x)
        (analyze .periodization (quadratureMirror low) x)) k
      = pairSum low low fun t => wrapped x (k + t) := by
  have hlength : ∀ filter : List K, (analyze .periodization filter x).length = count := by
    intro filter
    rw [length_analyze_periodization]
    omega
  have hbank : (FilterBank.ofLow low).high.length = (FilterBank.ofLow low).low.length :=
    length_quadratureMirror low
  have hbands : (analyze .periodization (quadratureMirror low) x).length
      = (analyze .periodization low x).length := by
    rw [hlength, hlength]
  have happrox : analyze .periodization low x ≠ [] :=
    List.length_pos_iff.mp (by rwa [hlength])
  -- the sample `t` positions after `k` meets every pair of taps at the distance `t`
  rw [wrapped_synthesizePeriodized hbank happrox hbands,
    ← sum_both_apply hlow (((low.length / 2 : ℕ) - k) % 2 : ℤ).toNat fun t => wrapped x (k + t)]
  simp only [FilterBank.size, FilterBank.ofLow, wrapped_analyze _ hcount hx,
    length_quadratureMirror]
  refine sum_congr rfl fun j _ => ?_
  have hparity : (k + j - (low.length / 2 : ℕ)) % 2 = 0
      ↔ j % 2 = (((low.length / 2 : ℕ) - k) % 2 : ℤ).toNat % 2 := by
    omega
  simp only [hparity]
  split
  · have hposition : ∀ i : ℕ, (low.length / 2 : ℕ) + 2 * ((k + j - (low.length / 2 : ℕ)) / 2) - i
        = k + (j - i : ℤ) := by
      intro i
      omega
    simp only [hposition]
  · rfl

lemma length_synthesizePeriodized_analyze (low : List K) {x : List K} (hx : x.length % 2 = 0) :
    (synthesizePeriodized (.ofLow low) (analyze .periodization low x)
      (analyze .periodization (quadratureMirror low) x)).length = x.length := by
  rw [length_synthesizePeriodized (length_quadratureMirror low)
    ((length_analyze_periodization _ x).trans (length_analyze_periodization _ x).symm),
    length_analyze_periodization]
  omega

lemma synthesizePeriodized_analyze (h : Orthonormal low) {x : List K} {count : ℕ}
    (hcount : 0 < count) (hx : x.length = 2 * count) :
    synthesizePeriodized (.ofLow low) (analyze .periodization low x)
      (analyze .periodization (quadratureMirror low) x) = x := by
  refine ext_wrapped (length_synthesizePeriodized_analyze low (by omega)) fun k => ?_
  rw [wrapped_synthesizePeriodized_analyze h.even_length hcount hx, h.pairSum_low, add_zero]

/-- A coefficient of any filter of a reconstruction, as two sums over pairs of taps. -/
lemma wrapped_analyze_synthesizePeriodized {bank : FilterBank K}
    (hbank : bank.high.length = bank.low.length) {filter : List K}
    (hfilter : filter.length = bank.low.length) {approx detail : List K} (happrox : approx ≠ [])
    (hbands : detail.length = approx.length) (k : ℤ) :
    wrapped (analyze .periodization filter (synthesizePeriodized bank approx detail)) k
      = pairSum bank.low filter (fun t => wrapped approx (k + t / 2))
        + pairSum bank.high filter (fun t => wrapped detail (k + t / 2)) := by
  have hpos : 0 < approx.length := List.length_pos_iff.mpr happrox
  rw [wrapped_analyze filter hpos (length_synthesizePeriodized hbank hbands)]
  simp only [wrapped_synthesizePeriodized hbank happrox hbands, mul_sum]
  rw [sum_comm, pairSum, pairSum, hbank, ← sum_add_distrib]
  refine sum_congr rfl fun i _ => ?_
  rw [← sum_add_distrib]
  refine sum_congr rfl fun j _ => ?_
  have hposition : ((filter.length / 2 : ℕ) + 2 * k - j + i - (bank.size / 2 : ℕ) : ℤ)
      = 2 * k + (i - j) := by
    rw [FilterBank.size, hfilter]
    ring
  have hparity : (2 * k + (i - j : ℤ)) % 2 = 0 ↔ i % 2 = j % 2 := by omega
  have hhalf : (2 * k + (i - j : ℤ)) / 2 = k + (i - j) / 2 := by omega
  rw [hposition, hhalf]
  simp only [hparity]
  split
  · ring
  · rw [mul_zero, add_zero]

lemma analyze_synthesizePeriodized (h : Orthonormal low) {approx detail : List K}
    (happrox : approx ≠ []) (hbands : detail.length = approx.length) :
    analyze .periodization low (synthesizePeriodized (.ofLow low) approx detail) = approx ∧
      analyze .periodization (quadratureMirror low)
        (synthesizePeriodized (.ofLow low) approx detail) = detail := by
  have hbank : (FilterBank.ofLow low).high.length = (FilterBank.ofLow low).low.length :=
    length_quadratureMirror low
  have hlength : ∀ filter : List K, (analyze .periodization filter
      (synthesizePeriodized (.ofLow low) approx detail)).length = approx.length := by
    intro filter
    rw [length_analyze_periodization, length_synthesizePeriodized hbank hbands]
    omega
  constructor
  · refine ext_wrapped (hlength low) fun k => ?_
    have hfilter : low.length = (FilterBank.ofLow low).low.length := rfl
    rw [wrapped_analyze_synthesizePeriodized hbank hfilter happrox hbands, FilterBank.ofLow,
      h.pairSum_low, pairSum_high_low h.even_length, add_zero]
    exact congrArg _ (add_zero k)
  · refine ext_wrapped ((hlength _).trans hbands.symm) fun k => ?_
    have hfilter : (quadratureMirror low).length = (FilterBank.ofLow low).low.length := hbank
    rw [wrapped_analyze_synthesizePeriodized hbank hfilter happrox hbands, FilterBank.ofLow,
      pairSum_low_high h.even_length, pairSum_high, h.pairSum_low, zero_add]
    exact congrArg _ (add_zero k)

/-- **Periodization is a bijection** between the signals of even length and the pairs of bands of
one length, and a signal of odd length comes back with its last sample repeated. -/
theorem FilterBank.periodization_bijection (h : Orthonormal low) :
    (∀ (x : List K) (hx : x ≠ []), ∃ approx detail,
      (ofLow low).forward .periodization x = .ok (approx, detail) ∧
      (ofLow low).inverse .periodization approx detail
        = .ok (if x.length % 2 = 0 then x else x ++ [x.getLast hx])) ∧
    (∀ approx detail : List K, approx ≠ [] → detail.length = approx.length → ∃ x,
      (ofLow low).inverse .periodization approx detail = .ok x ∧
      (ofLow low).forward .periodization x = .ok (approx, detail)) := by
  constructor
  · intro x hx
    have hpos : 0 < x.length := List.length_pos_iff.mpr hx
    have happrox : analyze .periodization low x ≠ [] :=
      List.length_pos_iff.mp (by rw [length_analyze_periodization]; omega)
    have hbands : (analyze .periodization (quadratureMirror low) x).length
        = (analyze .periodization low x).length := by
      rw [length_analyze_periodization, length_analyze_periodization]
    refine ⟨_, _, forward_eq_ok hx, ?_⟩
    rw [ofLow, inverse_periodization_eq_ok happrox hbands, ← analyze_padEven low x,
      ← analyze_padEven (quadratureMirror low) x, ← ofLow,
      synthesizePeriodized_analyze h (by omega) (length_padEven x)]
    split
    · rename_i heven
      rw [padEven_of_even heven]
    · rename_i hodd
      rw [padEven_of_odd hx hodd]
  · intro approx detail happrox hbands
    have hpos : 0 < approx.length := List.length_pos_iff.mpr happrox
    obtain ⟨hlow, hhigh⟩ := analyze_synthesizePeriodized h happrox hbands
    have hx : synthesizePeriodized (ofLow low) approx detail ≠ [] := by
      refine List.length_pos_iff.mp ?_
      rw [length_synthesizePeriodized (length_quadratureMirror low) hbands]
      omega
    refine ⟨_, inverse_periodization_eq_ok happrox hbands, ?_⟩
    rw [forward_eq_ok hx]
    exact congrArg Except.ok (Prod.ext hlow hhigh)

/-- A filter of four taps on signals of two samples, around which its window goes twice. -/
theorem FilterBank.periodization_bijection_rotations :
    (∃ approx detail : List ℚ,
      (ofLow [3 / 13, 36 / 65, -(48 / 65), 4 / 13]).forward .periodization [7]
        = .ok (approx, detail) ∧
      (ofLow [3 / 13, 36 / 65, -(48 / 65), 4 / 13]).inverse .periodization approx detail
        = .ok [7, 7]) ∧
    (∃ x : List ℚ,
      (ofLow [3 / 13, 36 / 65, -(48 / 65), 4 / 13]).inverse .periodization [1] [2] = .ok x ∧
      (ofLow [3 / 13, 36 / 65, -(48 / 65), 4 / 13]).forward .periodization x = .ok ([1], [2])) :=
  have h := periodization_bijection orthonormal_rational
  ⟨h.1 [7] (List.cons_ne_nil 7 []), h.2 [1] [2] (List.cons_ne_nil 1 []) rfl⟩

end WaveletPrecision
