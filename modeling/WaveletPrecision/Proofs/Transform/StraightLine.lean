import Mathlib.Analysis.Real.Sqrt
import Mathlib.Tactic.FieldSimp
import WaveletPrecision.Proofs.Transform.Linear

/-
Transforms of straight lines.

A signal on a straight line is continued along the line when the extension is smooth, and no
rounding is involved in exact arithmetic, so its extension is on the line at every distance
(`OnLine.extend_smooth`).  The edge of a band is then no edge at all: every coefficient meets the
line, and a filter with two vanishing moments finds nothing on it (`HasVanishingMoments`).

A lifting step makes a straight line from two of them (`OnLine.lift`), since the part that it reads
is continued on its line too, whether this part is the longer one or the shorter one.  The two
halves of a line are lines, so the parts of a signal stay on lines step by step, and in the
four-tap scheme the line of the odd part is zero after its step (`OnLine.runSteps_daubechies2`).

`detail_of_line` is the statement on both kinds of transforms.
-/
namespace WaveletPrecision

open Finset

/-- The elements of a list lie on a straight line over their places. -/
def OnLine {K : Type} [CommRing K] (slope offset : K) (x : List K) : Prop :=
  ∀ i < x.length, x.getD i 0 = slope * i + offset

/-- The signal of `n` samples on a straight line. -/
def lineSignal {K : Type} [CommRing K] (slope offset : K) (n : ℕ) : List K :=
  (List.range n).map fun i : ℕ => slope * i + offset

section Ring

variable {K : Type} [CommRing K] {slope offset : K} {x : List K}

@[simp] lemma length_lineSignal (n : ℕ) : (lineSignal slope offset n).length = n := by
  simp [lineSignal]

lemma onLine_lineSignal (slope offset : K) (n : ℕ) :
    OnLine slope offset (lineSignal slope offset n) := by
  intro i hi
  rw [List.getD_eq_getElem _ _ hi]
  simp [lineSignal]

/-! ### The extension of a line -/

/-- **A smooth extension continues a line** at every distance from it, on both sides. -/
lemma OnLine.extend_smooth (h : OnLine slope offset x) (hlength : 2 ≤ x.length) (k : ℤ) :
    extend .smooth x.toArray k = slope * k + offset := by
  rw [extend_eq_value .smooth (show 0 < x.length by omega) rfl, BoundaryMode.reading.eq_def]
  split
  · rename_i hinside
    have hk : ((k.toNat : ℤ) : K) = k := congrArg Int.cast (Int.toNat_of_nonneg hinside.1)
    rw [Int.cast_natCast] at hk
    simp only [Reading.value]
    rw [h _ (by omega), hk]
  · rename_i houtside
    simp only [show x.length ≠ 1 by omega, ↓reduceDIte]
    split
    · -- before the first sample, along the first two of them
      have hk : (((-k).toNat : ℤ) : K) = (-k : ℤ) := congrArg Int.cast (by omega)
      rw [Int.cast_natCast] at hk
      simp only [Reading.value]
      rw [h 0 (by omega), h 1 (by omega), hk]
      push_cast
      ring
    · -- behind the last sample, along the last two of them
      obtain ⟨m, hm⟩ : ∃ m, x.length = m + 2 := ⟨x.length - 2, by omega⟩
      have hk : (((k - x.length + 1).toNat : ℤ) : K) = (k - (m + 1) : ℤ) :=
        congrArg Int.cast (by omega)
      rw [Int.cast_natCast] at hk
      simp only [Reading.value]
      rw [h _ (by omega), h _ (by omega), hk, show x.length - 1 = m + 1 by omega,
        show x.length - 2 = m by omega]
      push_cast
      ring

lemma extend_smooth_singleton (a : K) (k : ℤ) : extend .smooth #[a] k = a := by
  rw [extend_eq_value (x := [a]) .smooth Nat.one_pos rfl, BoundaryMode.reading.eq_def]
  split
  · rename_i hinside
    obtain rfl : k = 0 := by omega
    rfl
  · rfl

/-- The extension of a line is a line, level if a single sample leaves the slope open. -/
lemma exists_extend_lineSignal (slope offset : K) {n : ℕ} (hn : 1 ≤ n) :
    ∃ slope', ∀ k : ℤ,
      extend .smooth (lineSignal slope offset n).toArray k = slope' * k + offset := by
  rcases hn.eq_or_lt with rfl | hn
  · refine ⟨0, fun k => ?_⟩
    have hsingle : lineSignal slope offset 1 = [offset] := by simp [lineSignal]
    rw [hsingle, extend_smooth_singleton, zero_mul, zero_add]
  · exact ⟨slope, (onLine_lineSignal slope offset n).extend_smooth (by rwa [length_lineSignal])⟩

/-! ### Filter banks -/

/-- The taps of a filter add up to zero, and so do the taps times their places. -/
structure HasVanishingMoments (taps : List K) : Prop where
  sum_eq : ∑ j ∈ range taps.length, taps.getD j 0 = 0
  moment_eq : ∑ j ∈ range taps.length, (j : K) * taps.getD j 0 = 0

/-- A filter with two vanishing moments finds nothing on a line. -/
lemma HasVanishingMoments.weightedSum_line {taps : List K} (h : HasVanishingMoments taps)
    (slope offset : K) (k : ℤ) :
    weightedSum taps (fun j => slope * (k - j : ℤ) + offset) = 0 := by
  have hterm : ∀ j : ℕ, taps.getD j 0 * (slope * (k - j : ℤ) + offset)
      = (slope * k + offset) * taps.getD j 0 - slope * (j * taps.getD j 0) := by
    intro j
    push_cast
    ring
  rw [weightedSum_eq_sum, sum_congr rfl fun j _ => hterm j, sum_sub_distrib, ← mul_sum, ← mul_sum,
    h.sum_eq, h.moment_eq]
  ring

/-- **A band of a line**, from a filter with two vanishing moments. -/
lemma analyze_lineSignal {taps : List K} (h : HasVanishingMoments taps) (slope offset : K) {n : ℕ}
    (hn : 1 ≤ n) :
    analyze .smooth taps (lineSignal slope offset n)
      = List.replicate (coefficientCount .smooth taps.length n) 0 := by
  rw [List.eq_replicate_iff]
  refine ⟨by rw [length_analyze, length_lineSignal], fun c hc => ?_⟩
  obtain ⟨o, ho, rfl⟩ := List.getElem_of_mem hc
  obtain ⟨slope', hline⟩ := exists_extend_lineSignal slope offset hn
  rw [← List.getD_eq_getElem _ 0 ho,
    getD_analyze_of_ne (by decide) (by rwa [length_analyze] at ho)]
  simp only [hline]
  exact_mod_cast h.weightedSum_line slope' offset (2 * o + 1)

/-! ### Lifting steps -/

lemma OnLine.deinterleave (h : OnLine slope offset x) :
    OnLine (2 * slope) offset (deinterleave x).1 ∧
      OnLine (2 * slope) (slope + offset) (deinterleave x).2 := by
  obtain ⟨heven, hodd⟩ := length_deinterleave x
  constructor
  · intro i hi
    rw [(getD_deinterleave x i).1, h _ (by omega)]
    push_cast
    ring
  · intro i hi
    rw [(getD_deinterleave x i).2, h _ (by omega)]
    push_cast
    ring

/-- **A lifting step makes a line from two lines**, if it looks ahead by one sample at the most. -/
lemma OnLine.lift {slope' offset' : K} {source : List K} (h : OnLine slope offset x)
    (hsource : OnLine slope' offset' source) (hlength : 2 ≤ source.length) {stencil : Stencil K}
    (hshift : stencil.shift ≤ 1) :
    OnLine (slope + slope' * ∑ j ∈ range stencil.taps.length, stencil.taps.getD j 0)
      (offset + ∑ j ∈ range stencil.taps.length,
        stencil.taps.getD j 0 * (slope' * (stencil.shift + j) + offset'))
      (stencil.lift .smooth (· + ·) x source) := by
  intro i hi
  have hi' : i < x.length := by rwa [Stencil.length_lift] at hi
  have hx := h i hi'
  rw [List.getD_eq_getElem _ _ hi'] at hx
  have hterm : ∀ j : ℕ, stencil.taps.getD j 0 * (slope' * (i + stencil.shift + j : ℤ) + offset')
      = slope' * i * stencil.taps.getD j 0
        + stencil.taps.getD j 0 * (slope' * (stencil.shift + j) + offset') := by
    intro j
    push_cast
    ring
  have happly : stencil.apply .smooth source.toArray i
      = slope' * i * ∑ j ∈ range stencil.taps.length, stencil.taps.getD j 0
        + ∑ j ∈ range stencil.taps.length,
          stencil.taps.getD j 0 * (slope' * (stencil.shift + j) + offset') := by
    rw [Stencil.apply, weightedSum_eq_sum, mul_sum, ← sum_add_distrib]
    refine sum_congr rfl fun j _ => ?_
    rw [hsource.extend_smooth hlength, Stencil.position_of_shift_le_one hshift, hterm]
  rw [List.getD_eq_getElem _ _ hi]
  simp only [Stencil.lift, List.getElem_mapIdx, hx, happly]
  ring

end Ring

section Field

variable {K : Type} [Field K] [CharZero K] {root3 slope offset : K} {x : List K}

/-- **The four-tap scheme leaves no detail on a line**, if both parts have two samples to continue
their lines. -/
lemma OnLine.runSteps_daubechies2 (h : OnLine slope offset x) (root2 : K) (h3 : root3 ^ 2 = 3)
    (hlength : 4 ≤ x.length) :
    ((LiftingScheme.daubechies2 root3 root2).runSteps .smooth (WaveletPrecision.deinterleave x)).2
      = List.replicate (x.length / 2) 0 := by
  obtain ⟨heven, hodd⟩ := h.deinterleave
  obtain ⟨hevenLength, hoddLength⟩ := length_deinterleave x
  -- the even part after its first step, and the odd part after its step
  let update : Stencil K := ⟨[root3], 0⟩
  let predict : Stencil K := ⟨[-(root3 - (2 : ℕ)) / (4 : ℕ), -root3 / (4 : ℕ)], -1⟩
  let even₁ := update.lift .smooth (· + ·) (WaveletPrecision.deinterleave x).1
    (WaveletPrecision.deinterleave x).2
  let odd₁ := predict.lift .smooth (· + ·) (WaveletPrecision.deinterleave x).2 even₁
  have hparts : ((LiftingScheme.daubechies2 root3 root2).runSteps .smooth
      (WaveletPrecision.deinterleave x)).2 = odd₁.map (· * ((root3 + (1 : ℕ)) / root2)) := rfl
  have heven₁Length : even₁.length = (x.length + 1) / 2 :=
    (Stencil.length_lift ..).trans hevenLength
  have hodd₁Length : odd₁.length = x.length / 2 := (Stencil.length_lift ..).trans hoddLength
  have heven₁ : OnLine (2 * slope * (1 + root3)) (offset + root3 * (slope + offset)) even₁ := by
    have hlift := heven.lift hodd (by omega) (show update.shift ≤ 1 by norm_num [update])
    simp only [update, List.length_singleton, sum_range_one, List.getD_cons_zero, Int.cast_zero,
      Nat.cast_zero, mul_zero, zero_add] at hlift
    convert hlift using 1
    ring
  -- the root of three makes both the slope and the offset vanish
  have hodd₁ : OnLine 0 0 odd₁ := by
    have hlift := hodd.lift heven₁ (by omega) (show predict.shift ≤ 1 by norm_num [predict])
    simp only [predict, List.length_cons, List.length_nil, sum_range_succ, sum_range_zero,
      List.getD_cons_zero, List.getD_cons_succ, zero_add] at hlift
    convert hlift using 1
    · push_cast
      linear_combination slope * h3
    · push_cast
      linear_combination offset / 2 * h3
  rw [hparts, List.eq_replicate_iff]
  refine ⟨by rw [List.length_map, hodd₁Length], fun c hc => ?_⟩
  obtain ⟨a, ha, rfl⟩ := List.mem_map.mp hc
  obtain ⟨i, hi, rfl⟩ := List.getElem_of_mem ha
  rw [← List.getD_eq_getElem _ 0 hi, hodd₁ i hi]
  ring

/-- **A smooth extension leaves no detail on straight lines**, whether the transform is that of a
filter bank whose high-pass filter has two vanishing moments, for any number of samples, or that of
the four-tap lifting scheme, from four samples on.  The second root of the scheme only scales its
bands, so nothing is asked of it. -/
theorem detail_of_line (slope offset : K) :
    (∀ (bank : FilterBank K) (n : ℕ), HasVanishingMoments bank.high → 1 ≤ n →
      ∃ approx, bank.forward .smooth (lineSignal slope offset n)
        = .ok (approx, List.replicate ((n + bank.high.length - 1) / 2) 0)) ∧
    ∀ (root3 root2 : K) (n : ℕ), root3 ^ 2 = 3 → 4 ≤ n →
      ∃ approx, (LiftingScheme.daubechies2 root3 root2).forward .smooth (lineSignal slope offset n)
        = .ok (approx, List.replicate (n / 2) 0) := by
  have hne : ∀ n : ℕ, 1 ≤ n → lineSignal slope offset n ≠ [] := by
    intro n hn
    exact List.length_pos_iff.mp (by rwa [length_lineSignal])
  constructor
  · intro bank n hmoments hn
    rw [FilterBank.forward_eq_ok (hne n hn), analyze_lineSignal hmoments slope offset hn]
    exact ⟨_, rfl⟩
  · intro root3 root2 n h3 hn
    have hline := (onLine_lineSignal slope offset n).runSteps_daubechies2 root2 h3
      (by rwa [length_lineSignal])
    rw [length_lineSignal] at hline
    rw [LiftingScheme.forward_eq_ok .smooth (hne n (by omega)), ← hline]
    exact ⟨_, rfl⟩

end Field

/-- A single sample under a filter with two vanishing moments, and five real samples, whose parts
are of three and of two samples, under the lifting scheme. -/
theorem detail_of_line_five :
    HasVanishingMoments ([1, -2, 1] : List ℝ) ∧ (√3 : ℝ) ^ 2 = 3 ∧
      (∃ approx, (⟨[1, 1], [1, -2, 1]⟩ : FilterBank ℝ).forward .smooth (lineSignal 7 2 1)
        = .ok (approx, [0])) ∧
      ∃ approx, (LiftingScheme.daubechies2 (√3) (√2)).forward .smooth (lineSignal 7 2 5)
        = .ok (approx, [(0 : ℝ), 0]) := by
  have hmoments : HasVanishingMoments ([1, -2, 1] : List ℝ) := by
    constructor <;> norm_num [sum_range_succ]
  have h3 : (√3 : ℝ) ^ 2 = 3 := Real.sq_sqrt (by norm_num)
  obtain ⟨hbank, hscheme⟩ := detail_of_line (7 : ℝ) 2
  exact ⟨hmoments, h3, hbank ⟨[1, 1], [1, -2, 1]⟩ 1 hmoments le_rfl,
    hscheme (√3) (√2) 5 h3 (by norm_num)⟩

end WaveletPrecision
