import Mathlib.Algebra.BigOperators.Intervals
import Mathlib.Algebra.BigOperators.Ring.Finset
import Mathlib.Algebra.Ring.Parity
import Mathlib.Data.List.GetD
import Mathlib.Tactic.LinearCombination
import Mathlib.Tactic.NormNum
import Mathlib.Tactic.Ring
import WaveletPrecision.FilterBank.Basic

/-
Sums over pairs of taps of an orthogonal filter bank.

Taking a signal apart and putting it together again, in either order, pairs every tap of a
filter with every tap of a filter and weighs the pair by something that depends on the
distance of the two taps alone.  Coefficients are two samples apart, so it depends on the
parity of the two positions whether a pair contributes.  This file evaluates such sums for
the low-pass filter `low` and its quadrature mirror `high`, over a commutative ring and for
any weight `e` of the distances:

* `pairSum` is the sum over the pairs at an even distance;
* `sum_both`: over the pairs whose first tap has a given parity, the two filters together
  give what the low-pass filter gives over the pairs at an even distance;
* `pairSum_self`: a filter against itself gives its `autocorrelation`, each value times the
  weight at its distance;
* `Orthonormal.pairSum_low`: the low-pass filter against itself gives the weight at distance
  zero, and `pairSum_high`: so does its mirror;
* `pairSum_low_high` and `pairSum_high_low`: two different filters give nothing.

Two rotations make an orthonormal filter of four taps (`orthonormal_of_rotations`), so that
there are such filters over the rational numbers too (`orthonormal_rational`).
-/
namespace WaveletPrecision

open Finset

variable {K : Type} [CommRing K]

/-- A low-pass filter with an even number of taps, of norm one and orthogonal to its shifts by
two, four, six, … samples.  Taps beyond the last one are zero. -/
structure Orthonormal (low : List K) : Prop where
  even_length : Even low.length
  shift : ∀ k, ∑ j ∈ range low.length, low.getD j 0 * low.getD (j + 2 * k) 0
    = if k = 0 then 1 else 0

/-- The filter of two rotations, which are given by their cosines and sines. -/
lemma orthonormal_of_rotations {p q c s : K} (hp : p ^ 2 + q ^ 2 = 1) (hc : c ^ 2 + s ^ 2 = 1) :
    Orthonormal [p * c, p * s, -(q * s), q * c] where
  even_length := ⟨2, rfl⟩
  shift := by
    rintro (_ | _ | k)
    · have hnorm : p * c * (p * c) + p * s * (p * s) + q * s * (q * s) + q * c * (q * c) = 1 := by
        linear_combination hc + (c ^ 2 + s ^ 2) * hp
      simpa [sum_range_succ] using hnorm
    · have horthogonal : p * c * -(q * s) + p * s * (q * c) = 0 := by ring
      simpa [sum_range_succ] using horthogonal
    · refine sum_eq_zero fun j _ => ?_
      rw [List.getD_eq_default _ _ (by simp; omega : _ ≤ j + 2 * (k + 2)), mul_zero]

/-- Two rotations by angles of rational cosine and sine. -/
lemma orthonormal_rational : Orthonormal ([3 / 13, 36 / 65, -(48 / 65), 4 / 13] : List ℚ) := by
  have h := orthonormal_of_rotations (p := (3 / 5 : ℚ)) (q := 4 / 5) (c := 5 / 13) (s := 12 / 13)
    (by norm_num) (by norm_num)
  norm_num at h ⊢
  exact h

/-! ### The quadrature mirror -/

@[simp] lemma length_quadratureMirror {A : Type} [Neg A] (low : List A) :
    (quadratureMirror low).length = low.length := by
  simp [quadratureMirror, alternate]

lemma map_quadratureMirror {A B : Type} [Neg A] [Neg B] {f : A → B} (hf : ∀ a, f (-a) = -f a)
    (low : List A) : (quadratureMirror low).map f = quadratureMirror (low.map f) := by
  rw [quadratureMirror, quadratureMirror, List.map_reverse]
  refine congrArg List.reverse (List.ext_getElem (by simp [alternate]) fun k _ _ => ?_)
  simp only [alternate, List.getElem_map, List.getElem_mapIdx]
  split
  · rfl
  · exact hf _

lemma neg_one_pow_mod_two (n : ℕ) : (-1 : K) ^ n = if n % 2 = 0 then 1 else -1 := by
  rcases Nat.even_or_odd n with h | h
  · rw [h.neg_one_pow, if_pos (Nat.even_iff.mp h)]
  · rw [h.neg_one_pow, if_neg (by rw [Nat.odd_iff.mp h]; decide)]

/-- The mirror reads the taps from the last one on, the sign changing with the place that they
have in the low-pass filter. -/
lemma getD_quadratureMirror {low : List K} {j : ℕ} (hj : j < low.length) :
    (quadratureMirror low).getD j 0
      = (-1) ^ (low.length - 1 - j) * low.getD (low.length - 1 - j) 0 := by
  have hj' : low.length - 1 - j < low.length := by omega
  rw [List.getD_eq_getElem _ _ (by simpa using hj), List.getD_eq_getElem _ _ hj',
    neg_one_pow_mod_two]
  simp only [quadratureMirror, alternate, List.getElem_reverse, List.length_mapIdx,
    List.getElem_mapIdx]
  split <;> simp

/-! ### Pairs of taps -/

/-- The sum over the pairs of taps of two filters at an even distance, each pair weighed by
its distance. -/
def pairSum (p q : List K) (e : ℤ → K) : K :=
  ∑ u ∈ range p.length, ∑ v ∈ range q.length,
    if u % 2 = v % 2 then p.getD u 0 * q.getD v 0 * e (u - v) else 0

lemma pairSum_comm (p q : List K) (e : ℤ → K) :
    pairSum p q e = pairSum q p fun t => e (-t) := by
  rw [pairSum, pairSum, sum_comm]
  refine sum_congr rfl fun v _ => sum_congr rfl fun u _ => if_congr eq_comm ?_ rfl
  rw [neg_sub, mul_comm (q.getD v 0)]

/-- A sum over pairs of positions, run through from the other end and with the two positions
exchanged, so that their difference is kept. -/
lemma sum_pair_reflect (F : ℕ) (f : ℕ → ℕ → K) :
    ∑ u ∈ range F, ∑ v ∈ range F, f u v
      = ∑ u ∈ range F, ∑ v ∈ range F, f (F - 1 - v) (F - 1 - u) := by
  rw [sum_comm]
  rw [← sum_range_reflect (fun v => ∑ u ∈ range F, f u v) F]
  exact sum_congr rfl fun u _ => (sum_range_reflect (fun v => f v (F - 1 - u)) F).symm

section Reflection

variable {F u v : ℕ}

lemma reflect_sub_reflect (hu : u < F) (hv : v < F) :
    ((F - 1 - v : ℕ) : ℤ) - (F - 1 - u : ℕ) = u - v := by
  omega

lemma reflect_mod_two_eq_iff (hu : u < F) (hv : v < F) :
    (F - 1 - v) % 2 = (F - 1 - u) % 2 ↔ u % 2 = v % 2 := by
  omega

end Reflection

variable {low : List K}

lemma high_mul_high_reflect {u v : ℕ} (hu : u < low.length) (hv : v < low.length) :
    (quadratureMirror low).getD (low.length - 1 - v) 0
        * (quadratureMirror low).getD (low.length - 1 - u) 0
      = (-1) ^ (u + v) * (low.getD u 0 * low.getD v 0) := by
  rw [getD_quadratureMirror (by omega), getD_quadratureMirror (by omega),
    show low.length - 1 - (low.length - 1 - v) = v by omega,
    show low.length - 1 - (low.length - 1 - u) = u by omega, pow_add]
  ring

lemma neg_one_pow_add (u v : ℕ) : (-1 : K) ^ (u + v) = if u % 2 = v % 2 then 1 else -1 := by
  rw [neg_one_pow_mod_two]
  exact if_congr (by omega) rfl rfl

/-! ### The sums -/

/-- **The two filters together.**  Of the pairs whose first tap has a given parity, those at an
odd distance cancel between the two filters, and the mirror supplies the pairs at an even
distance that the low-pass filter leaves out. -/
lemma sum_both (hlow : Even low.length) (r : ℕ) (e : ℤ → K) :
    ∑ u ∈ range low.length, ∑ v ∈ range low.length,
        (if u % 2 = r % 2 then (low.getD u 0 * low.getD v 0
          + (quadratureMirror low).getD u 0 * (quadratureMirror low).getD v 0) * e (u - v) else 0)
      = pairSum low low e := by
  have hsplit : ∀ u v : ℕ, (if u % 2 = r % 2 then (low.getD u 0 * low.getD v 0
      + (quadratureMirror low).getD u 0 * (quadratureMirror low).getD v 0) * e (u - v) else 0)
      = (if u % 2 = r % 2 then low.getD u 0 * low.getD v 0 * e (u - v) else 0)
        + (if u % 2 = r % 2 then (quadratureMirror low).getD u 0
          * (quadratureMirror low).getD v 0 * e (u - v) else 0) := by
    intro u v
    split <;> ring
  simp only [hsplit, sum_add_distrib]
  -- the pairs of the mirror are met from the other end, as pairs of the low-pass filter
  rw [sum_pair_reflect low.length (fun u v => if u % 2 = r % 2 then (quadratureMirror low).getD u 0
      * (quadratureMirror low).getD v 0 * e (u - v) else 0)]
  simp only [← sum_add_distrib]
  refine sum_congr rfl fun u hu => sum_congr rfl fun v hv => ?_
  rw [mem_range] at hu hv
  have hparity : (low.length - 1 - v) % 2 = r % 2 ↔ v % 2 ≠ r % 2 := by
    have := Nat.even_iff.mp hlow
    omega
  rw [reflect_sub_reflect hu hv, high_mul_high_reflect hu hv, neg_one_pow_add]
  simp only [hparity]
  rcases Nat.mod_two_eq_zero_or_one u with hu2 | hu2 <;>
    rcases Nat.mod_two_eq_zero_or_one v with hv2 | hv2 <;>
    rcases Nat.mod_two_eq_zero_or_one r with hr2 | hr2 <;>
    simp [hu2, hv2, hr2]

/-- The two filters together, each with what it meets of a signal on the way back and forth:
`e t` is the sample `t` positions after the one that is put together. -/
lemma sum_both_apply (hlow : Even low.length) (r : ℕ) (e : ℤ → K) :
    ∑ u ∈ range low.length, (if u % 2 = r % 2 then
        low.getD u 0 * ∑ v ∈ range low.length, low.getD v 0 * e (u - v)
          + (quadratureMirror low).getD u 0
            * ∑ v ∈ range low.length, (quadratureMirror low).getD v 0 * e (u - v)
      else 0) = pairSum low low e := by
  rw [← sum_both hlow r e]
  refine sum_congr rfl fun u _ => ?_
  split
  · rw [mul_sum, mul_sum, ← sum_add_distrib]
    exact sum_congr rfl fun v _ => by ring
  · rw [sum_const_zero]

lemma pairSum_high (low : List K) (e : ℤ → K) :
    pairSum (quadratureMirror low) (quadratureMirror low) e = pairSum low low e := by
  rw [pairSum, pairSum, length_quadratureMirror, sum_pair_reflect]
  refine sum_congr rfl fun u hu => sum_congr rfl fun v hv => ?_
  rw [mem_range] at hu hv
  rw [reflect_sub_reflect hu hv, high_mul_high_reflect hu hv, neg_one_pow_add]
  simp only [reflect_mod_two_eq_iff hu hv]
  split <;> ring

/-- **The two filters against each other.**  The taps `u` and `v` of a pair and the taps
`F - 1 - v` and `F - 1 - u` cancel, and no pair at an even distance is its own partner. -/
lemma pairSum_low_high (hlow : Even low.length) (e : ℤ → K) :
    pairSum low (quadratureMirror low) e = 0 := by
  have heven := Nat.even_iff.mp hlow
  rw [pairSum, length_quadratureMirror, ← sum_product']
  refine sum_involution (fun p _ => (low.length - 1 - p.2, low.length - 1 - p.1)) ?_ ?_ ?_ ?_
  · rintro ⟨u, v⟩ huv
    obtain ⟨hu, hv⟩ : u < low.length ∧ v < low.length := by simpa using huv
    simp only [reflect_sub_reflect hu hv, reflect_mod_two_eq_iff hu hv]
    split
    · rename_i hpar
      rw [getD_quadratureMirror hv, getD_quadratureMirror (by omega : low.length - 1 - u < _),
        show low.length - 1 - (low.length - 1 - u) = u by omega, neg_one_pow_mod_two,
        neg_one_pow_mod_two]
      rcases Nat.mod_two_eq_zero_or_one u with hu2 | hu2
      · rw [if_neg (by omega), if_pos hu2]
        ring
      · rw [if_pos (by omega), if_neg (by omega)]
        ring
    · exact add_zero 0
  · rintro ⟨u, v⟩ huv hne heq
    obtain ⟨hu, hv⟩ : u < low.length ∧ v < low.length := by simpa using huv
    have hpar : u % 2 = v % 2 := by
      by_contra hpar
      exact hne (if_neg hpar)
    have hfst : low.length - 1 - v = u := congrArg Prod.fst heq
    omega
  · rintro ⟨u, v⟩ huv
    obtain ⟨hu, hv⟩ : u < low.length ∧ v < low.length := by simpa using huv
    simp only [mem_product, mem_range]
    omega
  · rintro ⟨u, v⟩ huv
    obtain ⟨hu, hv⟩ : u < low.length ∧ v < low.length := by simpa using huv
    simp only [Prod.mk.injEq]
    omega

lemma pairSum_high_low (hlow : Even low.length) (e : ℤ → K) :
    pairSum (quadratureMirror low) low e = 0 := by
  rw [pairSum_comm, pairSum_low_high hlow]

/-! ### One filter against itself -/

/-- The sum over the pairs of taps of one filter at the distance `2 * k`.  Taps beyond the last
one are zero. -/
def autocorrelation (low : List K) (k : ℕ) : K :=
  ∑ j ∈ range low.length, low.getD j 0 * low.getD (j + 2 * k) 0

/-- The pairs of taps of which the second one stands `2 * k` places behind the first one, each
times a factor. -/
lemma sum_at_distance (low : List K) (k : ℕ) (c : K) :
    ∑ u ∈ range low.length, ∑ v ∈ range low.length,
      (if v = u + 2 * k then low.getD u 0 * low.getD v 0 * c else 0)
      = autocorrelation low k * c := by
  rw [autocorrelation, sum_mul]
  refine sum_congr rfl fun u _ => ?_
  rw [sum_ite_eq']
  split
  · rfl
  · rename_i hlong
    have hzero : low.getD (u + 2 * k) 0 = 0 := List.getD_eq_default low 0 (by simpa using hlong)
    rw [hzero, mul_zero, zero_mul]

lemma sum_at_distance_swap (low : List K) (k : ℕ) (c : K) :
    ∑ u ∈ range low.length, ∑ v ∈ range low.length,
      (if u = v + 2 * k then low.getD u 0 * low.getD v 0 * c else 0)
      = autocorrelation low k * c := by
  rw [← sum_at_distance low k c, sum_comm]
  refine sum_congr rfl fun v _ => sum_congr rfl fun u _ => ?_
  rw [mul_comm (low.getD u 0)]

/-- A position behind another one, at an even distance, is found by the distance. -/
lemma sum_behind {F u v : ℕ} (hv : v < F) (f : ℕ → K) :
    ∑ k ∈ range (F / 2), (if v = u + 2 * (k + 1) then f k else 0)
      = if u < v ∧ u % 2 = v % 2 then f ((v - u) / 2 - 1) else 0 := by
  split
  · have hiff : ∀ k, v = u + 2 * (k + 1) ↔ k = (v - u) / 2 - 1 := by
      intro k
      omega
    simp only [hiff, sum_ite_eq', mem_range]
    exact if_pos (by omega)
  · refine sum_eq_zero fun k _ => if_neg ?_
    omega

/-- A pair of taps at an even distance: they are one tap, or one of them stands behind the
other. -/
lemma pair_eq_sum {F u v : ℕ} (hu : u < F) (hv : v < F) (c : K) (e : ℤ → K) :
    (if u % 2 = v % 2 then c * e (u - v) else 0)
      = (if v = u + 2 * 0 then c * e 0 else 0)
        + ∑ k ∈ range (F / 2), (if u = v + 2 * (k + 1) then c * e (2 * (k + 1)) else 0)
        + ∑ k ∈ range (F / 2), (if v = u + 2 * (k + 1) then c * e (-(2 * (k + 1))) else 0) := by
  rw [sum_behind hu fun k => c * e (2 * (k + 1)), sum_behind hv fun k => c * e (-(2 * (k + 1)))]
  by_cases hpar : u % 2 = v % 2
  · rw [if_pos hpar]
    rcases lt_trichotomy u v with hlt | rfl | hgt
    · have hdist : (u - v : ℤ) = -(2 * (((v - u) / 2 - 1 : ℕ) + 1)) := by omega
      rw [if_neg (by omega), if_neg (by omega), if_pos ⟨hlt, hpar⟩, hdist, zero_add, zero_add]
    · simp
    · have hdist : (u - v : ℤ) = 2 * (((u - v) / 2 - 1 : ℕ) + 1) := by omega
      rw [if_neg (by omega), if_pos ⟨hgt, hpar.symm⟩, if_neg (by omega), hdist, zero_add, add_zero]
  · rw [if_neg hpar, if_neg (by omega), if_neg (by omega), if_neg (by omega), add_zero, add_zero]

/-- **A filter against itself**: the pairs are sorted by their distance. -/
lemma pairSum_self (low : List K) (e : ℤ → K) :
    pairSum low low e = autocorrelation low 0 * e 0 + ∑ k ∈ range (low.length / 2),
      autocorrelation low (k + 1) * (e (2 * (k + 1)) + e (-(2 * (k + 1)))) := by
  have hcomm : ∀ f : ℕ → ℕ → ℕ → K,
      ∑ u ∈ range low.length, ∑ v ∈ range low.length, ∑ k ∈ range (low.length / 2), f u v k
        = ∑ k ∈ range (low.length / 2),
            ∑ u ∈ range low.length, ∑ v ∈ range low.length, f u v k := by
    intro f
    rw [sum_congr rfl fun u _ => sum_comm, sum_comm]
  rw [pairSum, sum_congr rfl fun u hu => sum_congr rfl fun v hv =>
    pair_eq_sum (mem_range.mp hu) (mem_range.mp hv) (low.getD u 0 * low.getD v 0) e]
  simp only [sum_add_distrib, hcomm, sum_at_distance, sum_at_distance_swap]
  rw [add_assoc, ← sum_add_distrib]
  simp only [mul_add]

/-- **The low-pass filter against itself.** -/
lemma Orthonormal.pairSum_low (h : Orthonormal low) (e : ℤ → K) : pairSum low low e = e 0 := by
  have hzero : autocorrelation low 0 = 1 := (h.shift 0).trans (if_pos rfl)
  have hsucc : ∀ k, autocorrelation low (k + 1) = 0 := fun k =>
    (h.shift (k + 1)).trans (if_neg k.succ_ne_zero)
  simp only [pairSum_self, hzero, hsucc, one_mul, zero_mul, sum_const_zero, add_zero]

end WaveletPrecision
