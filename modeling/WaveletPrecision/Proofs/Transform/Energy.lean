import WaveletPrecision.Proofs.Transform.Transpose
import WaveletPrecision.Proofs.Transform.Windowed

/-
An orthonormal filter keeps the energy of a signal.

The energy of a signal is the sum of the squares of its samples.  Pairing the bands of a signal
with themselves is pairing what is put together from them with the signal, because the inverse
transform is the transpose of the forward one, and what is put together is the signal again.

Both steps need a signal that is as long as a reconstruction from its bands.  A signal of odd
length is one sample shorter: with zeros beyond the ends, one of these zeros may be counted in
(`analyze_zero_append`), and in periodization its last sample is repeated.  So the energy is
kept exactly: no coefficient whose window meets the signal is missing or counted twice.

`FilterBank.energy_forward` is the statement about the two modes.
-/
namespace WaveletPrecision

open Finset

variable {K : Type} [CommRing K]

/-- The sum of the squares of the samples of a signal. -/
def energy (x : List K) : K := (x.map (· ^ 2)).sum

lemma pairing_self (x : List K) : pairing x x = energy x := by
  induction x with
  | nil => rfl
  | cons a x ih =>
    rw [energy, List.map_cons, List.sum_cons, ← energy, ← ih, pow_two]
    rfl

/-! ### Zeros beyond the ends -/

lemma extend_zero_append (x : List K) (k : ℤ) :
    extend .zero (x ++ [0]).toArray k = extend .zero x.toArray k := by
  rw [extend_zero, extend_zero, List.length_append, List.length_singleton]
  by_cases hinside : 0 ≤ k ∧ k < x.length
  · rw [if_pos hinside, if_pos (by omega), List.getD_append _ _ _ _ (by omega)]
  · rw [if_neg hinside]
    by_cases hlast : k = x.length
    · subst hlast
      rw [if_pos (by omega), Int.toNat_natCast, List.getD_append_right _ _ _ _ le_rfl,
        Nat.sub_self]
      rfl
    · rw [if_neg (by omega)]

lemma analyze_zero_append {filter x : List K} (hfilter : Even filter.length)
    (hx : x.length % 2 = 1) : analyze .zero filter (x ++ [0]) = analyze .zero filter x := by
  have heven := Nat.even_iff.mp hfilter
  have hne : BoundaryMode.zero ≠ .periodization := by decide
  have hcount : coefficientCount .zero filter.length (x ++ [0]).length
      = coefficientCount .zero filter.length x.length := by
    simp only [coefficientCount, if_neg hne, List.length_append, List.length_singleton]
    omega
  rw [analyze, analyze, hcount]
  simp only [if_neg hne, extend_zero_append]

lemma energy_append_zero (x : List K) : energy (x ++ [0]) = energy x := by
  simp [energy]

lemma map_extend_eq (mode : BoundaryMode) (x : List K) :
    ((List.range x.length).map fun k : ℕ => extend mode x.toArray k) = x := by
  have htake := take_map_extend mode x le_rfl
  rwa [List.take_of_length_le (by simp)] at htake

variable {low : List K}

/-- The energy of the two bands of a signal of even length with zeros beyond its ends. -/
lemma energy_analyze_zero_of_even (h : Orthonormal low) {x : List K} (hx : x ≠ [])
    (heven : x.length % 2 = 0) :
    energy (analyze .zero low x) + energy (analyze .zero (quadratureMirror low) x)
      = energy x := by
  have hne : BoundaryMode.zero ≠ .periodization := by decide
  have hcount := two_mul_coefficientCount hne h.even_length (List.length_pos_iff.mpr hx)
  have hbands : (analyze .zero (quadratureMirror low) x).length = (analyze .zero low x).length := by
    rw [length_analyze, length_analyze, length_quadratureMirror]
  have hlength : x.length + (FilterBank.ofLow low).size = 2 * (analyze .zero low x).length + 2 := by
    have hsize : (FilterBank.ofLow low).size = low.length := rfl
    rw [length_analyze, hsize]
    omega
  calc energy (analyze .zero low x) + energy (analyze .zero (quadratureMirror low) x)
      = pairing (analyze .zero low x) (analyze .zero low x)
          + pairing (analyze .zero (quadratureMirror low) x)
            (analyze .zero (quadratureMirror low) x) := by
        rw [pairing_self, pairing_self]
    _ = pairing (synthesizeWindowed (.ofLow low) x.length (analyze .zero low x)
          (analyze .zero (quadratureMirror low) x)) x :=
        pairing_analyze_zero (length_quadratureMirror low) hbands hlength
    _ = pairing x x := by
        rw [synthesizeWindowed_analyze h hne _ (by omega), map_extend_eq]
    _ = energy x := pairing_self x

/-- **The energy with zeros beyond the ends**, for a signal of any length. -/
lemma energy_analyze_zero (h : Orthonormal low) {x : List K} (hx : x ≠ []) :
    energy (analyze .zero low x) + energy (analyze .zero (quadratureMirror low) x)
      = energy x := by
  by_cases heven : x.length % 2 = 0
  · exact energy_analyze_zero_of_even h hx heven
  · have hodd : x.length % 2 = 1 := by omega
    have hmirror : Even (quadratureMirror low).length := by
      rw [length_quadratureMirror]
      exact h.even_length
    have hpadded : (x ++ [0]).length % 2 = 0 := by
      rw [List.length_append, List.length_singleton]
      omega
    rw [← analyze_zero_append h.even_length hodd, ← analyze_zero_append hmirror hodd,
      energy_analyze_zero_of_even h (by simp) hpadded, energy_append_zero]

/-! ### Periodization -/

/-- **The energy in periodization**, for a signal whose last sample is repeated if its length is
odd. -/
lemma energy_analyze_periodization (h : Orthonormal low) {x : List K} (hx : x ≠ []) :
    energy (analyze .periodization low x) + energy (analyze .periodization (quadratureMirror low) x)
      = energy (padEven x) := by
  have hpos : 0 < x.length := List.length_pos_iff.mpr hx
  have hlength := length_padEven x
  rw [← analyze_padEven low x, ← analyze_padEven (quadratureMirror low) x]
  generalize padEven x = y at hlength ⊢
  have hcount : ∀ filter : List K, 2 * (analyze .periodization filter y).length = y.length := by
    intro filter
    rw [length_analyze_periodization]
    omega
  have hlow := hcount low
  have hhigh := hcount (quadratureMirror low)
  have happrox : analyze .periodization low y ≠ [] := List.length_pos_iff.mp (by omega)
  have hbank : (FilterBank.ofLow low).high.length = (FilterBank.ofLow low).low.length :=
    length_quadratureMirror low
  calc energy (analyze .periodization low y)
        + energy (analyze .periodization (quadratureMirror low) y)
      = pairing (analyze .periodization low y) (analyze .periodization low y)
          + pairing (analyze .periodization (quadratureMirror low) y)
            (analyze .periodization (quadratureMirror low) y) := by
        rw [pairing_self, pairing_self]
    _ = pairing (synthesizePeriodized (.ofLow low) (analyze .periodization low y)
          (analyze .periodization (quadratureMirror low) y)) y :=
        pairing_analyze_periodization hbank happrox (by omega) hlow.symm
    _ = pairing y y := by
        rw [synthesizePeriodized_analyze h (by omega) hlength]
    _ = energy y := pairing_self y

/-! ### Both modes -/

/-- **The forward transform keeps the energy** of a signal that is not empty, whatever its length
and that of the filter: with zeros beyond the ends, and in periodization, where a signal of odd
length counts with its last sample repeated. -/
theorem FilterBank.energy_forward (h : Orthonormal low) {x : List K} (hx : x ≠ []) :
    (∃ approx detail, (ofLow low).forward .zero x = .ok (approx, detail) ∧
      energy approx + energy detail = energy x) ∧
    ∃ approx detail, (ofLow low).forward .periodization x = .ok (approx, detail) ∧
      energy approx + energy detail
        = energy (if x.length % 2 = 0 then x else x ++ [x.getLast hx]) := by
  refine ⟨⟨_, _, forward_eq_ok hx, energy_analyze_zero h hx⟩,
    ⟨_, _, forward_eq_ok hx, (energy_analyze_periodization h hx).trans ?_⟩⟩
  split
  · rename_i heven
    rw [padEven_of_even heven]
  · rename_i hodd
    rw [padEven_of_odd hx hodd]

/-- A filter of four taps on a signal of three samples, the energy of which is 14, and 23 with
the last sample repeated. -/
theorem FilterBank.energy_forward_rotations :
    (∃ approx detail : List ℚ,
      (ofLow [3 / 13, 36 / 65, -(48 / 65), 4 / 13]).forward .zero [1, -2, 3]
        = .ok (approx, detail) ∧ energy approx + energy detail = 14) ∧
    ∃ approx detail : List ℚ,
      (ofLow [3 / 13, 36 / 65, -(48 / 65), 4 / 13]).forward .periodization [1, -2, 3]
        = .ok (approx, detail) ∧ energy approx + energy detail = 23 := by
  obtain ⟨⟨a, d, hforward, henergy⟩, a', d', hforward', henergy'⟩ :=
    energy_forward orthonormal_rational (List.cons_ne_nil 1 [-2, 3])
  refine ⟨⟨a, d, hforward, henergy.trans ?_⟩, a', d', hforward', henergy'.trans ?_⟩ <;>
    norm_num [energy]

end WaveletPrecision
