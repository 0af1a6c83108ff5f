import WaveletPrecision.Proofs.Transform.Periodized

/-
Periodization and the periodic mode compute the same coefficients.

In both modes a signal is repeated, and a coefficient is the filter at a window of it.  They
differ in where the windows are: with `F` taps the window of coefficient `o` starts at
`F / 2 + 2 * o` in periodization and at `2 * o + 1` in the periodic mode.  So one coefficient is
the other wherever the windows start at the same sample (`getElem?_analyze_periodization`), and
where the parities of the two starts differ, the signal is first read from its second sample on
(`FoundInPeriodic`).

Nothing is asked of the arithmetic: the same operations are done on the same samples in the same
order.  `FilterBank.forward_periodization_eq_periodic` is the statement about both bands.
-/
namespace WaveletPrecision

variable {K : Type} [Zero K] [Add K] [Sub K] [Mul K] [Neg K] [NatCast K]

/-- A coefficient in periodization is a coefficient of the signal read from a later sample on,
if the two windows start at the same place. -/
lemma getElem?_analyze_periodization (filter : List K) {x : List K} (hx : x ≠ [])
    (heven : x.length % 2 = 0) (s : ℕ) {o o' : ℕ} (ho : o < x.length / 2)
    (hstart : 2 * o' + 1 + s = filter.length / 2 + 2 * o) :
    (analyze .periodization filter x)[o]? = (analyze .periodic filter (x.rotate s))[o']? := by
  have hrotate : x.rotate s ≠ [] := by simpa using hx
  have hcount : o < coefficientCount .periodization filter.length x.length := by
    rw [coefficientCount, if_pos rfl]
    omega
  have hcount' : o' < coefficientCount .periodic filter.length (x.rotate s).length := by
    rw [coefficientCount, if_neg (by decide), List.length_rotate]
    omega
  have hcoefficient : (analyze .periodization filter x).getD o 0
      = (analyze .periodic filter (x.rotate s)).getD o' 0 := by
    rw [getD_analyze hcount, getD_analyze hcount']
    refine congrArg (weightedSum filter) (funext fun j => ?_)
    have hposition : windowStart .periodization filter.length o - j
        = windowStart .periodic filter.length o' - j + s := by
      rw [windowStart, windowStart, if_pos rfl, if_neg (by decide), ← hstart]
      push_cast
      ring
    rw [if_pos rfl, if_neg (by decide), padEven_of_even heven, extend_periodization hx,
      extend_of_repeated (Or.inl rfl) hrotate, wrapped_rotate, hposition]
  have hlength : o < (analyze .periodization filter x).length := by rwa [length_analyze]
  have hlength' : o' < (analyze .periodic filter (x.rotate s)).length := by rwa [length_analyze]
  rw [List.getD_eq_getElem _ _ hlength, List.getD_eq_getElem _ _ hlength'] at hcoefficient
  rw [List.getElem?_eq_getElem hlength, List.getElem?_eq_getElem hlength', hcoefficient]

/-- The coefficients of a band in periodization, so many of them, are found in the band of the
periodic mode, or in that of the signal read from its second sample on.  Which of the two, and
from which coefficient on, depends on the number of taps.  (Without taps the first coefficient
has none to be found at.) -/
structure FoundInPeriodic (taps count : ℕ) (band periodic later : List K) : Prop where
  length_eq : band.length = count
  of_two_mod_four : taps % 4 = 2 → ∀ o < count, band[o]? = periodic[o + (taps - 2) / 4]?
  of_zero_mod_four : taps % 4 = 0 → ∀ o < count, ∀ o', o' + 1 = o + taps / 4 →
    band[o]? = later[o']?

lemma foundInPeriodic_analyze (filter : List K) {x : List K} (hx : x ≠ [])
    (heven : x.length % 2 = 0) :
    FoundInPeriodic filter.length (x.length / 2) (analyze .periodization filter x)
      (analyze .periodic filter x) (analyze .periodic filter (x.rotate 1)) where
  length_eq := by
    rw [length_analyze_periodization]
    omega
  of_two_mod_four := by
    intro htaps o ho
    have hstart : 2 * (o + (filter.length - 2) / 4) + 1 + 0 = filter.length / 2 + 2 * o := by
      omega
    have hfound := getElem?_analyze_periodization filter hx heven 0 ho hstart
    rwa [List.rotate_zero] at hfound
  of_zero_mod_four := by
    intro htaps o ho o' ho'
    exact getElem?_analyze_periodization filter hx heven 1 ho (by omega)

/-- **Periodization and the periodic mode agree**, value by value and in any arithmetic.  A signal
of even length has the coefficients of the periodic mode, from another coefficient on, and a
signal of odd length those of the signal with its last sample repeated. -/
theorem FilterBank.forward_periodization_eq_periodic (bank : FilterBank K) {x : List K}
    (hx : x ≠ []) :
    (x.length % 2 = 0 → ∃ bands periodic later,
      bank.forward .periodization x = .ok bands ∧ bank.forward .periodic x = .ok periodic ∧
      bank.forward .periodic (x.rotate 1) = .ok later ∧
      FoundInPeriodic bank.low.length (x.length / 2) bands.1 periodic.1 later.1 ∧
      FoundInPeriodic bank.high.length (x.length / 2) bands.2 periodic.2 later.2) ∧
    (x.length % 2 = 1 →
      bank.forward .periodization x = bank.forward .periodization (x ++ [x.getLast hx])) := by
  constructor
  · intro heven
    have hrotate : x.rotate 1 ≠ [] := by simpa using hx
    exact ⟨_, _, _, forward_eq_ok hx, forward_eq_ok hx, forward_eq_ok hrotate,
      foundInPeriodic_analyze bank.low hx heven, foundInPeriodic_analyze bank.high hx heven⟩
  · intro hodd
    have hpad := padEven_of_odd hx (by omega)
    rw [← hpad, forward_eq_ok hx, forward_eq_ok (by simp [hpad]), analyze_padEven, analyze_padEven]

/-- Two samples, which are fewer than the taps of both filters, and three samples. -/
theorem FilterBank.forward_periodization_eq_periodic_short :
    let bank : FilterBank ℤ := ⟨[1, 2, 3, 5, 8, 13], [1, -1, 2, -2]⟩
    (∃ bands periodic later, bank.forward .periodization [3, 1] = .ok bands ∧
      bank.forward .periodic [3, 1] = .ok periodic ∧ bank.forward .periodic [1, 3] = .ok later ∧
      bands.1[0]? = periodic.1[1]? ∧ bands.2[0]? = later.2[0]?) ∧
    bank.forward .periodization [3, 1, 4] = bank.forward .periodization [3, 1, 4, 4] := by
  intro bank
  constructor
  · obtain ⟨bands, periodic, later, hbands, hperiodic, hlater, hlow, hhigh⟩ :=
      (forward_periodization_eq_periodic bank (x := [3, 1]) (by decide)).1 rfl
    have hfirst : 0 + (bank.low.length - 2) / 4 = 1 := by decide
    have happrox := hlow.of_two_mod_four (by decide) 0 (by decide)
    rw [hfirst] at happrox
    have hdetail := hhigh.of_zero_mod_four (by decide) 0 (by decide) 0 (by decide)
    exact ⟨bands, periodic, later, hbands, hperiodic, hlater, happrox, hdetail⟩
  · exact (forward_periodization_eq_periodic bank (x := [3, 1, 4]) (by decide)).2 rfl

end WaveletPrecision
