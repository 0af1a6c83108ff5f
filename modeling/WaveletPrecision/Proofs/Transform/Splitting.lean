import Mathlib.Data.List.Induction
import WaveletPrecision.Transform.Lifting

/-
Splitting a signal into its samples at even and at odd positions, and putting the two
parts together again.

The parts of a signal have one length, or the even part is one longer: `Halves`.  Between
signals and pairs of parts with this property splitting and joining undo each other
(`interleave_deinterleave` and `deinterleave_interleave`).
-/
namespace WaveletPrecision

variable {K : Type}

/-- Two lists that can be the even and the odd part of one signal, whose first sample is in
the even part. -/
def Halves (even odd : List K) : Prop :=
  even ≠ [] ∧ (even.length = odd.length ∨ even.length = odd.length + 1)

lemma Halves.of_length_eq {even odd even' odd' : List K} (h : Halves even odd)
    (heven : even'.length = even.length) (hodd : odd'.length = odd.length) :
    Halves even' odd' := by
  obtain ⟨hne, hlen⟩ := h
  refine ⟨?_, by omega⟩
  rw [← List.length_pos_iff] at hne ⊢
  omega

lemma length_deinterleave (x : List K) :
    (deinterleave x).1.length = (x.length + 1) / 2 ∧ (deinterleave x).2.length = x.length / 2 := by
  induction x with
  | nil => simp
  | cons a x ih =>
      simp only [deinterleave_cons, List.length_cons]
      omega

lemma getD_deinterleave [Zero K] (x : List K) (i : ℕ) :
    (deinterleave x).1.getD i 0 = x.getD (2 * i) 0 ∧
      (deinterleave x).2.getD i 0 = x.getD (2 * i + 1) 0 := by
  induction x generalizing i with
  | nil => simp
  | cons a x ih =>
    rw [deinterleave_cons]
    constructor
    · cases i with
      | zero => rfl
      | succ i => exact (ih i).2
    · exact (ih i).1

/-- The parts of a signal that is not empty fit each other. -/
lemma halves_deinterleave {x : List K} (hx : x ≠ []) :
    Halves (deinterleave x).1 (deinterleave x).2 := by
  obtain ⟨heven, hodd⟩ := length_deinterleave x
  have hpos : 0 < x.length := List.length_pos_iff.mpr hx
  refine ⟨?_, by omega⟩
  rw [← List.length_pos_iff]
  omega

lemma interleave_deinterleave (x : List K) :
    interleave (deinterleave x).1 (deinterleave x).2 = x := by
  induction x using List.twoStepInduction with
  | nil => rfl
  | singleton a => simp
  | cons_cons a b x ih => simpa using ih

/-- Splitting what two lists were put together to gives the two lists, if neither of them
reaches too far beyond the other. -/
lemma deinterleave_interleave {even odd : List K}
    (h : even.length = odd.length ∨ even.length = odd.length + 1) :
    deinterleave (interleave even odd) = (even, odd) := by
  induction even generalizing odd with
  | nil =>
      have hodd : odd.length = 0 := by simpa [eq_comm] using h
      obtain rfl := List.length_eq_zero_iff.mp hodd
      rfl
  | cons a even ih =>
      cases odd with
      | nil =>
          have heven : even.length = 0 := by simpa using h
          obtain rfl := List.length_eq_zero_iff.mp heven
          simp
      | cons b odd =>
          have hlen : even.length = odd.length ∨ even.length = odd.length + 1 := by
            simpa using h
          simp [ih hlen]

lemma interleave_ne_nil {even odd : List K} (h : even ≠ []) : interleave even odd ≠ [] := by
  cases even with
  | nil => exact absurd rfl h
  | cons a even => cases odd <;> simp

end WaveletPrecision
