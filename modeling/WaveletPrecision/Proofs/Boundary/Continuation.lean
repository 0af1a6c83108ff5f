import Mathlib.Algebra.Ring.Basic
import Mathlib.Tactic.LinearCombination
import Mathlib.Tactic.NoncommRing
import WaveletPrecision.Proofs.Boundary.Extension

/-
The extension that each boundary mode is named after, at every distance from the signal.

The modes that fold a signal back repeat a longer list: the signal with its mirror image behind
it, all of it or what is between the ends, with the sign changed or not.  Mirror laws and periods
are then facts about repeated lists, because a repeated list is read backwards as its reversal
(`wrapped_reverse`), and a list whose reversal is a rotation of it is its own mirror image around
some place (`wrapped_mirror`).

* `extendChecked?` computes every place as an integer and looks it up, with nothing known about
  its range; it always finds what `extend` has (`extendChecked?_eq_some`);
* a smooth signal is on one straight line up to the second sample and on one from the last but
  one on, inside of the signal or outside (`extend_smooth_of_le`, `extend_smooth_of_ge`);
* `extend_laws` is all of it.
-/
namespace WaveletPrecision

variable {K : Type}

/-! ### Repeated lists -/

lemma neg_one_sub_emod {n : ℤ} (hn : 0 < n) (k : ℤ) : (-1 - k) % n = n - 1 - k % n := by
  have hnonneg := Int.emod_nonneg k hn.ne'
  have hbelow := Int.emod_lt_of_pos k hn
  have hsplit : -1 - k = n - 1 - k % n + n * (-(k / n) - 1) := by
    linear_combination Int.emod_add_mul_ediv k n
  rw [hsplit, Int.add_mul_emod_self_left]
  exact Int.emod_eq_of_lt (by omega) (by omega)

section Repeated

variable [Zero K]

lemma wrapped_reverse (x : List K) (k : ℤ) : wrapped x.reverse k = wrapped x (-1 - k) := by
  rcases Nat.eq_zero_or_pos x.length with hzero | hpos
  · obtain rfl := List.length_eq_zero_iff.mp hzero
    simp [wrapped]
  · have hlt := toNat_emod_lt hpos k
    have hplace : ((-1 - k) % x.length).toNat = x.length - 1 - (k % x.length).toNat := by
      have hnonneg := Int.emod_nonneg k (show (x.length : ℤ) ≠ 0 by omega)
      rw [neg_one_sub_emod (by omega)]
      omega
    rw [wrapped, wrapped, hplace, List.length_reverse,
      List.getD_eq_getElem _ _ (by simpa using hlt), List.getD_eq_getElem _ _ (by omega),
      List.getElem_reverse]

/-- A repeated list whose reversal starts at another of its places is its own mirror image. -/
lemma wrapped_mirror {x : List K} {r : ℕ} (hx : x.reverse = x.rotate r) (k : ℤ) :
    wrapped x (-1 - k) = wrapped x (k + r) := by
  rw [← wrapped_reverse, hx, wrapped_rotate]

lemma wrapped_map_of_ne_nil {x : List K} (hx : x ≠ []) (f : K → K) (k : ℤ) :
    wrapped (x.map f) k = f (wrapped x k) := by
  have hlt := toNat_emod_lt (List.length_pos_iff.mpr hx) k
  rw [wrapped, wrapped, List.length_map, List.getD_eq_getElem _ _ (by simpa using hlt),
    List.getD_eq_getElem _ _ hlt, List.getElem_map]

lemma wrapped_add_length (x : List K) (k : ℤ) : wrapped x (k + x.length) = wrapped x k := by
  simpa using wrapped_add_mul x k 1

end Repeated

variable [Zero K] [Add K] [Sub K] [Mul K] [Neg K] [NatCast K]

/-! ### Signals that are folded back -/

/-- A mode repeats a signal with a list behind it, if outside of the signal it reads what stands
there, at the remainder of the position. -/
lemma extend_eq_wrapped_append {mode : BoundaryMode} {x y : List K} (hx : 0 < x.length) {period : ℕ}
    (hpos : 0 < period) (hperiod : x.length + y.length = period) (k : ℤ)
    (hfirst : ¬(0 ≤ k ∧ k < x.length) → (wrapIndex period hpos k).val < x.length →
      (mode.reading x.length hx k).value (fun i => x.getD i 0) = x.getD (wrapIndex period hpos k) 0)
    (hsecond : ¬(0 ≤ k ∧ k < x.length) → x.length ≤ (wrapIndex period hpos k).val →
      (mode.reading x.length hx k).value (fun i => x.getD i 0)
        = y.getD (wrapIndex period hpos k - x.length) 0) :
    extend mode x.toArray k = wrapped (x ++ y) k := by
  have hwrapped : wrapped (x ++ y) k = (x ++ y).getD (wrapIndex period hpos k) 0 := by
    rw [wrapped, List.length_append, hperiod]
    rfl
  rw [extend_eq_value mode hx rfl, hwrapped]
  by_cases hinside : 0 ≤ k ∧ k < x.length
  · have hindex : (wrapIndex period hpos k).val = k.toNat :=
      congrArg Int.toNat (Int.emod_eq_of_lt hinside.1 (by omega))
    rw [hindex, List.getD_append _ _ _ _ (by omega), BoundaryMode.reading.eq_def, dif_pos hinside]
    rfl
  · rcases Nat.lt_or_ge (wrapIndex period hpos k).val x.length with hlt | hge
    · rw [hfirst hinside hlt, List.getD_append _ _ _ _ hlt]
    · rw [hsecond hinside hge, List.getD_append_right _ _ _ _ hge]

section Folded

variable {x : List K}

/-- Folded between samples, a signal is repeated with its mirror image. -/
lemma extend_symmetric (hx : 0 < x.length) (k : ℤ) :
    extend .symmetric x.toArray k = wrapped (x ++ x.reverse) k := by
  have hpos : 0 < 2 * x.length := by omega
  have hbelow := (wrapIndex (2 * x.length) hpos k).isLt
  refine extend_eq_wrapped_append hx hpos (by simp [two_mul]) k (fun houtside hlt => ?_)
    fun houtside hge => ?_
  · rw [BoundaryMode.reading.eq_def, dif_neg houtside]
    dsimp only
    rw [dif_pos hlt]
    rfl
  · rw [BoundaryMode.reading.eq_def, dif_neg houtside]
    dsimp only
    rw [dif_neg (by omega), List.getD_reverse _ (by omega)]
    exact congrArg (x.getD · 0) (by dsimp only; omega)

/-- Folded between samples with its sign changed, a signal is repeated with its negated mirror
image. -/
lemma extend_antisymmetric (hx : 0 < x.length) (k : ℤ) :
    extend .antisymmetric x.toArray k = wrapped (x ++ (x.map (- ·)).reverse) k := by
  have hpos : 0 < 2 * x.length := by omega
  have hbelow := (wrapIndex (2 * x.length) hpos k).isLt
  refine extend_eq_wrapped_append hx hpos (by simp [two_mul]) k (fun houtside hlt => ?_)
    fun houtside hge => ?_
  · rw [BoundaryMode.reading.eq_def, dif_neg houtside]
    dsimp only
    rw [dif_pos hlt]
    rfl
  · rw [BoundaryMode.reading.eq_def, dif_neg houtside]
    dsimp only
    rw [dif_neg (by omega), List.getD_reverse _ (by simp; omega),
      List.getD_eq_getElem _ _ (by simp; omega), List.getElem_map]
    simp only [Reading.value]
    rw [List.getD_eq_getElem _ _ (by omega)]
    exact congrArg (- ·) (getElem_congr_idx (by simp; omega))

/-- Folded at its ends, a signal is repeated with the mirror image of what is between them. -/
lemma extend_reflect (hx : 2 ≤ x.length) (k : ℤ) :
    extend .reflect x.toArray k = wrapped (x ++ x.tail.dropLast.reverse) k := by
  have hpos : 0 < 2 * x.length - 2 := by omega
  have hbelow := (wrapIndex (2 * x.length - 2) hpos k).isLt
  refine extend_eq_wrapped_append (by omega) hpos (by simp; omega) k (fun houtside hlt => ?_)
    fun houtside hge => ?_
  · rw [BoundaryMode.reading.eq_def, dif_neg houtside]
    dsimp only
    rw [dif_neg (by omega), dif_pos hlt]
    rfl
  · rw [BoundaryMode.reading.eq_def, dif_neg houtside]
    dsimp only
    rw [dif_neg (by omega), dif_neg (by omega), List.getD_eq_getElem _ _ (by simp; omega),
      List.getElem_reverse, List.getElem_dropLast, List.getElem_tail]
    simp only [Reading.value]
    rw [List.getD_eq_getElem _ _ (by omega)]
    exact getElem_congr_idx (by simp; omega)

omit [Zero K] [Add K] [Sub K] [Mul K] [Neg K] [NatCast K] in
/-- A signal with the mirror image of what is between its ends is its own mirror image around its
first sample. -/
lemma reverse_append_inner (hx : 2 ≤ x.length) :
    (x ++ x.tail.dropLast.reverse).reverse = (x ++ x.tail.dropLast.reverse).rotate 1 := by
  obtain ⟨a, rest, rfl⟩ := List.exists_cons_of_length_pos (show 0 < x.length by omega)
  have hrest : rest ≠ [] := List.length_pos_iff.mp (Nat.lt_of_succ_lt_succ hx)
  rw [← List.dropLast_concat_getLast hrest]
  simp

end Folded

/-! ### Straight lines -/

section Smooth

variable {R : Type} [Ring R] {x : List R} (hx : 2 ≤ x.length) {k : ℤ}

/-- Up to the second sample, a smooth extension is on the line through the first two. -/
lemma extend_smooth_of_le (hk : k ≤ 1) :
    extend .smooth x.toArray k = (x[1] - x[0]) * (k : R) + x[0] := by
  rw [extend_eq_value .smooth (show 0 < x.length by omega) rfl, BoundaryMode.reading.eq_def]
  split
  · simp only [Reading.value]
    obtain rfl | rfl : k = 0 ∨ k = 1 := by omega
    · rw [List.getD_eq_getElem _ _ (by simp; omega)]
      simp
    · rw [List.getD_eq_getElem _ _ (by simp; omega)]
      simp
  · have hsteps : ((-k).toNat : R) = -(k : R) := by
      rw [← Int.cast_natCast, Int.toNat_of_nonneg (by omega), Int.cast_neg]
    simp only [show x.length ≠ 1 by omega, ↓reduceDIte, show k < 0 by omega, ↓reduceIte,
      Reading.value]
    rw [hsteps, List.getD_eq_getElem _ _ (by omega), List.getD_eq_getElem _ _ (by omega)]
    noncomm_ring

/-- From the last sample but one on, a smooth extension is on the line through the last two. -/
lemma extend_smooth_of_ge (hk : x.length - 2 ≤ k) :
    extend .smooth x.toArray k
      = (x[x.length - 1] - x[x.length - 2]) * ((k - (x.length - 1) : ℤ) : R) + x[x.length - 1] := by
  rw [extend_eq_value .smooth (show 0 < x.length by omega) rfl, BoundaryMode.reading.eq_def]
  split
  · rename_i hinside
    simp only [Reading.value]
    rw [List.getD_eq_getElem _ _ (by omega)]
    obtain rfl | rfl : k = x.length - 1 ∨ k = x.length - 2 := by omega
    · rw [sub_self, Int.cast_zero, mul_zero, zero_add]
      exact getElem_congr_idx (by omega)
    · rw [show (x.length : ℤ) - 2 - (x.length - 1) = -1 by omega, Int.cast_neg, Int.cast_one,
        mul_neg_one, neg_sub, sub_add_cancel]
      exact getElem_congr_idx (by omega)
  · have hsteps : ((k - x.length + 1).toNat : R) = ((k - (x.length - 1) : ℤ) : R) := by
      rw [← Int.cast_natCast, Int.toNat_of_nonneg (by omega)]
      congr 1
      omega
    simp only [show x.length ≠ 1 by omega, ↓reduceDIte, show ¬k < 0 by omega, ↓reduceIte,
      Reading.value]
    rw [hsteps, List.getD_eq_getElem _ _ (by omega), List.getD_eq_getElem _ _ (by omega)]

lemma extend_smooth_step_of_nonpos (hk : k ≤ 0) :
    extend .smooth x.toArray (k + 1) - extend .smooth x.toArray k = x[1] - x[0] := by
  rw [extend_smooth_of_le hx (by omega), extend_smooth_of_le hx (by omega)]
  push_cast
  noncomm_ring

lemma extend_smooth_step_of_ge (hk : x.length - 2 ≤ k) :
    extend .smooth x.toArray (k + 1) - extend .smooth x.toArray k
      = x[x.length - 1] - x[x.length - 2] := by
  rw [extend_smooth_of_ge hx (by omega), extend_smooth_of_ge hx hk]
  push_cast
  noncomm_ring

end Smooth

/-! ### Places inside of the signal -/

/-- The sample at a place that has been computed as an integer, if the signal has it. -/
def sampleAt? (x : Array K) (place : ℤ) : Option K := if 0 ≤ place then x[place.toNat]? else none

/-- The extension of a signal, with every place computed as an integer and looked up. -/
def extendChecked? (mode : BoundaryMode) (x : Array K) (k : ℤ) : Option K :=
  let n : ℤ := x.size
  if n = 0 then some 0
  else if 0 ≤ k ∧ k < n then sampleAt? x k
  else
    match mode with
    | .zero => some 0
    | .constant => if k < 0 then sampleAt? x 0 else sampleAt? x (n - 1)
    | .symmetric =>
      let m := k % (2 * n)
      if m < n then sampleAt? x m else sampleAt? x (2 * n - 1 - m)
    | .reflect =>
      if n = 1 then sampleAt? x 0
      else
        let m := k % (2 * n - 2)
        if m < n then sampleAt? x m else sampleAt? x (2 * n - 2 - m)
    | .periodic => sampleAt? x (k % n)
    | .periodization => sampleAt? x (k % n)
    | .smooth =>
      if n = 1 then sampleAt? x 0
      else if k < 0 then do
        let edge ← sampleAt? x 0
        let inner ← sampleAt? x 1
        return (edge - inner) * ((-k).toNat : K) + edge
      else do
        let edge ← sampleAt? x (n - 1)
        let inner ← sampleAt? x (n - 2)
        return (edge - inner) * ((k - n + 1).toNat : K) + edge
    | .antisymmetric =>
      let m := k % (2 * n)
      if m < n then sampleAt? x m else (sampleAt? x (2 * n - 1 - m)).map (- ·)

omit [Zero K] [Add K] [Sub K] [Mul K] [Neg K] [NatCast K] in
lemma sampleAt?_eq_some {x : Array K} {k : ℤ} {i : Fin x.size} (h : k = i) :
    sampleAt? x k = some x[i] := by
  rw [sampleAt?, if_pos (by omega), h]
  simp

lemma natCast_wrapIndex {n : ℕ} (hn : 0 < n) (k : ℤ) : ((wrapIndex n hn k : ℕ) : ℤ) = k % n :=
  Int.toNat_of_nonneg (Int.emod_nonneg k (by omega))

/-- No place is outside of the signal, at any distance and in any mode. -/
lemma extendChecked?_eq_some (mode : BoundaryMode) (x : Array K) (k : ℤ) :
    extendChecked? mode x k = some (extend mode x k) := by
  rw [extendChecked?.eq_def, extend]
  by_cases hx : 0 < x.size
  · rw [dif_pos hx, BoundaryMode.reading.eq_def]
    dsimp only
    rw [if_neg (by omega)]
    by_cases hinside : 0 ≤ k ∧ k < x.size
    · rw [if_pos hinside, dif_pos hinside]
      exact sampleAt?_eq_some (Int.toNat_of_nonneg hinside.1).symm
    · rw [if_neg hinside, dif_neg hinside]
      cases mode with
      | zero => rfl
      | constant =>
        dsimp only
        split
        · exact sampleAt?_eq_some (i := ⟨0, hx⟩) rfl
        · exact sampleAt?_eq_some (i := ⟨x.size - 1, by omega⟩) (by dsimp only; omega)
      | periodic => exact sampleAt?_eq_some (natCast_wrapIndex hx k).symm
      | periodization => exact sampleAt?_eq_some (natCast_wrapIndex hx k).symm
      | symmetric =>
        have hm := natCast_wrapIndex (show 0 < 2 * x.size by omega) k
        rw [Nat.cast_mul, Nat.cast_ofNat] at hm
        dsimp only
        rw [← hm]
        split
        · rw [dif_pos (by omega)]
          exact sampleAt?_eq_some rfl
        · rw [dif_neg (by omega)]
          exact sampleAt?_eq_some (i := ⟨2 * x.size - 1 - _, _⟩) (by dsimp only; omega)
      | antisymmetric =>
        have hm := natCast_wrapIndex (show 0 < 2 * x.size by omega) k
        rw [Nat.cast_mul, Nat.cast_ofNat] at hm
        dsimp only
        rw [← hm]
        split
        · rw [dif_pos (by omega)]
          exact sampleAt?_eq_some rfl
        · rw [dif_neg (by omega)]
          exact congrArg (Option.map (- ·))
            (sampleAt?_eq_some (i := ⟨2 * x.size - 1 - _, _⟩) (by dsimp only; omega))
      | reflect =>
        dsimp only
        by_cases hone : x.size = 1
        · rw [if_pos (by omega), dif_pos hone]
          exact sampleAt?_eq_some (i := ⟨0, hx⟩) rfl
        · rw [if_neg (by omega), dif_neg hone]
          have hm := natCast_wrapIndex (show 0 < 2 * x.size - 2 by omega) k
          rw [show ((2 * x.size - 2 : ℕ) : ℤ) = 2 * x.size - 2 by omega] at hm
          rw [← hm]
          split
          · rw [dif_pos (by omega)]
            exact sampleAt?_eq_some rfl
          · rw [dif_neg (by omega)]
            exact sampleAt?_eq_some (i := ⟨2 * x.size - 2 - _, _⟩) (by dsimp only; omega)
      | smooth =>
        dsimp only
        by_cases hone : x.size = 1
        · rw [if_pos (by omega), dif_pos hone]
          exact sampleAt?_eq_some (i := ⟨0, hx⟩) rfl
        · rw [if_neg (by omega), dif_neg hone]
          split
          · rw [sampleAt?_eq_some (k := 0) (i := ⟨0, hx⟩) rfl,
              sampleAt?_eq_some (k := 1) (i := ⟨1, by omega⟩) rfl]
            rfl
          · rw [sampleAt?_eq_some (k := x.size - 1) (i := ⟨x.size - 1, by omega⟩)
                (by dsimp only; omega),
              sampleAt?_eq_some (k := x.size - 2) (i := ⟨x.size - 2, by omega⟩)
                (by dsimp only; omega)]
            rfl
  · rw [dif_neg hx]
    dsimp only
    rw [if_pos (by omega)]

/-! ### The laws of the modes -/

section Laws

variable {x : List K} (hx : 0 < x.length) (k : ℤ)

include hx in
lemma extend_symmetric_mirror :
    extend .symmetric x.toArray (-1 - k) = extend .symmetric x.toArray k := by
  rw [extend_symmetric hx, extend_symmetric hx,
    wrapped_mirror (r := 0) (by simp [List.reverse_append]), Nat.cast_zero, add_zero]

include hx in
lemma extend_symmetric_repeats :
    extend .symmetric x.toArray (k + 2 * x.length) = extend .symmetric x.toArray k := by
  have hperiod : (2 * x.length : ℤ) = (x ++ x.reverse).length := by simp [two_mul]
  rw [extend_symmetric hx, extend_symmetric hx, hperiod, wrapped_add_length]

include hx in
lemma extend_antisymmetric_mirror (hneg : ∀ a : K, - -a = a) :
    extend .antisymmetric x.toArray (-1 - k) = -extend .antisymmetric x.toArray k := by
  have hreverse : (x ++ (x.map (- ·)).reverse).reverse
      = (x ++ (x.map (- ·)).reverse).map (- ·) := by
    simp [List.reverse_append, List.map_reverse, Function.comp_def, hneg]
  rw [extend_antisymmetric hx, extend_antisymmetric hx, ← wrapped_reverse, hreverse,
    wrapped_map_of_ne_nil (List.append_ne_nil_of_left_ne_nil (List.length_pos_iff.mp hx) _)]

include hx in
lemma extend_antisymmetric_repeats :
    extend .antisymmetric x.toArray (k + 2 * x.length) = extend .antisymmetric x.toArray k := by
  have hperiod : (2 * x.length : ℤ) = (x ++ (x.map (- ·)).reverse).length := by simp [two_mul]
  rw [extend_antisymmetric hx, extend_antisymmetric hx, hperiod, wrapped_add_length]

lemma extend_reflect_mirror (hx : 2 ≤ x.length) :
    extend .reflect x.toArray (-k) = extend .reflect x.toArray k := by
  have hplace := wrapped_mirror (reverse_append_inner hx) (k - 1)
  rw [show -1 - (k - 1) = -k by omega, Nat.cast_one, sub_add_cancel] at hplace
  rw [extend_reflect hx, extend_reflect hx, hplace]

lemma extend_reflect_repeats (hx : 2 ≤ x.length) :
    extend .reflect x.toArray (k + 2 * (x.length - 1)) = extend .reflect x.toArray k := by
  have hperiod : (2 * (x.length - 1) : ℤ) = (x ++ x.tail.dropLast.reverse).length := by
    simp
    omega
  rw [extend_reflect hx, extend_reflect hx, hperiod, wrapped_add_length]

lemma extend_reflect_of_length_eq_one (hone : x.length = 1) :
    extend .reflect x.toArray k = x[0] := by
  rw [extend_eq_value .reflect hx rfl, BoundaryMode.reading.eq_def]
  split
  · exact (List.getD_eq_getElem _ _ (by dsimp only; omega)).trans
      (getElem_congr_idx (by dsimp only; omega))
  · exact List.getD_eq_getElem _ _ hx

include hx in
lemma extend_repeats {mode : BoundaryMode} (hmode : mode = .periodic ∨ mode = .periodization) :
    extend mode x.toArray (k + x.length) = extend mode x.toArray k := by
  have hne := List.length_pos_iff.mp hx
  rw [extend_of_repeated hmode hne, extend_of_repeated hmode hne, wrapped_add_length]

include hx in
lemma extend_zero_eq_zero (houtside : ¬(0 ≤ k ∧ k < x.length)) : extend .zero x.toArray k = 0 := by
  rw [extend_eq_value .zero hx rfl, BoundaryMode.reading.eq_def, dif_neg houtside]
  rfl

lemma extend_constant_of_neg (hk : k < 0) : extend .constant x.toArray k = x[0] := by
  rw [extend_eq_value .constant hx rfl, BoundaryMode.reading.eq_def, dif_neg (by omega)]
  dsimp only
  rw [if_pos hk]
  exact List.getD_eq_getElem _ _ hx

lemma extend_constant_of_ge (hk : x.length ≤ k) :
    extend .constant x.toArray k = x[x.length - 1] := by
  rw [extend_eq_value .constant hx rfl, BoundaryMode.reading.eq_def, dif_neg (by omega)]
  dsimp only
  rw [if_neg (by omega)]
  exact List.getD_eq_getElem _ _ (by dsimp only; omega)

end Laws

/-- **Every mode continues a signal as it is named**, at every distance: no place is outside of the
signal, the signal itself is in its place, and

* a symmetric signal is its own mirror image around the point before it and repeats itself,
* a reflected one is its own mirror image around its first sample and repeats itself, and a single
  sample is repeated,
* a periodic one repeats itself, also when the transform is periodized,
* an antisymmetric one is the negative of its mirror image and repeats itself,
* a constant one stays at its ends, a zero one is zero outside, and
* a smooth one goes on with the step that it has at its ends. -/
theorem extend_laws {x : List K} (hx : 0 < x.length) :
    (∀ mode k, extendChecked? mode x.toArray k = some (extend mode x.toArray k)) ∧
    (∀ mode (k : ℕ) (hk : k < x.length), extend mode x.toArray k = x[k]) ∧
    (∀ k, extend .symmetric x.toArray (-1 - k) = extend .symmetric x.toArray k ∧
      extend .symmetric x.toArray (k + 2 * x.length) = extend .symmetric x.toArray k) ∧
    (2 ≤ x.length → ∀ k, extend .reflect x.toArray (-k) = extend .reflect x.toArray k ∧
      extend .reflect x.toArray (k + 2 * (x.length - 1)) = extend .reflect x.toArray k) ∧
    (x.length = 1 → ∀ k, extend .reflect x.toArray k = x[0]) ∧
    (∀ mode, mode = .periodic ∨ mode = .periodization → ∀ k,
      extend mode x.toArray (k + x.length) = extend mode x.toArray k) ∧
    ((∀ a : K, - -a = a) → ∀ k,
      extend .antisymmetric x.toArray (-1 - k) = -extend .antisymmetric x.toArray k) ∧
    (∀ k, extend .antisymmetric x.toArray (k + 2 * x.length) = extend .antisymmetric x.toArray k) ∧
    (∀ k : ℤ, (k < 0 → extend .constant x.toArray k = x[0]) ∧
      (x.length ≤ k → extend .constant x.toArray k = x[x.length - 1])) ∧
    (∀ k : ℤ, ¬(0 ≤ k ∧ k < x.length) → extend .zero x.toArray k = 0) ∧
    ∀ {R : Type} [Ring R] (y : List R) (hy : 2 ≤ y.length) (k : ℤ),
      (k ≤ 0 → extend .smooth y.toArray (k + 1) - extend .smooth y.toArray k = y[1] - y[0]) ∧
      (y.length - 2 ≤ k → extend .smooth y.toArray (k + 1) - extend .smooth y.toArray k
        = y[y.length - 1] - y[y.length - 2]) :=
  ⟨fun mode => extendChecked?_eq_some mode x.toArray,
    fun mode _ hk => extend_of_lt mode (x := x.toArray) hk,
    fun k => ⟨extend_symmetric_mirror hx k, extend_symmetric_repeats hx k⟩,
    fun htwo k => ⟨extend_reflect_mirror k htwo, extend_reflect_repeats k htwo⟩,
    fun hone k => extend_reflect_of_length_eq_one hx k hone,
    fun _ hmode k => extend_repeats hx k hmode,
    fun hneg k => extend_antisymmetric_mirror hx k hneg,
    extend_antisymmetric_repeats hx,
    fun k => ⟨extend_constant_of_neg hx k, extend_constant_of_ge hx k⟩,
    extend_zero_eq_zero hx,
    fun _ hy _ => ⟨extend_smooth_step_of_nonpos hy, extend_smooth_step_of_ge hy⟩⟩

/-- Three samples, of which the middle one is not on a line with the others. -/
theorem extend_laws_three : 0 < ([1, 3, 4] : List ℤ).length ∧
    (∀ k : ℤ, extend .reflect ([1, 3, 4] : List ℤ).toArray (-k)
      = extend .reflect ([1, 3, 4] : List ℤ).toArray k) ∧
    (∀ k : ℤ, extend .antisymmetric ([1, 3, 4] : List ℤ).toArray (-1 - k)
      = -extend .antisymmetric ([1, 3, 4] : List ℤ).toArray k) ∧
    (∀ k : ℤ, 1 ≤ k → extend .smooth ([1, 3, 4] : List ℤ).toArray (k + 1)
      - extend .smooth ([1, 3, 4] : List ℤ).toArray k = 1) := by
  obtain ⟨-, -, -, hreflect, -, -, hmirror, -, -, -, hsmooth⟩ :=
    extend_laws (x := ([1, 3, 4] : List ℤ)) (by decide)
  exact ⟨by decide, fun k => (hreflect (by decide) k).1, hmirror neg_neg,
    fun k hk => (hsmooth [1, 3, 4] (by decide) k).2 (by simpa using hk)⟩

end WaveletPrecision
