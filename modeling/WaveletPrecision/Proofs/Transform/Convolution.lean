import WaveletPrecision.Proofs.Boundary.Extension
import WaveletPrecision.Proofs.FilterBank.Orthonormal
import WaveletPrecision.Transform.Convolution

/-
The transform of a filter bank, as sums.

Outside of periodization the loop of the inverse transform starts near the first coefficient
that covers a sample, passes over the ones that do not cover it yet and ends at the first one
that does not cover it any more.  Without any law of the arithmetic this is the same as a fold
over all coefficients that leaves out those that do not cover the sample
(`synthesizeWindowed_eq`).  In periodization it is two nested loops, over the coefficients and
over the taps, each round of which adds to one sample (`synthesizePeriodized_eq`).

Over a commutative ring the folds are sums: `weightedSum_eq_sum` for one coefficient, and
`foldl_gatherIfCovering` and `getD_synthesizePeriodized` for one sample of the reconstruction.
-/
namespace WaveletPrecision

open Finset

variable {K : Type}

/-! ### The loop over the coefficients -/

section Operations

variable [Zero K] [Add K] [Mul K]

/-- Coefficient `o` added to sample `n` if its window covers the sample. -/
def gatherIfCovering (low high approx detail : Array K) (n : Nat) (sum : K) (o : Nat) : K :=
  let j : Int := 2 * o + 1 - n
  if 0 ≤ j ∧ j < low.size then
    gather (low.getD j.toNat 0) (high.getD j.toNat 0) (approx.getD o 0) (detail.getD o 0) sum
  else sum

lemma foldl_eq_self {A B : Type} {f : A → B → A} {a : A} {l : List B}
    (h : ∀ b ∈ l, f a b = a) : l.foldl f a = a := by
  induction l with
  | nil => rfl
  | cons b l ih =>
      rw [List.foldl_cons, h b List.mem_cons_self]
      exact ih fun c hc => h c (List.mem_cons_of_mem _ hc)

variable (low high approx detail : Array K) (n : Nat)

/-- Coefficients whose windows lie before the sample, or behind it, add nothing. -/
lemma gatherIfCovering_of_not {o : Nat} (sum : K)
    (h : (2 * o + 1 - n : Int) < 0 ∨ (low.size : Int) ≤ 2 * o + 1 - n) :
    gatherIfCovering low high approx detail n sum o = sum :=
  if_neg (by omega)

/-- Passing over coefficients and ending early leaves out nothing. -/
lemma gatherCovering_eq_foldl (count o : Nat) (sum : K) :
    gatherCovering low high approx detail n count o sum
      = (List.range' o count).foldl (gatherIfCovering low high approx detail n) sum := by
  induction count generalizing o sum with
  | zero => rfl
  | succ count ih =>
      rw [gatherCovering, List.range'_succ, List.foldl_cons]
      split
      · rename_i hbefore
        rw [ih, gatherIfCovering_of_not _ _ _ _ _ _ (Or.inl hbefore)]
      · rename_i hnotBefore
        split
        · rename_i hbehind
          rw [gatherIfCovering_of_not _ _ _ _ _ _ (Or.inr hbehind)]
          -- the windows move on by two samples, so all further ones lie behind the sample too
          refine (foldl_eq_self fun o' ho' => ?_).symm
          obtain ⟨i, -, rfl⟩ := List.mem_range'.1 ho'
          exact gatherIfCovering_of_not _ _ _ _ _ _ (Or.inr (by omega))
        · rename_i hnotBehind
          rw [ih, gatherIfCovering, if_pos (by omega)]

/-- The loop does not start too late. -/
lemma gatherCovering_first (count : Nat) :
    gatherCovering low high approx detail n (count - (((n : Int) - 1) / 2).toNat)
        (((n : Int) - 1) / 2).toNat 0
      = (List.range count).foldl (gatherIfCovering low high approx detail n) 0 := by
  rw [gatherCovering_eq_foldl]
  generalize hfirst : (((n : Int) - 1) / 2).toNat = first
  have hskip : ∀ o < first, ∀ sum, gatherIfCovering low high approx detail n sum o = sum :=
    fun o ho sum => gatherIfCovering_of_not _ _ _ _ _ _ (Or.inl (by omega))
  rcases Nat.le_total first count with hle | hle
  · have hrange : List.range count = List.range' 0 first ++ List.range' first (count - first) := by
      have happend := List.range'_append_1 (s := 0) (m := first) (n := count - first)
      rw [Nat.zero_add, Nat.add_sub_cancel' hle] at happend
      rw [List.range_eq_range', happend]
    rw [hrange, List.foldl_append]
    congr 1
    refine (foldl_eq_self fun o ho => hskip o ?_ 0).symm
    simpa using ho
  · rw [Nat.sub_eq_zero_of_le hle]
    refine (foldl_eq_self fun o ho => hskip o ?_ 0).symm
    exact Nat.lt_of_lt_of_le (List.mem_range.1 ho) hle

/-- **The reconstruction is a fold over all coefficients** that leaves out those whose windows
do not cover the sample. -/
lemma synthesizeWindowed_eq (bank : FilterBank K) (length : Nat) (approx detail : List K) :
    synthesizeWindowed bank length approx detail = (List.range length).map fun n =>
      (List.range approx.length).foldl (gatherIfCovering bank.low.toArray bank.high.toArray
        approx.toArray detail.toArray n) 0 := by
  simp only [synthesizeWindowed, gatherCovering_first, List.size_toArray]

end Operations

/-! ### The loops of periodization -/

section Scatter

lemma size_foldl {A B : Type} {f : Array A → B → Array A}
    (hsize : ∀ out b, (f out b).size = out.size) (l : List B) (out : Array A) :
    (l.foldl f out).size = out.size := by
  induction l generalizing out with
  | nil => rfl
  | cons b l ih => rw [List.foldl_cons, ih, hsize]

variable [Zero K]

lemma zipIdx_zip {p q : List K} (h : q.length = p.length) :
    (p.zip q).zipIdx = (List.range p.length).map fun i => ((p.getD i 0, q.getD i 0), i) := by
  apply List.ext_getElem
  · simp [h]
  · intro i hi _
    have hp : i < p.length := by simpa [h] using hi
    simp [List.getElem?_eq_getElem hp, List.getElem?_eq_getElem (show i < q.length by omega)]

variable [Add K] [Mul K]

/-- Coefficient `o` of each band added to the sample that tap `j` met. -/
def scatter (bank : FilterBank K) (approx detail : List K) (o : Nat) (out : Array K) (j : Nat) :
    Array K :=
  out.modify ((windowStart .periodization bank.size o - j) % (2 * approx.length : Nat)).toNat
    (gather (bank.low.getD j 0) (bank.high.getD j 0) (approx.getD o 0) (detail.getD o 0))

/-- The reconstruction in periodization, as two nested loops. -/
lemma synthesizePeriodized_eq {bank : FilterBank K} (hbank : bank.high.length = bank.low.length)
    {approx detail : List K} (hbands : detail.length = approx.length) :
    synthesizePeriodized bank approx detail
      = ((List.range approx.length).foldl (fun out o =>
          (List.range bank.size).foldl (scatter bank approx detail o) out)
        (Array.replicate (2 * approx.length) 0)).toList := by
  simp only [synthesizePeriodized, zipIdx_zip hbands, zipIdx_zip hbank, List.foldl_flatMap,
    List.foldl_map]
  rfl

lemma size_scatter (bank : FilterBank K) (approx detail : List K) (o : Nat) (out : Array K)
    (j : Nat) : (scatter bank approx detail o out j).size = out.size :=
  Array.size_modify

lemma length_synthesizePeriodized {bank : FilterBank K}
    (hbank : bank.high.length = bank.low.length) {approx detail : List K}
    (hbands : detail.length = approx.length) :
    (synthesizePeriodized bank approx detail).length = 2 * approx.length := by
  rw [synthesizePeriodized_eq hbank hbands, Array.length_toList,
    size_foldl fun out o => size_foldl (size_scatter bank approx detail o) _ out]
  exact Array.size_replicate

end Scatter

/-! ### What the two transforms accept -/

section Transforms

variable [Zero K] [Add K] [Mul K]

@[simp] lemma length_analyze [Sub K] [Neg K] [NatCast K] (mode : BoundaryMode) (filter x : List K) :
    (analyze mode filter x).length = coefficientCount mode filter.length x.length := by
  simp [analyze]

lemma getD_analyze [Sub K] [Neg K] [NatCast K] {mode : BoundaryMode} {filter x : List K} {o : ℕ}
    (ho : o < coefficientCount mode filter.length x.length) :
    (analyze mode filter x).getD o 0 = weightedSum filter fun i =>
      extend mode (if mode = .periodization then padEven x else x).toArray
        (windowStart mode filter.length o - i) := by
  rw [List.getD_eq_getElem _ _ (by rwa [length_analyze])]
  simp [analyze]

lemma getD_analyze_of_ne [Sub K] [Neg K] [NatCast K] {mode : BoundaryMode}
    (hmode : mode ≠ .periodization) {filter x : List K} {o : ℕ}
    (ho : o < coefficientCount mode filter.length x.length) :
    (analyze mode filter x).getD o 0
      = weightedSum filter fun i => extend mode x.toArray (2 * o + 1 - i) := by
  rw [getD_analyze ho, windowStart, if_neg hmode, if_neg hmode]
  push_cast
  rfl

namespace FilterBank

variable {bank : FilterBank K} {mode : BoundaryMode}

lemma forward_eq_ok [Sub K] [Neg K] [NatCast K] {x : List K} (hx : x ≠ []) :
    bank.forward mode x = .ok (analyze mode bank.low x, analyze mode bank.high x) :=
  if_neg (by simpa using hx)

lemma inverse_eq_ok_of_ne (hmode : mode ≠ .periodization) {approx detail : List K} {count : Nat}
    (happrox : approx.length = count) (hdetail : detail.length = count) (hcount : 1 ≤ count)
    (hsize : bank.size ≤ 2 * count + 2) :
    bank.inverse mode approx detail
      = .ok (synthesizeWindowed bank (2 * count + 2 - bank.size) approx detail) := by
  have hempty : ¬approx.isEmpty = true := by
    simpa using List.length_pos_iff.mp (Nat.lt_of_lt_of_eq hcount happrox.symm)
  have hlength : reconstructionLength? mode bank.size count = some (2 * count + 2 - bank.size) := by
    rw [reconstructionLength?, if_neg hmode, if_pos hsize]
  rw [inverse, if_neg (not_not_intro (happrox.trans hdetail.symm)), if_neg hempty, happrox, hlength]
  exact if_neg hmode

lemma inverse_periodization_eq_ok {approx detail : List K} (happrox : approx ≠ [])
    (hdetail : detail.length = approx.length) :
    bank.inverse .periodization approx detail = .ok (synthesizePeriodized bank approx detail) := by
  have hempty : ¬approx.isEmpty = true := by simpa using happrox
  rw [inverse, if_neg (not_not_intro hdetail.symm), if_neg hempty]
  rfl

end FilterBank

end Transforms

/-! ### Sums over a commutative ring -/

section Ring

variable [CommRing K]

lemma weightedSum_eq_sum (taps : List K) (meets : ℕ → K) :
    weightedSum taps meets = ∑ j ∈ range taps.length, taps.getD j 0 * meets j := by
  induction taps using List.reverseRecOn with
  | nil => rfl
  | append_singleton taps tap ih =>
      have hinit : ∑ j ∈ range taps.length, (taps ++ [tap]).getD j 0 * meets j
          = ∑ j ∈ range taps.length, taps.getD j 0 * meets j := by
        refine sum_congr rfl fun j hj => ?_
        rw [List.getD_append _ _ _ _ (mem_range.1 hj)]
      have hlast : (taps ++ [tap]).getD taps.length 0 = tap := by
        rw [List.getD_append_right _ _ _ _ le_rfl, Nat.sub_self]
        rfl
      rw [weightedSum] at ih ⊢
      rw [List.zipIdx_append, List.foldl_append, ih, List.length_append, List.length_singleton,
        sum_range_succ, hinit, hlast]
      simp [add_comm]

lemma getD_toArray {A : Type} (l : List A) (i : ℕ) (a : A) : l.toArray.getD i a = l.getD i a := by
  rw [Array.getD_eq_getD_getElem?, List.getElem?_toArray, List.getD_eq_getElem?_getD]

/-- One sample of the reconstruction: each coefficient that covers it adds the tap that met it. -/
lemma foldl_gatherIfCovering (low high approx detail : List K) (n count : ℕ) :
    (List.range count).foldl (gatherIfCovering low.toArray high.toArray approx.toArray
        detail.toArray n) 0
      = ∑ o ∈ range count, if 0 ≤ (2 * o + 1 - n : ℤ) ∧ (2 * o + 1 - n : ℤ) < low.length then
          low.getD (2 * o + 1 - n : ℤ).toNat 0 * approx.getD o 0
            + high.getD (2 * o + 1 - n : ℤ).toNat 0 * detail.getD o 0
        else 0 := by
  induction count with
  | zero => rfl
  | succ count ih =>
      rw [List.range_succ, List.foldl_append, ih, sum_range_succ, List.foldl_cons, List.foldl_nil,
        gatherIfCovering]
      simp only [List.size_toArray, getD_toArray, gather]
      split
      · ring
      · rw [add_zero]

/-- A loop every round of which adds something to one place of an array. -/
lemma getD_foldl {f : Array K → ℕ → Array K} {g : ℕ → K} {n : ℕ}
    (hsize : ∀ out i, (f out i).size = out.size)
    (hstep : ∀ out i, n < out.size → (f out i).getD n 0 = out.getD n 0 + g i)
    (count : ℕ) {out : Array K} (hn : n < out.size) :
    ((List.range count).foldl f out).getD n 0 = out.getD n 0 + ∑ i ∈ range count, g i := by
  have hsizes : ∀ count, ((List.range count).foldl f out).size = out.size := fun count =>
    size_foldl hsize (List.range count) out
  induction count with
  | zero => exact (add_zero _).symm
  | succ count ih =>
      rw [List.range_succ, List.foldl_append, List.foldl_cons, List.foldl_nil,
        hstep _ _ (by rwa [hsizes count]), ih, sum_range_succ, add_assoc]

lemma getD_scatter (bank : FilterBank K) (approx detail : List K) (o : ℕ) {out : Array K} {n : ℕ}
    (hn : n < out.size) (j : ℕ) :
    (scatter bank approx detail o out j).getD n 0 = out.getD n 0
      + if ((windowStart .periodization bank.size o - j) % (2 * approx.length : ℕ)).toNat = n then
          bank.low.getD j 0 * approx.getD o 0 + bank.high.getD j 0 * detail.getD o 0
        else 0 := by
  rw [scatter, Array.getD_eq_getD_getElem?, Array.getD_eq_getD_getElem?, Array.getElem?_modify,
    Array.getElem?_eq_getElem hn]
  split
  · simp only [gather, Option.map_some, Option.getD_some]
    ring
  · rw [add_zero]

/-- One sample of the reconstruction in periodization: every coefficient adds to it every tap
that met it. -/
lemma getD_synthesizePeriodized {bank : FilterBank K} (hbank : bank.high.length = bank.low.length)
    {approx detail : List K} (hbands : detail.length = approx.length) {n : ℕ}
    (hn : n < 2 * approx.length) :
    (synthesizePeriodized bank approx detail).getD n 0
      = ∑ o ∈ range approx.length, ∑ j ∈ range bank.size,
          if ((windowStart .periodization bank.size o - j) % (2 * approx.length : ℕ)).toNat = n then
            bank.low.getD j 0 * approx.getD o 0 + bank.high.getD j 0 * detail.getD o 0
          else 0 := by
  rw [synthesizePeriodized_eq hbank hbands, ← getD_toArray, Array.toArray_toList,
    getD_foldl (fun out o => size_foldl (size_scatter bank approx detail o) _ out)
      (fun out o ho => getD_foldl (size_scatter bank approx detail o)
        (fun out j hj => getD_scatter bank approx detail o hj j) bank.size ho)
      approx.length (by simpa using hn)]
  simp [hn]

end Ring

end WaveletPrecision
