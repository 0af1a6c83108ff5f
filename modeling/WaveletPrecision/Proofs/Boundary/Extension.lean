import Mathlib.Data.List.GetD
import Mathlib.Data.List.Rotate
import WaveletPrecision.Boundary.Extension

/-
What an extended signal has at a position.

Inside of the signal it is the signal, in every mode (`extend_of_lt`), and at any position it is
what the mode says of the position alone (`extend_eq_value`).  A signal that is repeated needs
no distinction between inside and outside: a position stands for its remainder by the length
(`wrapped`, `extend_of_repeated`), to read it from a later sample on is to look at later
positions (`wrapped_rotate`), and the signal is known from its samples at all positions
(`ext_wrapped`).
-/
namespace WaveletPrecision

variable {K : Type} [Zero K] [Add K] [Sub K] [Mul K] [Neg K] [NatCast K]

lemma extend_of_lt (mode : BoundaryMode) {x : Array K} {k : Nat} (hk : k < x.size) :
    extend mode x k = x[k] := by
  have hinside : (0 : Int) ≤ k ∧ (k : Int) < x.size := by omega
  rw [extend, dif_pos (by omega), BoundaryMode.reading.eq_def, dif_pos hinside]
  rfl

lemma extend_eq_value (mode : BoundaryMode) {m : Nat} {x : List K} (hm : 0 < m)
    (hx : x.length = m) (k : Int) :
    extend mode x.toArray k = (mode.reading m hm k).value fun i => x.getD i 0 := by
  subst hx
  rw [extend, dif_pos (by simpa using hm)]
  refine congrArg (fun y => (mode.reading x.length hm k).value y) (funext fun i => ?_)
  rw [List.getD_eq_getElem _ _ i.isLt]
  rfl

/-- The remainder of a position by the length of a signal is a position of the signal. -/
lemma toNat_emod_lt {n : Nat} (hn : 0 < n) (k : Int) : (k % n).toNat < n := by
  have hnonneg := Int.emod_nonneg k (show (n : Int) ≠ 0 by omega)
  have hlt := Int.emod_lt_of_pos k (show (0 : Int) < n by omega)
  omega

/-! ### Repeating a signal -/

/-- The sample at a position of a signal that is repeated in both directions. -/
def wrapped {K : Type} [Zero K] (x : List K) (k : Int) : K :=
  x.getD (k % x.length).toNat 0

/-- In two of the modes a signal is repeated. -/
lemma extend_of_repeated {mode : BoundaryMode} (hmode : mode = .periodic ∨ mode = .periodization)
    {x : List K} (hx : x ≠ []) (k : Int) : extend mode x.toArray k = wrapped x k := by
  have hpos : 0 < x.length := List.length_pos_iff.mpr hx
  rw [wrapped, List.getD_eq_getElem _ _ (toNat_emod_lt hpos k), extend,
    dif_pos (by simpa using hpos), BoundaryMode.reading.eq_def]
  split
  · rename_i hinside
    simp [Reading.value, Int.emod_eq_of_lt hinside.1 (by simpa using hinside.2)]
  · rcases hmode with rfl | rfl <;> simp [Reading.value, wrapIndex]

lemma extend_periodization {x : List K} (hx : x ≠ []) (k : Int) :
    extend .periodization x.toArray k = wrapped x k :=
  extend_of_repeated (Or.inr rfl) hx k

section Wrapped

omit [Add K] [Sub K] [Mul K] [Neg K] [NatCast K]

lemma wrapped_natCast {x : List K} {n : Nat} (hn : n < x.length) : wrapped x n = x.getD n 0 := by
  rw [wrapped, Int.emod_eq_of_lt (by omega) (by omega), Int.toNat_natCast]

lemma wrapped_add_mul (x : List K) (k q : Int) : wrapped x (k + x.length * q) = wrapped x k := by
  rw [wrapped, Int.add_mul_emod_self_left, wrapped]

lemma wrapped_rotate (x : List K) (n : Nat) (k : Int) :
    wrapped (x.rotate n) k = wrapped x (k + n) := by
  rcases Nat.eq_zero_or_pos x.length with hzero | hpos
  · obtain rfl := List.length_eq_zero_iff.mp hzero
    simp [wrapped]
  · have hlt := toNat_emod_lt hpos k
    have hnonneg := Int.emod_nonneg k (show (x.length : Int) ≠ 0 by omega)
    have hplace : (k + n) % (x.length : Int) = (((k % x.length).toNat + n) % x.length : Nat) := by
      push_cast [Int.toNat_of_nonneg hnonneg]
      rw [Int.emod_add_emod]
    rw [wrapped, wrapped, List.length_rotate, hplace, Int.toNat_natCast,
      List.getD_eq_getElem?_getD, List.getD_eq_getElem?_getD, List.getElem?_rotate hlt]

/-- Lists of one length that are equal when they are repeated are equal. -/
lemma ext_wrapped {x y : List K} (hlength : x.length = y.length)
    (h : ∀ k : Int, wrapped x k = wrapped y k) : x = y := by
  refine List.ext_getElem hlength fun n hx hy => ?_
  rw [← List.getD_eq_getElem x 0 hx, ← List.getD_eq_getElem y 0 hy, ← wrapped_natCast hx,
    ← wrapped_natCast hy]
  exact h n

end Wrapped

end WaveletPrecision
