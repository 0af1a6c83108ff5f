import Mathlib.Tactic.Lemma
import WaveletPrecision.Error

/-
Computations that may end in an error.

A computation in several parts has a result if all of its parts have one, and so a result is
taken apart part by part.
-/
namespace WaveletPrecision

variable {E A B C : Type}

lemma bind_eq_ok_iff {x : Except E A} {f : A → Except E B} {b : B} :
    x >>= f = .ok b ↔ ∃ a, x = .ok a ∧ f a = .ok b := by
  cases x with
  | error e => simp [bind, Except.bind]
  | ok a => simp [bind, Except.bind]

lemma map_eq_ok_iff {x : Except E A} {f : A → B} {b : B} :
    x.map f = .ok b ↔ ∃ a, x = .ok a ∧ f a = b := by
  cases x with
  | error e => simp [Except.map]
  | ok a => simp [Except.map]

lemma map_eq_error_iff {x : Except E A} {f : A → B} {e : E} :
    x.map f = .error e ↔ x = .error e := by
  cases x with
  | error e' => simp [Except.map]
  | ok a => simp [Except.map]

/-- What follows a computation only matters at its result. -/
lemma bind_congr_of_ok {x : Except E A} {f g : A → Except E B} (h : ∀ a, x = .ok a → f a = g a) :
    x >>= f = x >>= g := by
  cases x with
  | error e => rfl
  | ok a => exact h a rfl

lemma bind_return (x : Except E A) (f : A → B) : (do return f (← x)) = x.map f := by
  cases x <;> rfl

lemma bind_bind_return (x : Except E A) (f : A → Except E B) (g : B → C) :
    (do return g (← f (← x))) = (x >>= f).map g := by
  cases x with
  | error e => rfl
  | ok a => exact bind_return (f a) g

lemma check_bind_eq_ok_iff {check : Except E Unit} {x : Except E B} {b : B} :
    (check >>= fun _ => x) = .ok b ↔ check = .ok () ∧ x = .ok b := by
  rw [bind_eq_ok_iff]
  exact ⟨fun ⟨_, h⟩ => h, fun h => ⟨(), h⟩⟩

lemma forM_eq_ok_iff {check : A → Except E Unit} {l : List A} :
    l.forM check = .ok () ↔ ∀ a ∈ l, check a = .ok () := by
  induction l with
  | nil => simp [pure, Except.pure]
  | cons a l ih =>
    change (check a >>= fun _ => l.forM check) = .ok () ↔ _
    rw [check_bind_eq_ok_iff, ih, List.forall_mem_cons]

end WaveletPrecision
