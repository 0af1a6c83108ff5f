import Mathlib.Algebra.Field.Rat
import Mathlib.Data.Set.Function
import WaveletPrecision.Proofs.Transform.Splitting

/-
Every lifting scheme can be taken back, in every boundary mode.

A step changes one of the two parts of the signal and reads only the other one, so the
step that takes it back reads what the step itself has read, whatever a stencil makes of it
beyond the ends of the part.

* `LiftingStep.Invertible.takesBack` is one step, in a field;
* `LiftingScheme.undoSteps_runSteps` and `LiftingScheme.runSteps_undoSteps` take back all steps of
  a scheme, in any arithmetic that each of them can be taken back in (`foldl_reverse_foldl` is the
  induction on the list of steps);
* `LiftingScheme.inverse_isOk_iff` says which pairs of lists the inverse transform accepts;
* `LiftingScheme.forward_bijection` is the statement about the two transforms.
-/
namespace WaveletPrecision

variable {K : Type}

/-- A step that can be taken back: if it multiplies, then by factors that are not zero. -/
def LiftingStep.Invertible [Zero K] : LiftingStep K → Prop
  | predict _ => True
  | update _ => True
  | scale even odd => even ≠ 0 ∧ odd ≠ 0

/-- A scheme all of whose steps can be taken back. -/
def LiftingScheme.Invertible [Zero K] (scheme : LiftingScheme K) : Prop :=
  ∀ step ∈ scheme.steps, step.Invertible

/-! ### Going through a list of steps -/

/-- The lengths of two parts after steps that keep the length of both. -/
lemma length_foldl {B : Type} {f : List K × List K → B → List K × List K}
    (h : ∀ parts step, (f parts step).1.length = parts.1.length ∧
      (f parts step).2.length = parts.2.length) (steps : List B) (parts : List K × List K) :
    (steps.foldl f parts).1.length = parts.1.length ∧
      (steps.foldl f parts).2.length = parts.2.length := by
  induction steps generalizing parts with
  | nil => exact ⟨rfl, rfl⟩
  | cons step steps ih =>
      obtain ⟨heven, hodd⟩ := ih (f parts step)
      obtain ⟨heven', hodd'⟩ := h parts step
      exact ⟨heven.trans heven', hodd.trans hodd'⟩

/-- Steps, each of which can be taken back, are taken back by going through them from the last
one to the first. -/
lemma foldl_reverse_foldl {A B : Type} {f g : A → B → A} {l : List B}
    (h : ∀ b ∈ l, ∀ a, g (f a b) b = a) (a : A) : l.reverse.foldl g (l.foldl f a) = a := by
  induction l generalizing a with
  | nil => rfl
  | cons b l ih =>
      have hl : ∀ c ∈ l, ∀ a, g (f a c) c = a := fun c hc => h c (List.mem_cons_of_mem _ hc)
      rw [List.foldl_cons, List.reverse_cons, List.foldl_append, ih hl]
      exact h b List.mem_cons_self a

section Operations

variable [Zero K] [Add K] [Sub K] [Mul K] [Neg K] [NatCast K] (mode : BoundaryMode)

/-! ### Lengths -/

@[simp] lemma Stencil.length_lift (stencil : Stencil K) (combine : K → K → K)
    (target source : List K) :
    (stencil.lift mode combine target source).length = target.length := by
  simp [lift]

lemma LiftingStep.length_run (step : LiftingStep K) (parts : List K × List K) :
    (step.run mode parts).1.length = parts.1.length ∧
      (step.run mode parts).2.length = parts.2.length := by
  cases step <;> simp [run]

lemma LiftingStep.length_undo [Div K] (step : LiftingStep K) (parts : List K × List K) :
    (step.undo mode parts).1.length = parts.1.length ∧
      (step.undo mode parts).2.length = parts.2.length := by
  cases step <;> simp [undo]

namespace LiftingScheme

/-- The parts of a signal after the steps of a scheme. -/
def runSteps (scheme : LiftingScheme K) (parts : List K × List K) : List K × List K :=
  scheme.steps.foldl (LiftingStep.run mode) parts

/-- The parts of a signal after the steps of a scheme have been taken back, the last one
first. -/
def undoSteps [Div K] (scheme : LiftingScheme K) (parts : List K × List K) : List K × List K :=
  scheme.steps.reverse.foldl (LiftingStep.undo mode) parts

/-! ### What the two transforms accept -/

lemma forward_eq_ok {scheme : LiftingScheme K} {x : List K} (hx : x ≠ []) :
    scheme.forward mode x = .ok (scheme.runSteps mode (deinterleave x)) := by
  have hempty : ¬x.isEmpty = true := by simpa using hx
  rw [forward, if_neg hempty, runSteps]

lemma inverse_eq_ok [Div K] {scheme : LiftingScheme K} {approx detail : List K}
    (h : Halves approx detail) :
    scheme.inverse mode approx detail = .ok (interleave (scheme.undoSteps mode (approx, detail)).1
      (scheme.undoSteps mode (approx, detail)).2) := by
  obtain ⟨hne, hlen⟩ := h
  have hmismatch : ¬(approx.length ≠ detail.length ∧ approx.length ≠ detail.length + 1) := by
    omega
  have hempty : ¬approx.isEmpty = true := by simpa using hne
  rw [inverse, if_neg hmismatch, if_neg hempty, undoSteps]

lemma inverse_isOk_iff [Div K] {scheme : LiftingScheme K} {approx detail : List K} :
    (∃ x, scheme.inverse mode approx detail = .ok x) ↔ Halves approx detail := by
  constructor
  · rintro ⟨x, hx⟩
    rw [inverse] at hx
    split at hx
    · cases hx
    · rename_i hlen
      split at hx
      · cases hx
      · rename_i hempty
        exact ⟨by simpa using hempty, by omega⟩
  · exact fun h => ⟨_, inverse_eq_ok mode h⟩

lemma length_runSteps (scheme : LiftingScheme K) (parts : List K × List K) :
    (scheme.runSteps mode parts).1.length = parts.1.length ∧
      (scheme.runSteps mode parts).2.length = parts.2.length :=
  length_foldl (fun parts step => step.length_run mode parts) scheme.steps parts

lemma halves_runSteps (scheme : LiftingScheme K) {x : List K} (hx : x ≠ []) :
    Halves (scheme.runSteps mode (deinterleave x)).1
      (scheme.runSteps mode (deinterleave x)).2 := by
  obtain ⟨heven, hodd⟩ := scheme.length_runSteps mode (deinterleave x)
  exact (halves_deinterleave hx).of_length_eq heven hodd

lemma length_undoSteps [Div K] (scheme : LiftingScheme K) (parts : List K × List K) :
    (scheme.undoSteps mode parts).1.length = parts.1.length ∧
      (scheme.undoSteps mode parts).2.length = parts.2.length :=
  length_foldl (fun parts step => step.length_undo mode parts) scheme.steps.reverse parts

lemma halves_undoSteps [Div K] (scheme : LiftingScheme K) {approx detail : List K}
    (h : Halves approx detail) :
    Halves (scheme.undoSteps mode (approx, detail)).1
      (scheme.undoSteps mode (approx, detail)).2 := by
  obtain ⟨heven, hodd⟩ := scheme.length_undoSteps mode (approx, detail)
  exact h.of_length_eq heven hodd

end LiftingScheme

end Operations

/-! ### Taking steps back -/

/-- Lifting a target twice by one source is nothing if the one combination undoes the other. -/
lemma Stencil.lift_lift [Zero K] [Add K] [Sub K] [Mul K] [Neg K] [NatCast K]
    (stencil : Stencil K) (mode : BoundaryMode) {combine undo : K → K → K}
    (h : ∀ t c, undo (combine t c) c = t) (target source : List K) :
    stencil.lift mode undo (stencil.lift mode combine target source) source = target := by
  apply List.ext_getElem
  · simp
  · intro i _ _
    simp [lift, h]

section Steps

variable [Zero K] [Add K] [Sub K] [Mul K] [Div K] [Neg K] [NatCast K] {mode : BoundaryMode}

/-- Each of the two directions of a step takes the other one back, whatever the two parts are. -/
structure LiftingStep.TakesBack (mode : BoundaryMode) (step : LiftingStep K) : Prop where
  undo_run : ∀ parts, step.undo mode (step.run mode parts) = parts
  run_undo : ∀ parts, step.run mode (step.undo mode parts) = parts

namespace LiftingScheme

variable {scheme : LiftingScheme K}

/-- All steps of a scheme can be taken back. -/
def TakesBack (mode : BoundaryMode) (scheme : LiftingScheme K) : Prop :=
  ∀ step ∈ scheme.steps, step.TakesBack mode

lemma undoSteps_runSteps (h : scheme.TakesBack mode) (parts : List K × List K) :
    scheme.undoSteps mode (scheme.runSteps mode parts) = parts :=
  foldl_reverse_foldl (fun step hstep => (h step hstep).undo_run) parts

lemma runSteps_undoSteps (h : scheme.TakesBack mode) (parts : List K × List K) :
    scheme.runSteps mode (scheme.undoSteps mode parts) = parts := by
  -- the steps are those of the scheme in reverse order, reversed
  have hback := foldl_reverse_foldl (l := scheme.steps.reverse)
    (fun step hstep => (h step (List.mem_reverse.mp hstep)).run_undo) parts
  rwa [List.reverse_reverse] at hback

lemma inverse_runSteps (h : scheme.TakesBack mode) {x : List K} (hx : x ≠ []) :
    scheme.inverse mode (scheme.runSteps mode (deinterleave x)).1
      (scheme.runSteps mode (deinterleave x)).2 = .ok x := by
  rw [inverse_eq_ok mode (scheme.halves_runSteps mode hx), Prod.mk.eta, undoSteps_runSteps h,
    interleave_deinterleave]

lemma forward_undoSteps (h : scheme.TakesBack mode) {approx detail : List K}
    (hhalves : Halves approx detail) :
    scheme.forward mode (interleave (scheme.undoSteps mode (approx, detail)).1
      (scheme.undoSteps mode (approx, detail)).2) = .ok (approx, detail) := by
  obtain ⟨hne, hlen⟩ := scheme.halves_undoSteps mode hhalves
  rw [forward_eq_ok mode (interleave_ne_nil hne), deinterleave_interleave hlen, Prod.mk.eta,
    runSteps_undoSteps h]

end LiftingScheme

end Steps

/-! ### Schemes with factors in a field -/

/- The only use of a number as an element of the field is the factor of an extrapolation, and
no law is asked of it: the second way to read a number stands for any map of the numbers into
the field, beside the one that the field comes with. -/
variable [Field K] [NatCast K] (mode : BoundaryMode)

namespace LiftingStep

set_option linter.overlappingInstances false in
/-- In a field a step is taken back if it multiplies by nothing that is zero. -/
lemma Invertible.takesBack {step : LiftingStep K} (h : step.Invertible) : step.TakesBack mode := by
  cases step with
  | predict stencil =>
    constructor <;> rintro ⟨even, odd⟩
    · simp [run, undo, stencil.lift_lift mode add_sub_cancel_right]
    · simp [run, undo, stencil.lift_lift mode sub_add_cancel]
  | update stencil =>
    constructor <;> rintro ⟨even, odd⟩
    · simp [run, undo, stencil.lift_lift mode add_sub_cancel_right]
    · simp [run, undo, stencil.lift_lift mode sub_add_cancel]
  | scale c d =>
    obtain ⟨hc, hd⟩ := h
    constructor <;> rintro ⟨even, odd⟩
    · simp [run, undo, Function.comp_def, mul_div_cancel_right₀ _ hc, mul_div_cancel_right₀ _ hd]
    · simp [run, undo, Function.comp_def, div_mul_cancel₀ _ hc, div_mul_cancel₀ _ hd]

end LiftingStep

namespace LiftingScheme

variable {scheme : LiftingScheme K}

set_option linter.overlappingInstances false in
/-- **A lifting scheme is a bijection.**  In every boundary mode, a scheme whose factors are
not zero transforms the signals that are not empty, one to one, into the pairs that its
inverse transform accepts, and the two transforms take each other back. -/
theorem forward_bijection (h : scheme.Invertible) :
    (∀ x, x ≠ [] → ∃ approx detail, scheme.forward mode x = .ok (approx, detail) ∧
      scheme.inverse mode approx detail = .ok x) ∧
    (∀ approx detail, Halves approx detail → ∃ x, scheme.inverse mode approx detail = .ok x ∧
      scheme.forward mode x = .ok (approx, detail)) ∧
    (∀ approx detail, (∃ x, scheme.inverse mode approx detail = .ok x) ↔ Halves approx detail) ∧
    Set.BijOn (scheme.forward mode) {x | x ≠ []}
      {r | ∃ approx detail, r = .ok (approx, detail) ∧
        ∃ x, scheme.inverse mode approx detail = .ok x} := by
  have htakes : scheme.TakesBack mode := fun step hstep => (h step hstep).takesBack mode
  have hback : ∀ x, x ≠ [] → ∃ approx detail, scheme.forward mode x = .ok (approx, detail) ∧
      scheme.inverse mode approx detail = .ok x :=
    fun x hx => ⟨_, _, forward_eq_ok mode hx, inverse_runSteps htakes hx⟩
  have hforth : ∀ approx detail, Halves approx detail → ∃ x,
      scheme.inverse mode approx detail = .ok x ∧ scheme.forward mode x = .ok (approx, detail) :=
    fun approx detail hhalves => ⟨_, inverse_eq_ok mode hhalves, forward_undoSteps htakes hhalves⟩
  refine ⟨hback, hforth, fun _ _ => inverse_isOk_iff mode, ?_, ?_, ?_⟩
  · intro x hx
    obtain ⟨approx, detail, hforward, hinverse⟩ := hback x hx
    exact ⟨approx, detail, hforward, x, hinverse⟩
  · intro x hx y hy hxy
    obtain ⟨approx, detail, hforward, hinverse⟩ := hback x hx
    obtain ⟨approx', detail', hforward', hinverse'⟩ := hback y hy
    rw [hforward, hforward', Except.ok.injEq, Prod.mk.injEq] at hxy
    rw [hxy.1, hxy.2, hinverse', Except.ok.injEq] at hinverse
    exact hinverse.symm
  · rintro _ ⟨approx, detail, rfl, hok⟩
    obtain ⟨x, -, hx⟩ := hforth approx detail ((inverse_isOk_iff mode).1 hok)
    refine ⟨x, ?_, hx⟩
    rintro rfl
    cases hx

/-- A scheme whose stencils read far outside of both parts of a signal of three samples. -/
theorem forward_bijection_rational :
    let scheme : LiftingScheme ℚ :=
      ⟨[.predict ⟨[1 / 2, -1 / 3], -4⟩, .update ⟨[2], 7⟩, .scale 3 (-1 / 5)]⟩
    scheme.Invertible ∧
      (∃ approx detail, scheme.forward .smooth [1, 2, 4] = .ok (approx, detail) ∧
        scheme.inverse .smooth approx detail = .ok [1, 2, 4]) ∧
      ∃ x, scheme.inverse .smooth [1, 2] [4] = .ok x ∧
        scheme.forward .smooth x = .ok ([1, 2], [4]) := by
  intro scheme
  have h : scheme.Invertible := by simp [scheme, Invertible, LiftingStep.Invertible]
  exact ⟨h, (forward_bijection .smooth h).1 _ (by simp),
    (forward_bijection .smooth h).2.1 _ _ (by simp [Halves])⟩

end LiftingScheme

end WaveletPrecision
