import WaveletPrecision.Sample.Basic

/-
Sources of random words and of normal samples, and the uniform samples made of words.

A source is a state and a step that draws the next 64-bit word, or the next normal sample.
What is drawn from a source is a function of the state, so a seeded run can be repeated.
-/
namespace WaveletPrecision

/-- A state from which 64-bit words can be drawn. -/
class RandomSource (S : Type) where
  /-- The next word, and the state after it. -/
  next : S → UInt64 × S

/-- A state from which samples of the standard normal distribution can be drawn, in single
precision. -/
class NormalSource (S : Type) where
  /-- The next sample, and the state after it. -/
  next : S → Binary32 × S

namespace RandomSource

variable {S : Type}

/-! ### Repeated steps -/

/-- The results of so many steps, behind those already taken, which stand in reverse. -/
def collectOnto {A : Type} (step : S → A × S) : Nat → List A → S → List A × S
  | 0, taken, s => (taken.reverse, s)
  | n + 1, taken, s => collectOnto step n ((step s).1 :: taken) (step s).2

/-- The results of so many steps, each from the state that the one before left, and the last
state. -/
def collect {A : Type} (step : S → A × S) (n : Nat) (s : S) : List A × S :=
  collectOnto step n [] s

theorem collectOnto_eq {A : Type} (step : S → A × S) (n : Nat) (taken : List A) (s : S) :
    collectOnto step n taken s
      = (taken.reverse ++ (collect step n s).1, (collect step n s).2) := by
  induction n generalizing taken s with
  | zero => simp [collect, collectOnto]
  | succ n ih =>
    rw [collect, collectOnto, collectOnto, ih, ih [(step s).1]]
    simp

theorem collect_succ {A : Type} (step : S → A × S) (n : Nat) (s : S) :
    collect step (n + 1) s
      = ((step s).1 :: (collect step n (step s).2).1, (collect step n (step s).2).2) := by
  rw [collect, collectOnto, collectOnto_eq]
  rfl

theorem length_collect {A : Type} (step : S → A × S) (n : Nat) (s : S) :
    (collect step n s).1.length = n := by
  induction n generalizing s with
  | zero => rfl
  | succ n ih => rw [collect_succ, List.length_cons, ih]

/-! ### Draws -/

variable [RandomSource S]

/-- The state after so many draws. -/
def skip : Nat → S → S
  | 0, s => s
  | n + 1, s => skip n (next s).2

/-- The word of the draw with a given number, counted from zero. -/
def draw (s : S) (n : Nat) : UInt64 := (next (skip n s)).1

/-- So many samples, one from each word, and the state after them. -/
def samples {K : Type} (ofWord : UInt64 → K) (n : Nat) (s : S) : List K × S :=
  collect (fun s => (ofWord (next s).1, (next s).2)) n s

end RandomSource

/-- The words of a list, drawn over and over; an empty list gives zeros. -/
structure WordCycle where
  all : List UInt64
  left : List UInt64

namespace WordCycle

/-- The cycle of a list, at its start. -/
def ofList (words : List UInt64) : WordCycle := ⟨words, words⟩

instance : RandomSource WordCycle where
  next s :=
    match s.left with
    | word :: rest => (word, { s with left := rest })
    | [] =>
      match s.all with
      | word :: rest => (word, { s with left := rest })
      | [] => (0, s)

end WordCycle

/-! ### Uniform samples -/

/-- The number of bits of a word. -/
def wordBits : Nat := 64

/-- The number of leading bits of a word that decide on a sample of `[0, 1)`. -/
def unitBits : Nat := 53

/-- A sample of `[0, 1)`: the leading bits of the word as a binary fraction. -/
def unitSample (word : UInt64) : Binary64 :=
  .ofScaled false (word.toNat >>> (wordBits - unitBits)) (Format.binary64.places - unitBits)

/-- The binary64 value whose word has the exponent of `one` and, as its fraction field, as many
leading bits of `word` as fit into the field. -/
def fractionOf (one : Binary64) (word : UInt64) : Binary64 :=
  .ofWord (one.toWord + word.toNat >>> (wordBits - Format.binary64.fractionBits))

/-- A sample of `[-1, 1)`. -/
def symmetricSample (word : UInt64) : Binary64 :=
  let one : Binary64 := 1.0
  (fractionOf one word - one) * 2.0 + -one

end WaveletPrecision
