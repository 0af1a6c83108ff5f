import WaveletPrecision.Binary.Conversion

/-
The sample types a transform runs in.

Signals and coefficients are stored as binary64 values.  A transform rounds them into its
sample type on entry, does every operation there, and widens the results on exit, which
is exact.  Binary64 and binary32 round each operation once; bfloat16 computes in binary32
and rounds the result again.
-/
namespace WaveletPrecision

/-- Double-precision values, the type of everything that is stored. -/
abbrev Binary64 := Binary Format.binary64

/-- Single-precision values. -/
abbrev Binary32 := Binary Format.binary32

/-- Values with the range of single precision and 8 bits of significand. -/
abbrev BFloat16 := Binary Format.bfloat16

/-- A type with the arithmetic that a transform needs, and its seam to binary64.

No law is asked of the operations. -/
class Sample (T : Type) extends Zero T, Add T, Sub T, Mul T, Div T, Neg T, NatCast T where
  /-- Round a binary64 value into the type. -/
  narrow : Binary64 → T
  /-- Widen to binary64. -/
  widen : T → Binary64

/-! ### Binary64 -/

instance : Zero Binary64 := ⟨.zero false⟩
instance : Add Binary64 := ⟨fun x y => x.add y⟩
instance : Sub Binary64 := ⟨fun x y => x.sub y⟩
instance : Mul Binary64 := ⟨fun x y => x.mul y⟩
instance : Div Binary64 := ⟨fun x y => x.div y⟩
instance : Neg Binary64 := ⟨.neg⟩
instance : NatCast Binary64 := ⟨fun n => .ofNat n⟩

instance : OfScientific Binary64 :=
  ⟨fun digits negativeExponent exponent =>
    .ofDecimal false digits (if negativeExponent then -(exponent : Int) else exponent)⟩

instance : Sample Binary64 where
  narrow x := x
  widen x := x

/-! ### Binary32 -/

/-- Round a binary64 value to single precision. -/
def Binary32.ofBinary64 (x : Binary64) : Binary32 := x.convert .binary32

instance : Zero Binary32 := ⟨.zero false⟩
instance : Add Binary32 := ⟨fun x y => x.add y⟩
instance : Sub Binary32 := ⟨fun x y => x.sub y⟩
instance : Mul Binary32 := ⟨fun x y => x.mul y⟩
instance : Div Binary32 := ⟨fun x y => x.div y⟩
instance : Neg Binary32 := ⟨.neg⟩
instance : NatCast Binary32 := ⟨fun n => .ofBinary64 (n : Binary64)⟩

instance : Sample Binary32 where
  narrow := Binary32.ofBinary64
  widen x := x.convert .binary64

/-! ### BFloat16 -/

namespace BFloat16

/-- The low bits of a binary64 word that the conversion to bfloat16 does not look at. -/
def ignoredBits : Nat := 32

/-- Round a binary64 value: its word first loses the ignored low bits, and what is left is
rounded to nearest even.  A not-a-number stays one. -/
def ofBinary64 (x : Binary64) : BFloat16 :=
  if x.isNaN then x.convert .bfloat16 else (x.dropLow ignoredBits).convert .bfloat16

/-- An operation of single precision on widened operands, its result rounded. -/
@[inline]
def viaBinary32 (op : Binary32 → Binary32 → Binary32) (x y : BFloat16) : BFloat16 :=
  (op (x.convert .binary32) (y.convert .binary32)).convert .bfloat16

end BFloat16

instance : Zero BFloat16 := ⟨.zero false⟩
instance : Add BFloat16 := ⟨BFloat16.viaBinary32 (·.add ·)⟩
instance : Sub BFloat16 := ⟨BFloat16.viaBinary32 (·.sub ·)⟩
instance : Mul BFloat16 := ⟨BFloat16.viaBinary32 (·.mul ·)⟩
instance : Div BFloat16 := ⟨BFloat16.viaBinary32 (·.div ·)⟩
instance : Neg BFloat16 := ⟨.neg⟩
instance : NatCast BFloat16 := ⟨fun n => .ofBinary64 (n : Binary64)⟩

instance : Sample BFloat16 where
  narrow := BFloat16.ofBinary64
  widen x := x.convert .binary64

/-! ### Lists of samples -/

namespace Sample

/-- Round every value of a list into the sample type. -/
def narrowAll (T : Type) [Sample T] (xs : List Binary64) : List T := xs.map narrow

/-- Widen every sample of a list. -/
def widenAll {T : Type} [Sample T] (xs : List T) : List Binary64 := xs.map widen

end Sample

end WaveletPrecision
