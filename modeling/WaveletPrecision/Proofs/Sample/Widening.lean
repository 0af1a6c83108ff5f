import WaveletPrecision.Proofs.Binary.Exact
import WaveletPrecision.Proofs.Sample.Narrowing

/-
Leaving a sample type, and entering it again.

All three sample types fit into binary64, so a sample is not rounded when it is widened.  The low
half of the word, which the conversion to bfloat16 forgets, is free in a value that comes from
there.  So a sample that is widened and narrowed is the same sample, bit for bit, unless it is not a
number (`Sample.narrow_widen`).
-/
namespace WaveletPrecision

namespace Sample

open Binary

lemma fitsIn_binary64 (p : Precision) : p.format.FitsIn .binary64 := by
  cases p <;> exact ⟨by decide, by decide⟩

/-- A bfloat16 value in a binary64 word has no low half. -/
lemma dropLow_convert {v : BFloat16} (hv : ¬v.isNaN) :
    (v.convert .binary64).dropLow BFloat16.ignoredBits = v.convert .binary64 := by
  have hdvd : 2 ^ BFloat16.ignoredBits ∣ (v.convert .binary64).code := by
    rcases isFinite_or_isInfinite hv with hfinite | hinfinite
    · exact (Nat.pow_dvd_pow 2 (by decide)).trans
        (convert_of_fitsIn (fitsIn_binary64 .bfloat16) hfinite).2.2.1
    · rw [eq_infinity_of_isInfinite hinfinite, convert_infinity]
      exact (Nat.pow_dvd_pow 2 (by decide)).trans (Nat.dvd_mul_left _ _)
  exact Binary.ext rfl (Nat.div_mul_cancel hdvd)

lemma ofBinary64_convert {v : BFloat16} (hv : ¬v.isNaN) :
    BFloat16.ofBinary64 (v.convert .binary64) = v := by
  have hwide : ¬(v.convert .binary64).isNaN := by rwa [isNaN_convert]
  rw [BFloat16.ofBinary64, if_neg hwide, dropLow_convert hv]
  exact convert_convert (fitsIn_binary64 .bfloat16) hv

/-- **A sample that is widened and narrowed** is the same sample, unless it is not a number. -/
lemma narrow_widen (p : Precision) {v : p.Carrier} (hv : ¬v.isNaN) :
    (narrow (widen v) : p.Carrier) = v := by
  cases p with
  | binary64 => rfl
  | binary32 => exact convert_convert (fitsIn_binary64 .binary32) hv
  | bfloat16 => exact ofBinary64_convert hv

lemma isNaN_widen (p : Precision) (v : p.Carrier) : (widen v).isNaN = v.isNaN := by
  cases p with
  | binary64 => rfl
  | binary32 => exact isNaN_convert .binary64 v
  | bfloat16 => exact isNaN_convert .binary64 v

end Sample

end WaveletPrecision
