/-
Names as people type them.

Wavelets, boundary modes, precisions, algorithms and dimensions are looked up without
regard to surrounding blanks and to the case of ASCII letters.
-/
namespace WaveletPrecision

namespace Name

/-- The characters with the Unicode property `White_Space`. -/
def isBlank (c : Char) : Bool :=
  let n := c.toNat
  (0x09 ≤ n && n ≤ 0x0d) || n == 0x20 || n == 0x85 || n == 0xa0 || n == 0x1680
    || (0x2000 ≤ n && n ≤ 0x200a) || n == 0x2028 || n == 0x2029 || n == 0x202f
    || n == 0x205f || n == 0x3000

/-- The text without the blanks at its two ends. -/
def trim (cs : List Char) : List Char :=
  ((cs.dropWhile isBlank).reverse.dropWhile isBlank).reverse

/-- The form in which a name is looked up: trimmed, with ASCII letters in lower case. -/
def normalize (s : String) : String :=
  String.ofList ((trim s.toList).map Char.toLower)

end Name

end WaveletPrecision
