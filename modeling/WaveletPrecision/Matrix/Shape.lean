/-
Shapes, and how their elements are counted.

The extents of a shape are multiplied as machine words, and what exceeds a word is lost.  So the
count is the product of the extents as long as the product is below `wordCount`, and a shape of more
elements is counted short.
-/
namespace WaveletPrecision

/-- The number of values of a machine word. -/
def wordCount : Nat := 18446744073709551616

/-- The number of elements of a shape, as it is counted: the first extent times each of the others
in turn, every product modulo `wordCount`.  A shape without dimensions has one element. -/
def elementCount : List Nat → Nat
  | [] => 1
  | extent :: rest => rest.foldl (fun count extent => count * extent % wordCount) extent

end WaveletPrecision
