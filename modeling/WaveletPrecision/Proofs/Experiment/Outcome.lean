import WaveletPrecision.Proofs.Experiment.Comparison
import WaveletPrecision.Proofs.Storage.Codec

/-
The outcome of one unit of a comparison.

A file can be read as an array of a shape if it has eight bytes for each of the elements
(`FileTree.HoldsArray`); otherwise there is one error that says why not (`FileTree.Refuses`).  Both
files of a unit are read with the same shape, the compared one first, so a unit is compared if both
can be read, and otherwise the first one that cannot be read decides the outcome
(`FileTree.FirstRefused`, `compareUnit_outcome`).  This is so for shapes whose elements a word can
count; `compareUnit_outcome_overflow` is a unit of another shape.
-/
namespace WaveletPrecision

/-! ### One file -/

lemma Outcome.ofError_ne_compared {path : Path} {e : Error} {stats : ErrorStats Binary64} :
    ofError path e ≠ .compared stats := by
  rw [ofError]
  split <;> simp

lemma Outcome.ofError_ne_shapeMismatch {path : Path} {e : Error} {left right : List Nat} :
    ofError path e ≠ .shapeMismatch left right := by
  rw [ofError]
  split <;> simp

namespace FileTree

/-- A file has the bytes of an array of a shape. -/
def HoldsArray (tree : FileTree) (path : Path) (shape : List Nat) : Prop :=
  ∃ content, tree.read path = .ok content ∧ content.size = Artifact.wordBytes * shape.prod

/-- Why a file cannot be read as an array of a shape: it cannot be read at all, it does not consist
of whole words, or it has another number of them. -/
inductive Refuses (tree : FileTree) (path : Path) (shape : List Nat) : Error → Prop where
  | unreadable {fault : Fault} (h : tree.read path = .error fault) :
      Refuses tree path shape (.io .read path fault)
  | malformed {content : ByteArray} (h : tree.read path = .ok content)
      (hsize : ¬Artifact.wordBytes ∣ content.size) :
      Refuses tree path shape (.malformedArtifact path content.size)
  | misshapen {content : ByteArray} {count : Nat} (h : tree.read path = .ok content)
      (hsize : content.size = Artifact.wordBytes * count) (hother : count ≠ shape.prod) :
      Refuses tree path shape (.shapeMismatch shape count)

variable {tree : FileTree} {path : Path} {shape : List Nat} {e : Error}

/-- The values of an array are those that the file is the stored form of. -/
lemma holdsArray_iff :
    tree.HoldsArray path shape ↔ ∃ values, tree.read path = .ok (Artifact.encode values) ∧
      values.length = shape.prod := by
  constructor
  · rintro ⟨content, hread, hsize⟩
    obtain ⟨values, hvalues⟩ := Artifact.exists_decode?_iff.mpr ⟨_, hsize⟩
    obtain rfl := Artifact.decode?_eq_some_iff.mp hvalues
    refine ⟨values, hread, Nat.eq_of_mul_eq_mul_left (by decide : 0 < Artifact.wordBytes) ?_⟩
    rw [← hsize, Artifact.size_encode]
  · rintro ⟨values, hread, hlength⟩
    exact ⟨_, hread, by rw [Artifact.size_encode, hlength]⟩

lemma holdsArray_or_refuses (tree : FileTree) (path : Path) (shape : List Nat) :
    tree.HoldsArray path shape ∨ ∃ e, tree.Refuses path shape e := by
  cases hread : tree.read path with
  | error fault => exact .inr ⟨_, .unreadable hread⟩
  | ok content =>
    by_cases hsize : Artifact.wordBytes ∣ content.size
    · obtain ⟨count, hcount⟩ := hsize
      by_cases hshape : count = shape.prod
      · exact .inl ⟨content, hread, by rw [hcount, hshape]⟩
      · exact .inr ⟨_, .misshapen hread hcount hshape⟩
    · exact .inr ⟨_, .malformed hread hsize⟩

lemma Refuses.side_eq (hcount : shape.prod < wordCount) (h : tree.Refuses path shape e) :
    tree.side path shape = .error (.ofError path e) := by
  cases h with
  | unreadable h =>
    rw [side, Artifact.run_readTensor, h]
    rfl
  | malformed h hsize =>
    have hnone := Artifact.decode?_eq_none hsize
    rw [side, Artifact.run_readTensor, h]
    simp only [hnone]
    rfl
  | misshapen h hsize hother =>
    obtain ⟨values, hvalues⟩ := Artifact.exists_decode?_iff.mpr ⟨_, hsize⟩
    obtain rfl := Artifact.decode?_eq_some_iff.mp hvalues
    rw [Artifact.size_encode] at hsize
    obtain rfl := Nat.eq_of_mul_eq_mul_left (by decide : 0 < Artifact.wordBytes) hsize
    exact side_of_length_ne h (by rwa [elementCount_eq_prod hcount])

lemma Refuses.isNotFound_iff (h : tree.Refuses path shape e) :
    e.isNotFound ↔ tree.read path = .error .notFound := by
  cases h with
  | @unreadable fault h =>
    rw [h]
    cases fault <;> simp [Error.isNotFound]
  | malformed h _ => simp [h, Error.isNotFound]
  | misshapen h _ _ => simp [h, Error.isNotFound]

/-- A file that is not found is missing, and every other refusal is a failure. -/
lemma Refuses.ofError_eq (h : tree.Refuses path shape e) :
    (tree.read path = .error .notFound → Outcome.ofError path e = .missing path) ∧
      (tree.read path ≠ .error .notFound → Outcome.ofError path e = .failed e.message) := by
  rw [ne_eq, ← h.isNotFound_iff]
  exact ⟨fun hmissing => if_pos hmissing, fun hfound => if_neg hfound⟩

/-! ### Two files -/

/-- The first of two files that cannot be read as an array of a shape, and why. -/
inductive FirstRefused (tree : FileTree) (compared reference : Path) (shape : List Nat) :
    Path → Error → Prop where
  | compared {e : Error} (h : tree.Refuses compared shape e) :
      FirstRefused tree compared reference shape compared e
  | reference {e : Error} (hcompared : tree.HoldsArray compared shape)
      (h : tree.Refuses reference shape e) :
      FirstRefused tree compared reference shape reference e

variable {compared reference : Path}

lemma exists_firstRefused
    (h : ¬(tree.HoldsArray compared shape ∧ tree.HoldsArray reference shape)) :
    ∃ path e, tree.FirstRefused compared reference shape path e := by
  rcases tree.holdsArray_or_refuses compared shape with hcompared | ⟨e, hrefuses⟩
  · rcases tree.holdsArray_or_refuses reference shape with hreference | ⟨e, hrefuses⟩
    · exact absurd ⟨hcompared, hreference⟩ h
    · exact ⟨_, e, .reference hcompared hrefuses⟩
  · exact ⟨_, e, .compared hrefuses⟩

lemma FirstRefused.refuses (h : tree.FirstRefused compared reference shape path e) :
    tree.Refuses path shape e := by
  cases h with
  | compared h => exact h
  | reference _ h => exact h

variable (hcount : shape.prod < wordCount)
include hcount

lemma FirstRefused.ofSides_eq (h : tree.FirstRefused compared reference shape path e) :
    Outcome.ofSides (tree.side compared shape) (tree.side reference shape) = .ofError path e := by
  cases h with
  | compared h =>
    rw [h.side_eq hcount]
    rfl
  | reference hcompared h =>
    obtain ⟨values, hread, hlength⟩ := holdsArray_iff.mp hcompared
    rw [← elementCount_eq_prod hcount] at hlength
    rw [side_of_length_eq hread hlength, h.side_eq hcount]
    rfl

lemma HoldsArray.exists_ofSides_eq (hcompared : tree.HoldsArray compared shape)
    (hreference : tree.HoldsArray reference shape) :
    ∃ xs ys, tree.read compared = .ok (Artifact.encode xs) ∧
      tree.read reference = .ok (Artifact.encode ys) ∧
      Outcome.ofSides (tree.side compared shape) (tree.side reference shape)
        = .compared (.between xs ys) := by
  obtain ⟨xs, hxs, hxsLength⟩ := holdsArray_iff.mp hcompared
  obtain ⟨ys, hys, hysLength⟩ := holdsArray_iff.mp hreference
  rw [← elementCount_eq_prod hcount] at hxsLength hysLength
  exact ⟨xs, ys, hxs, hys, ofSides_of_length_eq hxs hxsLength hys hysLength⟩

end FileTree

end WaveletPrecision
