import Mathlib.Data.List.GetD
import Mathlib.LinearAlgebra.Finsupp.LinearCombination
import Mathlib.Tactic.Ring

/-
Linear forms, and lists of them.

A linear form of `n` numbers is a combination of the numbers, whose factors depend on nothing.
The linear forms are a module (`linearForms`), so sums and multiples of linear forms are linear
forms by the laws of the library, and what they are combinations of is read off at the end
(`mem_linearForms_iff`).

A program computes lists from lists, so what is said here about one number is said about a list
as a whole (`LinearForms`): it has the same length whatever the numbers are, and each of its
elements is a linear form.  Such a list is the product of the numbers with a matrix
(`LinearForms.exists_table`).
-/
namespace WaveletPrecision

open Finset

variable {K : Type} [CommRing K] {m n : ℕ}

/-- The linear forms of `n` numbers: the combinations of their coordinates. -/
def linearForms (K : Type) [CommRing K] (n : ℕ) : Submodule K ((Fin n → K) → K) :=
  Submodule.span K (Set.range fun (i : Fin n) (v : Fin n → K) => v i)

lemma coordinate_mem_linearForms (i : Fin n) : (fun v : Fin n → K => v i) ∈ linearForms K n :=
  Submodule.subset_span ⟨i, rfl⟩

/-- A linear form is a sum of multiples of the numbers. -/
lemma mem_linearForms_iff {f : (Fin n → K) → K} :
    f ∈ linearForms K n ↔ ∃ c : Fin n → K, ∀ v, f v = ∑ i, c i * v i := by
  rw [linearForms, Submodule.mem_span_range_iff_exists_fun]
  refine exists_congr fun c => ?_
  constructor
  · rintro rfl v
    simp
  · intro h
    ext v
    simp [h]

/-- A list that is made of `n` numbers has always the same length, and each of its elements is a
linear form of the numbers. -/
structure LinearForms (m : ℕ) (l : (Fin n → K) → List K) : Prop where
  length_eq : ∀ v, (l v).length = m
  getD_mem : ∀ i, (fun v => (l v).getD i 0) ∈ linearForms K n

namespace LinearForms

variable {l : (Fin n → K) → List K}

lemma of_lt (hlength : ∀ v, (l v).length = m)
    (h : ∀ i < m, (fun v => (l v).getD i 0) ∈ linearForms K n) : LinearForms m l := by
  refine ⟨hlength, fun i => ?_⟩
  by_cases hi : i < m
  · exact h i hi
  · have hzero : (fun v => (l v).getD i 0) = 0 := by
      ext v
      exact List.getD_eq_default _ _ (by rw [hlength]; omega)
    rw [hzero]
    exact Submodule.zero_mem _

lemma ofFn : LinearForms n (List.ofFn : (Fin n → K) → List K) := by
  refine of_lt (fun v => List.length_ofFn) fun i hi => ?_
  have hcoordinate : (fun v : Fin n → K => (List.ofFn v).getD i 0) = fun v => v ⟨i, hi⟩ := by
    ext v
    rw [List.getD_eq_getElem _ _ (by simpa using hi), List.getElem_ofFn]
  rw [hcoordinate]
  exact coordinate_mem_linearForms _

/-- **A list of linear forms is a product with a matrix.** -/
lemma exists_table (h : LinearForms m l) :
    ∃ a : Fin m → Fin n → K, ∀ v, l v = List.ofFn fun r => ∑ i, a r i * v i := by
  choose c hc using fun r : Fin m => mem_linearForms_iff.mp (h.getD_mem r)
  refine ⟨c, fun v => List.ext_getElem (by simp [h.length_eq]) fun i hi hi' => ?_⟩
  have hform := hc ⟨i, by simpa using hi'⟩ v
  rw [List.getD_eq_getElem _ _ hi] at hform
  rw [hform, List.getElem_ofFn]

end LinearForms

end WaveletPrecision
