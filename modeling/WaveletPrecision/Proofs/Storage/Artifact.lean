import Mathlib.Data.List.GetD
import WaveletPrecision.Proofs.Matrix.Tensor
import WaveletPrecision.Proofs.Storage.Store
import WaveletPrecision.Storage.Artifact

/-
Stored arrays in a file tree.

Values are read as they were stored (`Artifact.decode?_encode`), so a tensor can be read
from a file of values exactly if its shape has room for their number
(`Artifact.run_readTensor_of_read`).

The results of one transform stand beside each other: the paths of two kinds of results
agree in all pieces but the last one, and the last pieces differ in what is put behind the
name of the wavelet (`Artifact.place_path_ne`), whatever the names.  When the names can name
entries of directories, the last two names of a place tell the input, the wavelet and the
kind of result (`Artifact.place_path`, `Artifact.place_path_injective`).
-/
namespace WaveletPrecision

-- Powers are those of the core library, whatever else is imported beside this module.
attribute [local instance (high)] instPowNat

namespace Artifact

/-! ### The format -/

@[simp] lemma length_lowBytes (count n : Nat) : (lowBytes count n).length = count := by
  induction count generalizing n with
  | zero => rfl
  | succ count ih => rw [lowBytes, List.length_cons, ih]

@[simp] lemma length_encodeValue (x : Binary64) : (encodeValue x).length = wordBytes :=
  length_lowBytes wordBytes _

/-- So many bytes of a number are the number below that power. -/
lemma ofLowBytes_lowBytes (count n : Nat) : ofLowBytes (lowBytes count n) = n % 256 ^ count := by
  induction count generalizing n with
  | zero => rw [Nat.pow_zero, Nat.mod_one]; rfl
  | succ count ih =>
    have hrest : ofLowBytes (lowBytes (count + 1) n)
        = (UInt8.ofNat n).toNat + 256 * ofLowBytes (lowBytes count (n / 256)) := rfl
    rw [hrest, ih, Nat.pow_succ', Nat.mod_mul, UInt8.toNat_ofNat']

lemma toWord_lt (x : Binary64) : x.toWord < 256 ^ wordBytes := by
  have hcode := x.code_lt
  have hcount : (256 ^ wordBytes : Nat)
      = Format.binary64.codeCount + Format.binary64.codeCount := rfl
  rw [hcount, Binary.toWord]
  split <;> omega

lemma decodeValue_encodeValue (x : Binary64) : decodeValue (encodeValue x) = x := by
  rw [decodeValue, encodeValue, ofLowBytes_lowBytes, Nat.mod_eq_of_lt (toWord_lt x),
    Binary.ofWord_toWord]

lemma size_encode (values : List Binary64) : (encode values).size = wordBytes * values.length := by
  have hsize : (encode values).size = (values.flatMap encodeValue).length := by
    simp [encode, ByteArray.size]
  rw [hsize, List.length_flatMap]
  simp [Nat.mul_comm]

/-- The elements of lists of one length that are put one behind the other. -/
lemma getD_flatMap {A B : Type} {f : A → List B} {size : Nat} (hsize : ∀ a, (f a).length = size)
    {l : List A} {n i : Nat} (hn : n < l.length) (hi : i < size) (b : B) :
    (l.flatMap f).getD (size * n + i) b = (f l[n]).getD i b := by
  induction l generalizing n with
  | nil => cases hn
  | cons a l ih =>
    rw [List.flatMap_cons]
    cases n with
    | zero =>
      rw [Nat.mul_zero, Nat.zero_add, List.getD_append _ _ _ _ (by rwa [hsize])]
      rfl
    | succ n =>
      have hplace : size * (n + 1) + i - size = size * n + i := by
        rw [Nat.mul_succ]
        omega
      rw [List.getD_append_right _ _ _ _ (by rw [hsize, Nat.mul_succ]; omega), hsize, hplace,
        ih (Nat.lt_of_succ_lt_succ hn)]
      rfl

lemma byteAt_encode (values : List Binary64) (i : Nat) :
    byteAt (encode values) i = (values.flatMap encodeValue).getD i 0 := by
  rw [byteAt]
  split
  · rename_i hi
    have hi' : i < (values.flatMap encodeValue).length := by simpa [encode, ByteArray.size] using hi
    rw [List.getD_eq_getElem _ _ hi']
    rfl
  · rename_i hi
    have hi' : (values.flatMap encodeValue).length ≤ i := by
      simpa [encode, ByteArray.size] using hi
    rw [List.getD_eq_default _ _ hi']

lemma wordAt_encode {values : List Binary64} {n : Nat} (hn : n < values.length) :
    wordAt (encode values) n = encodeValue values[n] := by
  apply List.ext_getElem
  · simp [wordAt]
  · intro i hi hi'
    rw [length_encodeValue] at hi'
    have hbyte : (wordAt (encode values) n)[i] = byteAt (encode values) (wordBytes * n + i) := by
      simp [wordAt]
    refine hbyte.trans ?_
    rw [byteAt_encode, getD_flatMap length_encodeValue hn hi', List.getD_eq_getElem]

/-- **Values are read as they were stored.** -/
lemma decode?_encode (values : List Binary64) : decode? (encode values) = some values := by
  rw [decode?, size_encode, if_pos (Nat.mul_mod_right _ _), Nat.mul_div_cancel_left _ (by decide)]
  congr 1
  apply List.ext_getElem
  · simp
  · intro n _ hn
    simp [wordAt_encode hn, decodeValue_encodeValue]

/-! ### Reading tensors -/

section Files

variable {tree : FileTree} {path : Path}

lemma run_readValues (tree : FileTree) (path : Path) :
    tree.run (readValues path) =
      (match tree.read path with
        | .ok content =>
          match decode? content with
          | some values => .ok values
          | none => .error (.malformedArtifact path content.size)
        | .error fault => .error (.io .read path fault), tree) := by
  rw [readValues, FileTree.run_bind, FileTree.run_readBytes]
  cases tree.read path with
  | error fault => rfl
  | ok content =>
    simp only [Except.mapError]
    cases decode? content <;> rfl

lemma run_readTensor (tree : FileTree) (path : Path) (shape : List Nat) :
    tree.run (readTensor path shape) =
      (match tree.read path with
        | .ok content =>
          match decode? content with
          | some values => Tensor.ofData shape values
          | none => .error (.malformedArtifact path content.size)
        | .error fault => .error (.io .read path fault), tree) := by
  rw [readTensor, FileTree.run_bind, run_readValues]
  cases tree.read path with
  | error fault => rfl
  | ok content =>
    simp only
    cases decode? content <;> rfl

/-- **Stored values are read** as a tensor of any shape that has room for their number. -/
lemma run_readTensor_of_read {values : List Binary64} (h : tree.read path = .ok (encode values))
    (shape : List Nat) :
    tree.run (readTensor path shape) = (Tensor.ofData shape values, tree) := by
  rw [run_readTensor, h]
  simp only [decode?_encode]

/-- **A tensor that could be read** has the shape that was asked for and the values of a file. -/
lemma run_readTensor_eq_ok_iff {after : FileTree} {shape : List Nat} {t : Tensor Binary64} :
    tree.run (readTensor path shape) = (.ok t, after) ↔
      after = tree ∧ t.shape = shape ∧
        ∃ content, tree.read path = .ok content ∧ decode? content = some t.data := by
  rw [run_readTensor, Prod.mk.injEq]
  constructor
  · rintro ⟨h, rfl⟩
    refine ⟨rfl, ?_⟩
    split at h
    · rename_i content hread
      split at h
      · rename_i values hvalues
        obtain ⟨hshape, hdata⟩ := Tensor.ofData_eq_ok_iff.mp h
        exact ⟨hshape, content, hread, by rw [hvalues, hdata]⟩
      · cases h
    · cases h
  · rintro ⟨rfl, rfl, content, hread, hvalues⟩
    rw [hread]
    simp only [hvalues]
    exact ⟨Tensor.ofData_of_length_eq t.length_eq, trivial⟩

end Files

end Artifact

/-! ### The places of artifacts -/

namespace Suffix

lemma separator_notMem_name (suffix : Suffix) : Path.separator ∉ suffix.name.toList := by
  cases suffix <;> decide

lemma exists_mem_name (suffix : Suffix) : ∃ c ∈ suffix.name.toList, c ≠ '.' := by
  cases suffix <;> simp [name]

lemma name_injective {suffix suffix' : Suffix} (h : suffix.name = suffix'.name) :
    suffix = suffix' := by
  revert h
  cases suffix <;> cases suffix' <;> decide

/-- No ending of a file name, with the mark before it, is the end of another one. -/
lemma eq_of_isSuffix {suffix suffix' : Suffix}
    (h : '_' :: suffix.name.toList <:+ '_' :: suffix'.name.toList) : suffix = suffix' := by
  revert h
  cases suffix <;> cases suffix' <;> decide

end Suffix

namespace Artifact

/-- The results of one transform are beside each other. -/
lemma exists_place_path (root : Path) (input wavelet : String) :
    ∃ place last, ∀ suffix,
      (path root input wavelet suffix).place = (last ++ suffix.name) :: place := by
  obtain ⟨init, last, h⟩ :=
    Path.exists_pieces_join (root.join (.ofString input)) (wavelet ++ "_")
  refine ⟨Path.placeOf init, last, fun suffix => ?_⟩
  obtain ⟨c, hmem, hc⟩ := suffix.exists_mem_name
  have hplain : Path.IsPlain (last ++ suffix.name) :=
    Path.isPlain_of_mem (by rw [String.toList_append]; exact List.mem_append_right _ hmem) hc
  rw [path, Path.place, h _ suffix.separator_notMem_name, Path.placeOf_concat,
    Path.stepTo_of_isPlain hplain]

/-- **Two kinds of results of one transform have different places**, whatever the names. -/
lemma place_path_ne (root : Path) (input wavelet : String) {suffix suffix' : Suffix}
    (h : suffix ≠ suffix') :
    (path root input wavelet suffix).place ≠ (path root input wavelet suffix').place := by
  obtain ⟨place, last, hplace⟩ := exists_place_path root input wavelet
  rw [hplace, hplace]
  intro heq
  exact h (Suffix.name_injective (by simpa using heq))

/-- What is put behind the name of an entry gives the name of an entry. -/
lemma isFileName_append {wavelet : String} (h : Path.isFileName wavelet = true) (suffix : Suffix) :
    Path.isFileName (wavelet ++ "_" ++ suffix.name) = true := by
  have hplain : Path.IsPlain (wavelet ++ "_" ++ suffix.name) :=
    Path.isPlain_of_mem (c := '_') (by simp) (by decide)
  have hsuffix : ∀ c ∈ suffix.name.toList, ¬(c = Path.separator ∨ c = '\\') := by
    cases suffix <;> simp [Suffix.name, Path.separator]
  simp only [Path.IsPlain, Path.isIdle, Bool.or_eq_false_iff, decide_eq_false_iff_not] at hplain
  simp only [Path.isFileName, Bool.and_eq_true, decide_eq_true_eq, Bool.not_eq_true',
    List.any_eq_false, String.toList_append, List.mem_append] at h ⊢
  refine ⟨⟨hplain.1, hplain.2⟩, ?_⟩
  rintro c ((hc | hc) | hc)
  · exact h.2 c hc
  · have hmark : c = '_' := by simpa using hc
    rw [hmark]
    decide
  · simpa using hsuffix c hc

variable {input input' wavelet wavelet' : String} {suffix suffix' : Suffix}

/-- **The place of a result** of names of entries is two steps below the directory. -/
lemma place_path (root : Path) (hinput : Path.isFileName input = true)
    (hwavelet : Path.isFileName wavelet = true) :
    (path root input wavelet suffix).place
      = (wavelet ++ "_" ++ suffix.name) :: input :: root.place := by
  rw [path, Path.place_join_name _ (isFileName_append hwavelet suffix),
    Path.place_join_name _ hinput]

/-- The name of a wavelet and the kind of result are known from the name of the file. -/
lemma fileName_injective (h : wavelet ++ "_" ++ suffix.name = wavelet' ++ "_" ++ suffix'.name) :
    wavelet = wavelet' ∧ suffix = suffix' := by
  have hlist : wavelet.toList ++ '_' :: suffix.name.toList
      = wavelet'.toList ++ '_' :: suffix'.name.toList := by
    simpa using congrArg String.toList h
  have hsuffix : suffix = suffix' := by
    rcases List.suffix_or_suffix_of_suffix (List.suffix_append _ _)
      (hlist ▸ List.suffix_append _ _) with hend | hend
    · exact (Suffix.eq_of_isSuffix hend).symm
    · exact Suffix.eq_of_isSuffix hend
  subst hsuffix
  exact ⟨String.toList_inj.mp (List.append_cancel_right hlist), rfl⟩

/-- **The places of results tell them apart.** -/
lemma place_path_injective {root root' : Path} (hinput : Path.isFileName input = true)
    (hinput' : Path.isFileName input' = true) (hwavelet : Path.isFileName wavelet = true)
    (hwavelet' : Path.isFileName wavelet' = true)
    (h : (path root input wavelet suffix).place = (path root' input' wavelet' suffix').place) :
    input = input' ∧ wavelet = wavelet' ∧ suffix = suffix' := by
  rw [place_path root hinput hwavelet, place_path root' hinput' hwavelet', List.cons.injEq,
    List.cons.injEq] at h
  obtain ⟨hname, rfl, -⟩ := h
  exact ⟨rfl, fileName_injective hname⟩

end Artifact

end WaveletPrecision
