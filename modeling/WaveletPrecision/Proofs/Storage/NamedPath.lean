import Mathlib.Data.List.DropRight
import WaveletPrecision.Proofs.Storage.FileTree

/-
Relative paths made of names.

A path of this kind (`Path.IsNamed`) goes down from the root by one name after the other, so
every location on its way is a part of its place, and the path above it is one of the same
kind, or the empty one (`Path.IsNamed.exists_parent`).  A name below such a path gives another
one (`Path.IsNamed.join_name`).

A path is accepted (`Path.Accepted`) if neither the path nor one of the names in it is longer
than what can be looked up; then so is everything above it (`Path.Accepted.of_prefix`).
-/
namespace WaveletPrecision

namespace Path

/-! ### Pieces without a way up -/

lemma IsPlain.ne_empty {piece : String} (h : IsPlain piece) : piece ≠ "" := by
  rintro rfl
  simp [IsPlain, isIdle] at h

lemma IsPlain.ne_dot {piece : String} (h : IsPlain piece) : piece ≠ "." := by
  rintro rfl
  simp [IsPlain, isIdle] at h

/-- A piece that leads down by its name, or nowhere. -/
def IsDescent (piece : String) : Prop := piece = "" ∨ IsPlain piece

lemma isIdle_iff_of_isDescent {piece : String} (h : IsDescent piece) :
    isIdle piece = true ↔ piece = "" := by
  rcases h with rfl | hplain
  · simp [isIdle]
  · simp [hplain.1, hplain.ne_empty]

lemma stepTo_of_isIdle {piece : String} (h : isIdle piece = true) (place : Location) :
    stepTo place piece = place := by
  rw [stepTo, if_pos h]

/-- The names of a location are pieces of every way to it. -/
lemma mem_of_mem_placeOf {pieces : List String} {name : String} (h : name ∈ placeOf pieces) :
    name ∈ pieces := by
  induction pieces using List.reverseRecOn with
  | nil => exact h
  | append_singleton pieces piece ih =>
    rw [placeOf_concat, stepTo] at h
    rw [List.mem_append, List.mem_singleton]
    split at h
    · exact .inl (ih h)
    · split at h
      · exact .inl (ih (List.mem_of_mem_tail h))
      · rcases List.mem_cons.mp h with rfl | h
        · exact .inr rfl
        · exact .inl (ih h)

lemma dropIdle_concat (pieces : List String) (piece : String) :
    dropIdle (pieces ++ [piece]) = if isIdle piece then dropIdle pieces else pieces ++ [piece] :=
  List.rdropWhile_concat isIdle pieces piece

lemma dropIdle_prefix_self (pieces : List String) : dropIdle pieces <+: pieces :=
  List.rdropWhile_prefix isIdle pieces

/-- Idle pieces at the end do not change where a way leads. -/
lemma placeOf_dropIdle (pieces : List String) : placeOf (dropIdle pieces) = placeOf pieces := by
  induction pieces using List.reverseRecOn with
  | nil => rfl
  | append_singleton pieces piece ih =>
    rw [dropIdle_concat]
    split
    · rename_i hidle
      rw [ih, placeOf_concat, stepTo_of_isIdle hidle]
    · rfl

/-- Without a dot among the pieces, the idle ones are the empty ones. -/
lemma namedPieces_eq_dropIdle {p : Path} (h : ∀ piece ∈ p.pieces, IsDescent piece) :
    FileTree.namedPieces p = dropIdle p.pieces := by
  obtain ⟨pieces⟩ := p
  change pieces.rdropWhile (· = "") = pieces.rdropWhile isIdle
  induction pieces using List.reverseRecOn with
  | nil => rfl
  | append_singleton pieces piece ih =>
    simp only [List.mem_append, List.mem_singleton, or_imp, forall_and, forall_eq] at h
    rw [List.rdropWhile_concat, List.rdropWhile_concat, ih h.1]
    simp only [isIdle_iff_of_isDescent h.2, decide_eq_true_eq]

/-! ### Paths made of names -/

/-- A relative path whose components are names.  Separators may be repeated, and stand at the
end, so that there are empty pieces behind the first one. -/
structure IsNamed (p : Path) : Prop where
  first : ∃ name rest, p.pieces = name :: rest ∧ IsPlain name
  descent : ∀ piece ∈ p.pieces, IsDescent piece

variable {p : Path}

lemma IsNamed.ne_empty (h : p.IsNamed) : p ≠ empty := by
  rintro rfl
  obtain ⟨name, rest, hpieces, hplain⟩ := h.first
  exact hplain.ne_empty (List.cons.inj hpieces).1.symm

lemma IsNamed.pieces_ne_nil (h : p.IsNamed) : p.pieces ≠ [] := by
  obtain ⟨name, rest, hpieces, -⟩ := h.first
  rw [hpieces]
  exact List.cons_ne_nil _ _

lemma IsNamed.of_prefix (h : p.IsNamed) {pieces : List String} (hpart : pieces <+: p.pieces)
    (hne : pieces ≠ []) : IsNamed ⟨pieces⟩ := by
  refine ⟨?_, fun piece hpiece => h.descent piece (hpart.mem hpiece)⟩
  obtain ⟨name, rest, hpieces, hplain⟩ := h.first
  obtain ⟨first, others, rfl⟩ := List.exists_cons_of_ne_nil hne
  rw [hpieces, List.cons_prefix_cons] at hpart
  exact ⟨first, others, rfl, hpart.1 ▸ hplain⟩

/-- The last name of a path, and the way down to it. -/
lemma IsNamed.exists_last (h : p.IsNamed) :
    ∃ init name, dropIdle p.pieces = init ++ [name] ∧ (∀ piece ∈ init, IsDescent piece) ∧
      IsPlain name ∧ p.place = name :: placeOf init := by
  obtain ⟨first, rest, hpieces, hplain⟩ := h.first
  have hne : dropIdle p.pieces ≠ [] := by
    rw [hpieces, dropIdle, Ne, List.reverse_eq_nil_iff, List.dropWhile_eq_nil_iff]
    intro hidle
    simpa [hplain.1] using hidle first (by simp)
  obtain ⟨init, name, hlast⟩ : ∃ init name, dropIdle p.pieces = init ++ [name] :=
    ⟨_, _, (List.dropLast_append_getLast hne).symm⟩
  have hdescent : ∀ piece ∈ init ++ [name], IsDescent piece := fun piece hpiece =>
    h.descent piece ((dropIdle_prefix_self p.pieces).mem (hlast ▸ hpiece))
  have hname : IsPlain name := by
    refine (hdescent name (by simp)).resolve_left fun hempty => ?_
    have hactive : ¬isIdle ((dropIdle p.pieces).getLast hne) = true :=
      List.rdropWhile_last_not isIdle p.pieces hne
    simp [hlast, hempty, isIdle] at hactive
  refine ⟨init, name, hlast, fun piece hpiece => hdescent piece (List.mem_append_left _ hpiece),
    hname, ?_⟩
  rw [place, ← placeOf_dropIdle, hlast, placeOf_concat, stepTo_of_isPlain hname]

/-- Above a path made of names there is the empty path or a shorter path made of names. -/
lemma IsNamed.exists_parent (h : p.IsNamed) :
    ∃ q name, p.parent? = some q ∧ p.place = name :: q.place ∧
      (q = empty ∨ q.IsNamed ∧ q.pieces <+: p.pieces ∧ q.pieces.length < p.pieces.length) := by
  obtain ⟨init, name, hlast, -, -, hplace⟩ := h.exists_last
  rw [← placeOf_dropIdle] at hplace
  have hstart : splitStart p.pieces = ([], p.pieces) := by
    obtain ⟨first, rest, hpieces, hplain⟩ := h.first
    rw [hpieces]
    unfold splitStart
    split
    · rename_i heq
      exact absurd (List.cons.inj heq).1 hplain.ne_empty
    · rename_i heq
      exact absurd (List.cons.inj heq).1 hplain.ne_dot
    · rfl
  have hparent : p.parent? = some (if dropIdle init = [""] then ⟨["", ""]⟩
      else if dropIdle init = [] then empty else ⟨dropIdle init⟩) := by
    simp [parent?, hstart, hlast]
  have hinit : init ++ [name] <+: p.pieces := hlast ▸ dropIdle_prefix_self p.pieces
  have hpart : dropIdle init <+: p.pieces :=
    (dropIdle_prefix_self init).trans ((List.prefix_append init [name]).trans hinit)
  by_cases hnone : dropIdle init = []
  · rw [hnone] at hplace
    exact ⟨empty, name, by simp [hparent, hnone], hplace, .inl rfl⟩
  · have hnamed := h.of_prefix hpart hnone
    have hroot : dropIdle init ≠ [""] := fun hroot => hnamed.ne_empty (by rw [hroot]; rfl)
    have hshort : (dropIdle init).length < p.pieces.length := by
      have := (dropIdle_prefix_self init).length_le
      have := hinit.length_le
      simp only [List.length_append, List.length_singleton] at this
      omega
    exact ⟨⟨dropIdle init⟩, name, by simp [hparent, hnone, hroot], hplace,
      .inr ⟨hnamed, hpart, hshort⟩⟩

lemma isNamed_ofString {name : String} (h : isFileName name = true) : (ofString name).IsNamed := by
  have hplain := isPlain_of_isFileName h
  rw [ofString_of_notMem (separator_notMem_of_isFileName h)]
  exact ⟨⟨name, [], rfl, hplain⟩, by simp [IsDescent, hplain]⟩

lemma IsNamed.join_name (h : p.IsNamed) {name : String} (hname : isFileName name = true) :
    (p.join (ofString name)).IsNamed := by
  have hpieces := pieces_join_name p (separator_notMem_of_isFileName hname)
  have hplain := isPlain_of_isFileName hname
  have hstem : p.stem <+: p.pieces := by
    rw [stem]
    split
    · exact List.dropLast_prefix _
    · exact List.prefix_rfl
  constructor
  · obtain ⟨first, rest, hfirst, hfirstPlain⟩ := h.first
    rw [hpieces]
    rcases hcases : p.stem with _ | ⟨first', rest'⟩
    · exact ⟨name, [], rfl, hplain⟩
    · rw [hcases, hfirst, List.cons_prefix_cons] at hstem
      exact ⟨first', rest' ++ [name], rfl, hstem.1 ▸ hfirstPlain⟩
  · rw [hpieces]
    intro piece hpiece
    rcases List.mem_append.mp hpiece with hpiece | hpiece
    · exact h.descent piece (hstem.mem hpiece)
    · rw [List.mem_singleton.mp hpiece]
      exact .inr hplain

lemma dropIdle_join_name (p : Path) {name : String} (hname : isFileName name = true) :
    dropIdle (p.join (ofString name)).pieces = (p.join (ofString name)).pieces := by
  rw [pieces_join_name p (separator_notMem_of_isFileName hname), dropIdle_concat,
    (isPlain_of_isFileName hname).1]
  rfl

/-! ### Accepted paths -/

/-- A path and the names in it can be looked up. -/
structure Accepted (p : Path) : Prop where
  valid : p.validate = .ok ()
  short : ∀ piece ∈ p.pieces, piece.utf8ByteSize ≤ FileTree.nameLimit

instance (p : Path) : Decidable p.Accepted :=
  decidable_of_iff
    (p.validate = .ok () ∧ ∀ piece ∈ p.pieces, piece.utf8ByteSize ≤ FileTree.nameLimit)
    ⟨fun h => ⟨h.1, h.2⟩, fun h => ⟨h.valid, h.short⟩⟩

lemma validate_eq_ok_iff :
    p.validate = .ok () ↔
      '\x00' ∉ p.toString.toList ∧ p.toString.utf8ByteSize < sizeLimit ∧ p ≠ empty := by
  rw [validate]
  split
  · simp_all
  · split
    · rename_i hlong
      simp [Nat.not_lt.mpr hlong]
    · split <;> simp_all

/-- What is above an accepted path is accepted, unless it is the empty path. -/
lemma Accepted.of_prefix {q : Path} (h : p.Accepted) (hpart : q.pieces <+: p.pieces)
    (hpieces : q.pieces ≠ []) (hempty : q ≠ empty) : q.Accepted := by
  have htext : ∃ rest, p.toString = q.toString ++ rest := by
    obtain ⟨rest, hrest⟩ := hpart
    rw [toString, toString, ← hrest]
    rcases rest with _ | ⟨first, rest⟩
    · exact ⟨"", by simp⟩
    · exact ⟨_, (String.intercalate_append_of_ne_nil hpieces (List.cons_ne_nil _ _)).trans
        (String.append_assoc ..)⟩
  obtain ⟨rest, hrest⟩ := htext
  obtain ⟨hvalid, hshort⟩ := h
  rw [validate_eq_ok_iff, hrest, String.toList_append, List.mem_append, not_or,
    String.utf8ByteSize_append] at hvalid
  refine ⟨validate_eq_ok_iff.mpr ⟨hvalid.1.1, ?_, hempty⟩, fun piece hpiece =>
    hshort piece (hpart.mem hpiece)⟩
  exact Nat.lt_of_le_of_lt (Nat.le_add_right _ _) hvalid.2.1

lemma Accepted.fitsName (h : p.Accepted) {l : Location} (hl : l <:+ p.place) :
    FileTree.FitsName l := by
  intro name hname
  exact h.short name (mem_of_mem_placeOf (hl.mem (List.mem_of_mem_head? hname)))

end Path

end WaveletPrecision
