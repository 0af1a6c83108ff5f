import Mathlib.Data.List.Basic
import WaveletPrecision.Storage.FileTree

/-
Where a path leads.

A path that can be followed in a tree leads to the same location in every tree in which it
can be followed: only directories are passed through, and whatever else stands in a tree
does not matter.  That location is the place of the path (`Path.place`), and two paths are
told apart by their places.

A name without a separator is one piece, and joining it to a directory goes one step down
(`Path.place_join_name`).  A text that is put behind a name stays in the last piece, even
if the name has separators itself (`Path.exists_pieces_join`).
-/
namespace WaveletPrecision

namespace Path

/-- The location after one more piece of a path. -/
def stepTo (place : Location) (piece : String) : Location :=
  if isIdle piece then place else if piece = ".." then place.tail else piece :: place

/-- The location to which pieces of a path lead from the root. -/
def placeOf (pieces : List String) : Location := pieces.foldl stepTo []

/-- The location to which a path leads. -/
def place (path : Path) : Location := placeOf path.pieces

lemma placeOf_concat (pieces : List String) (piece : String) :
    placeOf (pieces ++ [piece]) = stepTo (placeOf pieces) piece := by
  simp [placeOf]

/-- A piece that is the name of something below. -/
def IsPlain (piece : String) : Prop := isIdle piece = false ∧ piece ≠ ".."

lemma stepTo_of_isPlain {piece : String} (h : IsPlain piece) (place : Location) :
    stepTo place piece = piece :: place := by
  rw [stepTo, h.1]
  simp [h.2]

lemma isPlain_of_isFileName {name : String} (h : isFileName name = true) : IsPlain name := by
  simp only [isFileName, Bool.and_eq_true, decide_eq_true_eq] at h
  obtain ⟨⟨⟨hempty, hdot⟩, hup⟩, -⟩ := h
  exact ⟨by simp [isIdle, hempty, hdot], hup⟩

lemma isPlain_of_mem {piece : String} {c : Char} (hmem : c ∈ piece.toList) (hc : c ≠ '.') :
    IsPlain piece := by
  constructor
  · rw [isIdle, Bool.or_eq_false_iff, decide_eq_false_iff_not, decide_eq_false_iff_not]
    constructor
    · rintro rfl
      simp at hmem
    · rintro rfl
      simp_all
  · rintro rfl
    simp_all

lemma separator_notMem_of_isFileName {name : String} (h : isFileName name = true) :
    separator ∉ name.toList := by
  simp only [isFileName, Bool.and_eq_true, Bool.not_eq_true', List.any_eq_false] at h
  intro hmem
  simpa using h.2 separator hmem

/-! ### Pieces of a text -/

/-- Cutting a text that is continued without a separator leaves all pieces but the last one as
they are. -/
lemma exists_splitOn_append (separator : Char) (cs : List Char) :
    ∃ init last, ∀ t : List Char, separator ∉ t →
      (cs ++ t).splitOn separator = init ++ [last ++ t] := by
  induction cs with
  | nil => exact ⟨[], [], fun t ht => by simpa using List.splitOn_eq_singleton ht⟩
  | cons c cs ih =>
    obtain ⟨init, last, h⟩ := ih
    by_cases hc : c = separator
    · refine ⟨[] :: init, last, fun t ht => ?_⟩
      rw [List.cons_append, List.splitOn_cons_eq_if_modifyHead, h t ht]
      simp [hc]
    · cases init with
      | nil =>
        refine ⟨[], c :: last, fun t ht => ?_⟩
        rw [List.cons_append, List.splitOn_cons_eq_if_modifyHead, h t ht]
        simp [hc]
      | cons first init =>
        refine ⟨(c :: first) :: init, last, fun t ht => ?_⟩
        rw [List.cons_append, List.splitOn_cons_eq_if_modifyHead, h t ht]
        simp [hc]

/-- A text that is put behind another one, without a separator in it, becomes part of its last
piece. -/
lemma exists_pieces_ofString_append (s : String) :
    ∃ init last, ∀ t : String, separator ∉ t.toList →
      (ofString (s ++ t)).pieces = init ++ [last ++ t] := by
  obtain ⟨init, last, h⟩ := exists_splitOn_append separator s.toList
  refine ⟨init.map String.ofList, String.ofList last, fun t ht => ?_⟩
  rw [ofString, String.toList_append, h _ ht]
  simp

lemma ofString_of_notMem {s : String} (h : separator ∉ s.toList) : ofString s = ⟨[s]⟩ := by
  rw [ofString, List.splitOn_eq_singleton h]
  simp

/-! ### The text of a path -/

@[simp] lemma toString_ofString (s : String) : (ofString s).toString = s := by
  have hpieces : (s.toList.splitOn separator).map (String.toList ∘ String.ofList)
      = s.toList.splitOn separator := by
    simp [Function.comp_def]
  apply String.toList_inj.mp
  rw [toString, ofString, String.toList_intercalate, List.map_map, hpieces,
    String.toList_singleton, List.intercalate_splitOn]

/-- The characters between the separators are those of the pieces. -/
lemma mem_toString_iff {p : Path} {c : Char} (hc : c ≠ separator) :
    c ∈ p.toString.toList ↔ ∃ piece ∈ p.pieces, c ∈ piece.toList := by
  obtain ⟨pieces⟩ := p
  rw [toString]
  induction pieces with
  | nil => simp
  | cons piece pieces ih =>
    cases pieces with
    | nil => simp
    | cons second rest =>
      simp only [String.intercalate_cons_cons, String.toList_append, List.mem_append, ih]
      simp [hc]

/-! ### Joining -/

/-- The pieces of a path in front of those of a path that is joined to it. -/
def stem (p : Path) : List String :=
  if p.pieces.getLast?.getD "" = "" then p.pieces.dropLast else p.pieces

lemma isAbsolute_iff {p : Path} :
    p.isAbsolute = true ↔ ∃ second rest, p.pieces = "" :: second :: rest := by
  rw [isAbsolute]
  split
  · rename_i second rest hpieces
    simp [hpieces]
  · rename_i hother
    simpa using hother

lemma isAbsolute_eq_false_of_name (name : String) : isAbsolute ⟨[name]⟩ = false := by
  rw [← Bool.not_eq_true, isAbsolute_iff]
  simp

lemma join_of_isAbsolute (p : Path) {q : Path} (hq : q.isAbsolute = true) : p.join q = q := by
  rw [join, if_pos hq]

lemma join_of_not_isAbsolute (p : Path) {q : Path} (hq : q.isAbsolute = false) :
    p.join q = ⟨p.stem ++ q.pieces⟩ := by
  rw [join, hq, stem, if_neg Bool.false_ne_true]
  split <;> rfl

lemma placeOf_stem (p : Path) : placeOf p.stem = p.place := by
  rw [stem, place]
  split
  · rename_i hlast
    rcases List.eq_nil_or_concat p.pieces with hnil | ⟨init, last, hpieces⟩
    · rw [hnil]
      rfl
    · have hempty : last = "" := by simpa [hpieces] using hlast
      rw [hpieces, List.concat_eq_append, List.dropLast_concat, placeOf_concat, hempty]
      rfl
  · rfl

lemma pieces_join_name (p : Path) {name : String} (h : separator ∉ name.toList) :
    (p.join (ofString name)).pieces = p.stem ++ [name] := by
  rw [ofString_of_notMem h, join_of_not_isAbsolute p (isAbsolute_eq_false_of_name name)]

lemma mem_toString_join_name {p : Path} {name : String} (h : separator ∉ name.toList) {c : Char}
    (hc : c ≠ separator) :
    c ∈ (p.join (ofString name)).toString.toList ↔ c ∈ p.toString.toList ∨ c ∈ name.toList := by
  have hstem : (∃ piece ∈ p.stem, c ∈ piece.toList) ↔ ∃ piece ∈ p.pieces, c ∈ piece.toList := by
    rw [stem]
    split
    · rename_i hlast
      rcases List.eq_nil_or_concat p.pieces with hnil | ⟨init, last, hpieces⟩
      · rw [hnil]
        rfl
      · have hempty : last = "" := by simpa [hpieces] using hlast
        simp [hpieces, hempty, or_and_right, exists_or]
    · rfl
  rw [mem_toString_iff hc, mem_toString_iff hc, pieces_join_name p h, ← hstem]
  simp [or_and_right, exists_or]

/-- **A name below a directory** leads one step further than the directory. -/
lemma place_join_name (p : Path) {name : String} (h : isFileName name = true) :
    (p.join (ofString name)).place = name :: p.place := by
  rw [place, pieces_join_name p (separator_notMem_of_isFileName h), placeOf_concat,
    stepTo_of_isPlain (isPlain_of_isFileName h), placeOf_stem]

/-- A name, and what is put behind it, is the end of the last piece below a directory. -/
lemma exists_pieces_join (p : Path) (s : String) :
    ∃ init last, ∀ t : String, separator ∉ t.toList →
      (p.join (ofString (s ++ t))).pieces = init ++ [last ++ t] := by
  obtain ⟨init, last, h⟩ := exists_pieces_ofString_append s
  -- the first piece decides whether the path is absolute, unless it is also the last one
  by_cases habsolute : ∃ rest, init = "" :: rest
  · obtain ⟨rest, rfl⟩ := habsolute
    refine ⟨"" :: rest, last, fun t ht => ?_⟩
    have hq : (ofString (s ++ t)).isAbsolute = true := by
      rw [isAbsolute_iff, h t ht]
      cases rest <;> simp
    rw [join_of_isAbsolute p hq, h t ht]
  · refine ⟨p.stem ++ init, last, fun t ht => ?_⟩
    have hq : (ofString (s ++ t)).isAbsolute = false := by
      rw [← Bool.not_eq_true, isAbsolute_iff, h t ht]
      cases init with
      | nil => simp
      | cons first rest =>
        rintro ⟨second, others, heq⟩
        exact habsolute ⟨rest, by simp_all⟩
    rw [join_of_not_isAbsolute p hq, h t ht, List.append_assoc]

end Path

end WaveletPrecision
