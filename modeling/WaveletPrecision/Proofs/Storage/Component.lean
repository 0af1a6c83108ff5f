import WaveletPrecision.Proofs.Storage.Artifact
import WaveletPrecision.Proofs.Storage.NamedPath

/-
The steps of a path below a directory.

Two texts of a path, with other separators or with a dot in the middle, have the same steps
(`Path.components`), and so paths are compared by them.  A first piece may be the root or a
leading dot, and all others are steps of their own (`Path.components_cons`); so a name below a
directory is one more step, whatever the text of the directory is (`Path.components_join_name`).

The steps of an artifact are those of the directory and two names, which are ordinary ones
(`Artifact.components_path`, `Path.isOrdinary_of_isFileName`).
-/
namespace WaveletPrecision

namespace Path

/-- The steps of the pieces behind the first one. -/
def steps (pieces : List String) : List Component :=
  (pieces.filter fun piece => !isIdle piece).map fun piece =>
    if piece = ".." then .up else .name piece

/-- The steps of the first piece of a path. -/
def firstSteps (first : String) : List Component :=
  if first = "" then [.root] else if first = "." then [.here] else steps [first]

lemma steps_append (front back : List String) :
    steps (front ++ back) = steps front ++ steps back := by
  rw [steps, List.filter_append, List.map_append]
  rfl

lemma steps_of_isPlain {piece : String} (h : IsPlain piece) : steps [piece] = [.name piece] := by
  simp [steps, h.1, h.2]

lemma splitStart_of_ne {first : String} (hempty : first ≠ "") (hdot : first ≠ ".")
    (rest : List String) : splitStart (first :: rest) = ([], first :: rest) := by
  unfold splitStart
  split
  · simp_all
  · simp_all
  · rfl

/-- The steps of a path, other than the empty one, are those of its first piece and those of the
others. -/
lemma components_cons {first : String} {rest : List String} (h : first ≠ "" ∨ rest ≠ []) :
    components ⟨first :: rest⟩ = firstSteps first ++ steps rest := by
  by_cases hempty : first = ""
  · subst hempty
    cases rest with
    | nil => simp at h
    | cons second rest => rfl
  · by_cases hdot : first = "."
    · subst hdot
      rfl
    · rw [firstSteps, if_neg hempty, if_neg hdot, ← steps_append, components,
        splitStart_of_ne hempty hdot]
      rfl

lemma stem_concat (init : List String) (last : String) :
    stem ⟨init ++ [last]⟩ = if last = "" then init else init ++ [last] := by
  rw [stem, List.getLast?_concat, Option.getD_some, List.dropLast_concat]

/-- **A name below a directory** is one more step. -/
lemma components_join_name (p : Path) {name : String} (h : isFileName name = true) :
    (p.join (ofString name)).components = p.components ++ [.name name] := by
  have hplain := isPlain_of_isFileName h
  have hname : components ⟨[name]⟩ = [.name name] := by
    rw [components_cons (.inl hplain.ne_empty), firstSteps, if_neg hplain.ne_empty,
      if_neg hplain.ne_dot, steps_of_isPlain hplain]
    rfl
  have hjoin : p.join (ofString name) = ⟨p.stem ++ [name]⟩ := by
    rw [← pieces_join_name p (separator_notMem_of_isFileName h)]
  rw [hjoin]
  obtain ⟨pieces⟩ := p
  rcases List.eq_nil_or_concat' pieces with rfl | ⟨init, last, rfl⟩
  · exact hname
  · rw [stem_concat]
    cases init with
    | nil =>
      split
      · rename_i hempty
        subst hempty
        exact hname
      · rename_i hne
        rw [List.nil_append, List.singleton_append, components_cons (.inl hne),
          components_cons (.inl hne), steps_of_isPlain hplain, List.append_assoc]
        rfl
    | cons first init =>
      rw [List.cons_append, components_cons (.inr (by simp)), steps_append]
      split
      · rename_i hempty
        subst hempty
        rw [List.cons_append, components_cons (.inr (by simp)), steps_append,
          steps_of_isPlain hplain, List.append_assoc, List.append_assoc]
        rfl
      · rw [List.cons_append, components_cons (.inr (by simp)), steps_append, steps_append,
          steps_of_isPlain hplain]
        simp only [List.append_assoc]

/-- A piece of a path that stands for one entry of a directory, and for nothing else. -/
structure IsOrdinary (piece : String) : Prop where
  ne_empty : piece ≠ ""
  ne_dot : piece ≠ "."
  ne_up : piece ≠ ".."
  separator_notMem : separator ∉ piece.toList
  backslash_notMem : '\\' ∉ piece.toList
  not_isAbsolute : (ofString piece).isAbsolute = false

lemma isOrdinary_of_isFileName {name : String} (h : isFileName name = true) : IsOrdinary name := by
  have hseparator := separator_notMem_of_isFileName h
  simp only [isFileName, Bool.and_eq_true, decide_eq_true_eq, Bool.not_eq_true',
    List.any_eq_false] at h
  obtain ⟨⟨⟨hempty, hdot⟩, hup⟩, hchars⟩ := h
  refine ⟨hempty, hdot, hup, hseparator, fun hmem => ?_, ?_⟩
  · simpa using hchars '\\' hmem
  · rw [ofString_of_notMem hseparator]
    exact isAbsolute_eq_false_of_name name

end Path

namespace Artifact

/-- **The steps of an artifact** are those of the directory, the input and the file. -/
lemma components_path (root : Path) {input wavelet : String} (suffix : Suffix)
    (hinput : Path.isFileName input = true) (hwavelet : Path.isFileName wavelet = true) :
    (path root input wavelet suffix).components
      = root.components ++ [.name input, .name (wavelet ++ "_" ++ suffix.name)] := by
  rw [path, Path.components_join_name _ (isFileName_append hwavelet suffix),
    Path.components_join_name _ hinput, List.append_assoc]
  rfl

/-- **The steps of artifacts tell them apart.** -/
lemma components_path_injective {root : Path} {input input' wavelet wavelet' : String}
    {suffix suffix' : Suffix} (hinput : Path.isFileName input = true)
    (hinput' : Path.isFileName input' = true) (hwavelet : Path.isFileName wavelet = true)
    (hwavelet' : Path.isFileName wavelet' = true)
    (h : (path root input wavelet suffix).components
      = (path root input' wavelet' suffix').components) :
    input = input' ∧ wavelet = wavelet' ∧ suffix = suffix' := by
  rw [components_path root suffix hinput hwavelet, components_path root suffix' hinput' hwavelet',
    List.append_cancel_left_eq] at h
  simp only [List.cons.injEq, Path.Component.name.injEq, and_true] at h
  exact ⟨h.1, fileName_injective h.2⟩

end Artifact

end WaveletPrecision
