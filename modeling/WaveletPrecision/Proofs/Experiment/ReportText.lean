import Mathlib.Algebra.BigOperators.Group.List.Basic
import Mathlib.Tactic.Ring
import WaveletPrecision.Proofs.Experiment.Sweep

/-
The text of a report.

The text and the counts of a report come from two ways through its pairs, inputs, wavelets and
units.  `Report.text_lines` says that they agree: if no name, no path and no message of a report
has a line break (`Report.texts`), then its text consists of lines, and their number is known from
the numbers of its parts and from its counts.

* `Report.length_lines` counts the lines level by level; a level that runs through a list adds
  what its elements have (`length_flatMap_lines`).
* `Report.oneLine_of_mem_lines` says that no line has a line break.  What a line has beside the
  names, paths and messages are fixed words, shapes (`oneLine_renderShape`) and numbers
  (`NumberStyle.oneLine_text`).
-/
namespace WaveletPrecision

/-! ### Texts of one line -/

/-- A text without a line break. -/
def OneLine (s : String) : Prop := '\n' ∉ s.toList

instance (s : String) : Decidable (OneLine s) := inferInstanceAs (Decidable (_ ∉ _))

section Texts

variable {s t : String}

@[simp] lemma oneLine_append : OneLine (s ++ t) ↔ OneLine s ∧ OneLine t := by
  simp [OneLine, not_or]

lemma oneLine_intercalate {l : List String} (hs : OneLine s) (hl : ∀ t ∈ l, OneLine t) :
    OneLine (s.intercalate l) := by
  induction l with
  | nil => simp [OneLine]
  | cons t l ih =>
    rw [List.forall_mem_cons] at hl
    cases l with
    | nil => simpa using hl.1
    | cons u l =>
      rw [String.intercalate_cons_cons, oneLine_append, oneLine_append]
      exact ⟨⟨hl.1, hs⟩, ih hl.2⟩

/-- Digits stand on one line. -/
lemma oneLine_ofList {n : Nat} {digits : List Char} (h : digits ⊆ Nat.toDigits 10 n) :
    OneLine (String.ofList digits) := by
  rw [OneLine, String.toList_ofList]
  intro hmem
  have hdigit : '\n'.isDigit = true := Nat.isDigit_of_mem_toDigits (by decide) (by decide) (h hmem)
  exact absurd hdigit (by decide)

lemma oneLine_repr (n : Nat) : OneLine n.repr := by
  have h := oneLine_ofList (List.Subset.refl (Nat.toDigits 10 n))
  rwa [← Nat.toList_repr, String.ofList_toList] at h

lemma oneLine_intRepr (n : Int) : OneLine n.repr := by
  rw [Int.repr_eq_if]
  split
  · exact oneLine_repr _
  · exact oneLine_append.mpr ⟨by decide, oneLine_repr _⟩

lemma oneLine_renderShape (shape : List Nat) : OneLine (renderShape shape) := by
  have hshape : OneLine (String.intercalate ", " (shape.map toString)) := by
    refine oneLine_intercalate (by decide) fun t ht => ?_
    obtain ⟨n, -, rfl⟩ := List.mem_map.mp ht
    exact oneLine_repr n
  rw [renderShape, oneLine_append, oneLine_append]
  exact ⟨⟨by decide, hshape⟩, by decide⟩

lemma Suffix.oneLine_name (suffix : Suffix) : OneLine suffix.name := by
  cases suffix <;> decide

end Texts

/-! ### Numbers -/

namespace NumberStyle

variable {style : NumberStyle}

lemma oneLine_zeros (n : Nat) : OneLine (zeros n) := by
  rw [zeros, OneLine, String.toList_ofList, List.mem_replicate]
  exact fun h => absurd h.2 (by decide)

lemma oneLine_positionalText (h : OneLine style.wholeEnding) (d : Decimal) :
    OneLine (style.positionalText d) := by
  have hdigits := List.Subset.refl (Nat.toDigits 10 d.digits)
  simp only [positionalText]
  split
  · exact oneLine_append.mpr ⟨oneLine_append.mpr ⟨oneLine_ofList hdigits, oneLine_zeros _⟩, h⟩
  · split
    · exact oneLine_append.mpr ⟨oneLine_append.mpr
        ⟨oneLine_ofList (List.take_subset _ _), by decide⟩, oneLine_ofList (List.drop_subset _ _)⟩
    · exact oneLine_append.mpr ⟨oneLine_append.mpr ⟨by decide, oneLine_zeros _⟩,
        oneLine_ofList hdigits⟩

lemma oneLine_exponentText (d : Decimal) : OneLine (exponentText d) := by
  have hfraction : OneLine (String.ofList ((Nat.toDigits 10 d.digits).drop 1)) :=
    oneLine_ofList (List.drop_subset _ _)
  simp only [exponentText, oneLine_append]
  refine ⟨⟨⟨oneLine_ofList (List.take_subset _ _), ?_⟩, by decide⟩, oneLine_intRepr _⟩
  split
  · decide
  · exact oneLine_append.mpr ⟨by decide, hfraction⟩

/-- **The text of a number** stands on one line, if the ending of whole numbers does. -/
lemma oneLine_text (h : OneLine style.wholeEnding) {F : Format} (x : Binary F) :
    OneLine (style.text x) := by
  have hsign : OneLine (if x.negative then "-" else "") := by split <;> decide
  have hdecimal : ∀ d, OneLine (style.decimalText d) := by
    intro d
    rw [decimalText]
    split
    · exact oneLine_positionalText h d
    · split
      · exact oneLine_positionalText h d
      · exact oneLine_exponentText d
  simp only [text]
  split
  · decide
  · split
    · exact oneLine_append.mpr ⟨hsign, by decide⟩
    · split
      · exact oneLine_append.mpr ⟨oneLine_append.mpr ⟨hsign, by decide⟩, h⟩
      · exact oneLine_append.mpr ⟨hsign, hdecimal _⟩

end NumberStyle

/-! ### Names, paths and messages -/

/-- The path or the message of an outcome. -/
def Outcome.texts : Outcome → List String
  | missing path => [path.toString]
  | failed message => [message]
  | _ => []

/-- The name of a wavelet, and what its outcomes tell. -/
def WaveletSection.texts (part : WaveletSection) : List String :=
  part.wavelet :: part.units.flatMap fun unit => unit.outcome.texts

/-- The name of an input, and the texts of its wavelets. -/
def InputSection.texts (part : InputSection) : List String :=
  part.name :: part.body.waveletSections.flatMap WaveletSection.texts

/-- The paths of a pair, and the texts of its inputs. -/
def PairSection.texts (part : PairSection) : List String :=
  [part.pair.compared.toString, part.pair.reference.toString]
    ++ part.inputs.flatMap InputSection.texts

/-- The names, the paths and the messages of a report. -/
def Report.texts (report : Report) : List String := report.pairs.flatMap PairSection.texts

section Lines

variable {pair : ComparisonPair} {input : String} {line : String}

lemma UnitReport.oneLine_of_mem_lines {unit : UnitReport} {wavelet : String}
    (hcompared : OneLine pair.compared.toString) (hreference : OneLine pair.reference.toString)
    (hinput : OneLine input) (hwavelet : OneLine wavelet)
    (h : ∀ text ∈ unit.outcome.texts, OneLine text) (hline : line ∈ unit.lines pair input wavelet) :
    OneLine line := by
  obtain ⟨suffix, outcome⟩ := unit
  have hsuffix := suffix.oneLine_name
  cases outcome with
  | compared stats =>
    have hmetric : ∀ {label : String} (x : Binary64), OneLine label →
        OneLine ("  " ++ suffix.name ++ ": " ++ label ++ " = " ++ Report.metricStyle.text x) := by
      intro label x hlabel
      simp only [oneLine_append]
      exact ⟨⟨⟨⟨⟨by decide, hsuffix⟩, by decide⟩, hlabel⟩, by decide⟩,
        NumberStyle.oneLine_text (by decide) x⟩
    simp only [lines, List.mem_cons, List.not_mem_nil, or_false] at hline
    rcases hline with rfl | rfl | rfl
    · exact hmetric _ (by decide)
    · exact hmetric _ (by decide)
    · exact hmetric _ (by decide)
  | missing path =>
    rw [lines, List.mem_singleton] at hline
    have hpath : OneLine path.toString := h _ (by simp [Outcome.texts])
    rw [hline, oneLine_append, oneLine_append]
    exact ⟨⟨by decide, hpath⟩, by decide⟩
  | shapeMismatch compared reference =>
    rw [lines, List.mem_singleton] at hline
    rw [hline]
    simp only [oneLine_append]
    exact ⟨⟨⟨⟨⟨by decide, hsuffix⟩, by decide⟩, oneLine_renderShape _⟩, by decide⟩,
      oneLine_renderShape _⟩
  | failed message =>
    rw [lines, List.mem_singleton] at hline
    have hmessage : OneLine message := h _ (by simp [Outcome.texts])
    rw [hline]
    simp only [oneLine_append, hcompared, hreference, hinput, hwavelet, hsuffix, hmessage]
    decide

lemma WaveletSection.oneLine_of_mem_lines {part : WaveletSection}
    (hcompared : OneLine pair.compared.toString) (hreference : OneLine pair.reference.toString)
    (hinput : OneLine input) (h : ∀ text ∈ part.texts, OneLine text)
    (hline : line ∈ part.lines pair input) : OneLine line := by
  rw [texts, List.forall_mem_cons, List.forall_mem_flatMap] at h
  rw [lines, List.mem_cons, List.mem_flatMap] at hline
  rcases hline with rfl | ⟨unit, hunit, hline⟩
  · simp only [oneLine_append, h.1, hinput]
    decide
  · exact UnitReport.oneLine_of_mem_lines hcompared hreference hinput h.1 (h.2 unit hunit) hline

lemma InputSection.oneLine_of_mem_lines {part : InputSection}
    (hcompared : OneLine pair.compared.toString) (hreference : OneLine pair.reference.toString)
    (h : ∀ text ∈ part.texts, OneLine text) (hline : line ∈ part.lines pair) : OneLine line := by
  obtain ⟨name, shape, magnitude, body⟩ := part
  rw [texts, List.forall_mem_cons, List.forall_mem_flatMap] at h
  have hname : OneLine name := h.1
  have hshape := oneLine_renderShape shape
  have hmagnitude : OneLine (Report.magnitudeStyle.text magnitude) :=
    NumberStyle.oneLine_text (by decide) magnitude
  rw [lines, List.mem_cons] at hline
  rcases hline with rfl | hline
  · simp only [oneLine_append, hname, hshape, hmagnitude]
    decide
  · cases body with
    | twoDimensional =>
      rw [List.mem_singleton.mp hline]
      simp only [oneLine_append, hname, hshape]
      decide
    | unsupported =>
      rw [List.mem_singleton.mp hline]
      simp only [oneLine_append, hname, hshape]
      decide
    | sections wavelets =>
      obtain ⟨part, hpart, hline⟩ := List.mem_flatMap.mp hline
      exact WaveletSection.oneLine_of_mem_lines hcompared hreference hname (h.2 part hpart) hline

lemma PairSection.oneLine_of_mem_lines {part : PairSection}
    (h : ∀ text ∈ part.texts, OneLine text) (hline : line ∈ part.lines) : OneLine line := by
  rw [texts, List.forall_mem_append, List.forall_mem_cons, List.forall_mem_singleton,
    List.forall_mem_flatMap] at h
  obtain ⟨⟨hcompared, hreference⟩, hinputs⟩ := h
  rw [lines, List.mem_cons, List.mem_flatMap] at hline
  rcases hline with rfl | ⟨input, hinput, hline⟩
  · simp only [oneLine_append, hcompared, hreference]
    decide
  · exact InputSection.oneLine_of_mem_lines hcompared hreference (hinputs input hinput) hline

/-- **No line has a line break**, if no name, no path and no message has one. -/
lemma Report.oneLine_of_mem_lines {report : Report} (h : ∀ text ∈ report.texts, OneLine text)
    (hline : line ∈ report.lines) : OneLine line := by
  rw [texts, List.forall_mem_flatMap] at h
  obtain ⟨part, hpart, hline⟩ := List.mem_flatMap.mp hline
  exact PairSection.oneLine_of_mem_lines (h part hpart) hline

end Lines

/-! ### The number of lines -/

/-- The number of lines on outcomes: three measures, or one line. -/
def outcomeLines (outcomes : List Outcome) : Nat :=
  3 * outcomes.countP Outcome.isCompared + outcomes.countP Outcome.isMissing
    + outcomes.countP Outcome.isFailure

lemma outcomeLines_append (outcomes outcomes' : List Outcome) :
    outcomeLines (outcomes ++ outcomes') = outcomeLines outcomes + outcomeLines outcomes' := by
  simp only [outcomeLines, List.countP_append]
  ring

/-- The lines on a list are those on its elements: what they have of their own, and the lines on
their outcomes. -/
lemma length_flatMap_lines {A : Type} {lines : A → List String} {own : A → Nat}
    {outcomes : A → List Outcome} (h : ∀ a, (lines a).length = own a + outcomeLines (outcomes a))
    (l : List A) :
    (l.flatMap lines).length = (l.map own).sum + outcomeLines (l.flatMap outcomes) := by
  induction l with
  | nil => rfl
  | cons a l ih =>
    rw [List.flatMap_cons, List.flatMap_cons, List.length_append, h, ih, outcomeLines_append,
      List.map_cons, List.sum_cons]
    ring

/-- Nothing is told of an input but that it is skipped. -/
def InputBody.isSkipped : InputBody → Bool
  | sections _ => false
  | _ => true

/-- The inputs of a report. -/
def Report.inputs (report : Report) : List InputSection :=
  report.pairs.flatMap PairSection.inputs

/-- The wavelets of a report. -/
def Report.waveletSections (report : Report) : List WaveletSection :=
  report.inputs.flatMap fun part => part.body.waveletSections

lemma UnitReport.length_lines (pair : ComparisonPair) (input wavelet : String) (unit : UnitReport) :
    (unit.lines pair input wavelet).length = 0 + outcomeLines [unit.outcome] := by
  rw [lines]
  cases unit.outcome <;> rfl

lemma WaveletSection.length_lines (pair : ComparisonPair) (input : String)
    (part : WaveletSection) :
    (part.lines pair input).length = 1 + outcomeLines part.outcomes := by
  rw [lines, List.length_cons,
    length_flatMap_lines (UnitReport.length_lines pair input part.wavelet), ← List.map_eq_flatMap,
    outcomes]
  simp [Nat.add_comm]

lemma InputSection.length_lines (pair : ComparisonPair) (part : InputSection) :
    (part.lines pair).length = (1 + (if part.body.isSkipped then 1 else 0)
      + part.body.waveletSections.length) + outcomeLines part.body.outcomes := by
  obtain ⟨name, shape, magnitude, body⟩ := part
  cases body with
  | twoDimensional => rfl
  | unsupported => rfl
  | sections wavelets =>
    have h := length_flatMap_lines (WaveletSection.length_lines pair name) wavelets
    rw [List.map_const', List.sum_replicate, smul_eq_mul, mul_one] at h
    simp only [lines, List.length_cons, h, InputBody.isSkipped, InputBody.waveletSections,
      InputBody.outcomes, Bool.false_eq_true, if_false]
    ring

lemma sum_isSkipped (inputs : List InputSection) :
    (inputs.map fun part => if part.body.isSkipped then 1 else 0).sum
      = inputs.countP (·.body.isSkipped) := by
  induction inputs with
  | nil => rfl
  | cons part inputs ih => rw [List.map_cons, List.sum_cons, ih, List.countP_cons, Nat.add_comm]

lemma PairSection.length_lines (part : PairSection) :
    part.lines.length = (1 + part.inputs.length + part.inputs.countP (·.body.isSkipped)
      + (part.inputs.flatMap fun input => input.body.waveletSections).length)
      + outcomeLines part.outcomes := by
  have h := length_flatMap_lines (InputSection.length_lines part.pair) part.inputs
  rw [List.sum_map_add, List.sum_map_add, sum_isSkipped, List.map_const', List.sum_replicate,
    smul_eq_mul, mul_one, ← List.length_flatMap] at h
  rw [lines, List.length_cons, h, outcomes]
  ring

/-- **The number of lines** of a report: one for every pair, input and wavelet, one more for an
input that is skipped, and those on the outcomes. -/
lemma Report.length_lines (report : Report) :
    report.lines.length = report.pairs.length + report.inputs.length
      + report.inputs.countP (·.body.isSkipped) + report.waveletSections.length
      + 3 * report.compared + report.missing + report.failures := by
  have h := length_flatMap_lines PairSection.length_lines report.pairs
  have hskipped : report.inputs.countP (·.body.isSkipped)
      = (report.pairs.map fun part => part.inputs.countP (·.body.isSkipped)).sum :=
    List.countP_flatMap
  have hwavelets : report.waveletSections.length = (report.pairs.map fun part =>
      (part.inputs.flatMap fun input => input.body.waveletSections).length).sum := by
    rw [waveletSections, inputs, List.flatMap_assoc, List.length_flatMap]
  rw [List.sum_map_add, List.sum_map_add, List.sum_map_add, ← hskipped, ← hwavelets,
    ← List.length_flatMap, List.map_const', List.sum_replicate, smul_eq_mul, mul_one] at h
  rw [lines, h, ← Report.outcomes_eq, outcomeLines, compared, missing, failures, inputs]
  ring

/-! ### The text -/

/-- Lines of which none has a line break make up a text with as many line breaks. -/
lemma count_join {lines : List String} (h : ∀ line ∈ lines, OneLine line) :
    (String.join (lines.map fun line => line ++ "\n")).toList.count '\n' = lines.length := by
  induction lines with
  | nil => rfl
  | cons line lines ih =>
    rw [List.forall_mem_cons] at h
    rw [String.toList_join] at ih ⊢
    rw [List.map_cons, List.flatMap_cons, List.count_append, ih h.2, String.toList_append,
      List.count_append, List.count_eq_zero_of_not_mem h.1, List.length_cons]
    exact Nat.add_comm 1 _

/-- **The text and the counts of a report agree.**  If no name, no path and no message of a report
has a line break, then its text consists of lines, each ended by a line break.  There is one line
for every pair, for every input and for every wavelet, one more for an input that is skipped, three
for a unit that was compared and one for any other unit; and every unit is counted once as
compared, as missing or as a failure. -/
theorem Report.text_lines {report : Report} (h : ∀ text ∈ report.texts, '\n' ∉ text.toList) :
    (∃ lines : List String, report.text = String.join (lines.map fun line => line ++ "\n") ∧
      (∀ line ∈ lines, '\n' ∉ line.toList) ∧ report.text.toList.count '\n' = lines.length ∧
      lines.length = report.pairs.length + report.inputs.length
        + report.inputs.countP (·.body.isSkipped) + report.waveletSections.length
        + 3 * report.compared + report.missing + report.failures) ∧
    report.compared + report.missing + report.failures = report.outcomes.length := by
  have hlines : ∀ line ∈ report.lines, OneLine line := fun line hline =>
    Report.oneLine_of_mem_lines h hline
  exact ⟨⟨report.lines, rfl, hlines, count_join hlines, report.length_lines⟩,
    report.compared_add_missing_add_failures⟩

/-- A report with a signal, a picture and an input of three dimensions. -/
def Report.mixed : Report where
  pairs := [⟨⟨.ofString "a", .ofString "b"⟩, [
    ⟨"signal", [7], 1.0, .sections [⟨"haar", [
      ⟨.approx, .compared ⟨0.0, 1.0e-5, 1.0e-5, 0, 4⟩⟩,
      ⟨.detail, .missing (.ofString "a/signal/haar_h_fwd")⟩,
      ⟨.inverse, .failed "a/signal/haar_inv holds 7 bytes, not a multiple of 8"⟩]⟩]⟩,
    ⟨"picture", [4, 6], 255.0, .twoDimensional⟩,
    ⟨"cube", [2, 2, 2], 1.0, .unsupported⟩]⟩]

theorem Report.text_lines_mixed :
    (∀ text ∈ mixed.texts, '\n' ∉ text.toList) ∧ mixed.text.toList.count '\n' = 12 ∧
      mixed.compared + mixed.missing + mixed.failures = 3 := by
  have h : ∀ text ∈ mixed.texts, '\n' ∉ text.toList := by decide
  obtain ⟨⟨lines, -, -, hcount, hlength⟩, houtcomes⟩ := Report.text_lines h
  exact ⟨h, hcount.trans hlength, houtcomes⟩

end WaveletPrecision
