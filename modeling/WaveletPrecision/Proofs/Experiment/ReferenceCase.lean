import WaveletPrecision.Experiment.ReferenceCase
import WaveletPrecision.Proofs.Matrix.Quarters
import WaveletPrecision.Proofs.Matrix.Tensor
import WaveletPrecision.Proofs.Transform.Reconstruction
import WaveletPrecision.Random.ChaCha
import WaveletPrecision.Random.Normal

/-
How the coefficients of a reference case are packed.

The rows or the planes of an input are transformed one by one, and the results stand one after the
other.  Results of one length are found again as the pieces of the list of all their elements, so
the pieces of the output belong to those of the input (`exists_mapM_pieces`), and the elements are
as many as the shape of the output says.

`ReferenceCase.generate_outcome` is what becomes of a shape, whatever the source of the samples: the
one error that it is refused with, or a case whose rows or planes are packed.  A word must count
twice as many elements as the shape has, because a row of odd length gets one coefficient more;
`ReferenceCase.generate_outcome_overflow` is about a shape of too many elements.
-/
namespace WaveletPrecision

/-! ### Pieces of a list -/

section Pieces

variable {E A B : Type} {n count : ℕ}

/-- The piece of a list with a number, counted from zero, if the list is made of pieces of one
length. -/
def piece (length i : ℕ) (xs : List A) : List A := (xs.drop (i * length)).take length

lemma pieces_eq_ofFn (hn : 0 < n) {xs : List A} (hxs : xs.length = count * n) :
    pieces n xs = List.ofFn fun i : Fin count => piece n i xs := by
  have hcount : (xs.length + n - 1) / n = count := by
    rw [hxs, Nat.add_sub_assoc hn, Nat.add_comm, Nat.add_mul_div_right _ _ hn,
      Nat.div_eq_of_lt (by omega), Nat.zero_add]
  refine List.ext_getElem (by simp [pieces, hcount]) fun i hi hi' => ?_
  simp [pieces, piece, List.extract_eq_take_drop]

lemma length_piece {xs : List A} (h : xs.length = count * n) {i : ℕ} (hi : i < count) :
    (piece n i xs).length = n := by
  have hlast : (i + 1) * n ≤ count * n := Nat.mul_le_mul_right n hi
  rw [Nat.succ_mul] at hlast
  rw [piece, List.length_take, List.length_drop, h]
  omega

lemma piece_flatten {ys : List (List A)} (h : ∀ y ∈ ys, y.length = n) {i : ℕ} (hi : i < ys.length) :
    piece n i ys.flatten = ys[i] := by
  induction ys generalizing i with
  | nil => exact absurd hi (Nat.not_lt_zero i)
  | cons y ys ih =>
    rw [List.forall_mem_cons] at h
    cases i with
    | zero => simp [piece, ← h.1]
    | succ i =>
      have hrest := ih h.2 (Nat.lt_of_succ_lt_succ hi)
      rw [piece] at hrest
      rw [piece, List.flatten_cons, Nat.succ_mul, Nat.add_comm, ← List.drop_drop, ← h.1,
        List.drop_left, h.1, hrest, List.getElem_cons_succ]

/-- **A list is transformed piece by piece.**  If every piece has a result of one length, the pieces
of all the results are those of the pieces. -/
lemma exists_mapM_pieces {f : List A → Except Error (List B)} {length out : ℕ} {xs : List A}
    (hpos : 0 < length) (hxs : xs.length = count * length)
    (h : ∀ x : List A, x.length = length → ∃ y, f x = .ok y ∧ y.length = out) :
    ∃ ys, (pieces length xs).mapM f = .ok ys ∧ ys.length = count ∧ (∀ y ∈ ys, y.length = out) ∧
      ∀ i < count, f (piece length i xs) = .ok (piece out i ys.flatten) := by
  have hpiece : ∀ i : Fin count, ∃ y, f (piece length i xs) = .ok y ∧ y.length = out :=
    fun i => h _ (length_piece hxs i.isLt)
  choose y hy hout using hpiece
  have hlength : ∀ z ∈ List.ofFn y, z.length = out := by
    intro z hz
    obtain ⟨i, rfl⟩ := List.mem_ofFn.mp hz
    exact hout i
  refine ⟨List.ofFn y, ?_, List.length_ofFn, hlength, fun i hi => ?_⟩
  · rw [pieces_eq_ofFn hpos hxs, ← Separable.ofFnM_eq_mapM]
    exact Separable.ofFnM_ok hy
  · rw [piece_flatten hlength (by simpa using hi), List.getElem_ofFn]
    exact hy ⟨i, hi⟩

lemma length_getLast? {ys : List (List A)} (hne : ys ≠ []) (h : ∀ y ∈ ys, y.length = n) :
    (ys.getLast?.map List.length).getD 0 = n := by
  rw [List.getLast?_eq_some_getLast hne]
  exact h _ (List.getLast_mem hne)

end Pieces

namespace ReferenceCase

variable {S : Type} [NormalSource S] {source : S} {w : Wavelet} {shape : List ℕ}
  {dimension : Dimension} {batch channels height width : ℕ}

lemma length_normalInput (shape : List ℕ) (source : S) :
    (normalInput shape source).length = elementCount shape := by
  rw [normalInput, Sample.widenAll, List.length_map, RandomSource.length_collect]

/-! ### One row and one plane -/

/-- A row that is not empty has two bands of one length. -/
lemma exists_packRow (w : Wavelet) {row : List Binary64} (hrow : row ≠ []) :
    ∃ bands, engine.forward w .periodization row = .ok bands ∧
      packRow w row = .ok (bands.approx ++ bands.detail) ∧
      (bands.approx ++ bands.detail).length = 2 * ((row.length + 1) / 2) := by
  obtain ⟨bands, -, hforward, -⟩ :=
    (Engine.reconstructs_convolution Precision.binary32.Carrier _ w .periodization).vector row hrow
  obtain ⟨happrox, hdetail⟩ := Engine.length_forward_convolution hforward
  refine ⟨bands, hforward, bind_eq_ok_iff.mpr ⟨bands, hforward, rfl⟩, ?_⟩
  rw [List.length_append, happrox, hdetail, coefficientCount, if_pos rfl, Nat.two_mul]

/-- A plane with an even number of rows and of columns has four bands of one shape, and is packed
into a plane of its own shape. -/
lemma exists_packPlane (w : Wavelet) {a b : ℕ} (ha : 1 ≤ a) (hb : 1 ≤ b)
    (hcount : (a + a) * (b + b) < wordCount) {plane : List Binary64}
    (hplane : plane.length = (a + a) * (b + b)) :
    ∃ m bands packed, Matrix.ofData (a + a) (b + b) plane = .ok m ∧
      engine.forwardMatrix w .periodization m = .ok bands ∧
      packPlane w (a + a) (b + b) plane = .ok packed.toList ∧ bands.Quarters a b packed := by
  have hdata : Matrix.ofData (a + a) (b + b) plane = .ok ⟨a + a, b + b, plane.toArray, hplane⟩ :=
    Matrix.ofData_of_length_eq hcount hplane
  obtain ⟨bands, hforward, hsized⟩ :=
    Engine.exists_forwardMatrix_convolution Precision.binary32.Carrier engine.label w .periodization
      (m := ⟨a + a, b + b, plane.toArray, hplane⟩) (Nat.le_add_right_of_le ha)
      (Nat.le_add_right_of_le hb)
  have hhalf : ∀ n, coefficientCount .periodization w.filterSize (n + n) = n := by
    intro n
    rw [coefficientCount, if_pos rfl]
    omega
  have huniform : bands.Uniform a b := by
    simpa only [hhalf] using hsized.uniform (by rw [hhalf]; exact Nat.ne_of_gt ha)
  obtain ⟨packed, hlist, hquarters⟩ := huniform.quarters
  refine ⟨_, bands, packed, hdata, hforward, ?_, hquarters⟩
  rw [hlist]
  exact bind_eq_ok_iff.mpr ⟨_, hdata, bind_eq_ok_iff.mpr ⟨bands, hforward, rfl⟩⟩

/-! ### The whole case -/

/-- The rows of the output are the bands of the rows of the input, approximation before detail. -/
structure PacksRows (result : ReferenceCase) (w : Wavelet) (batch channels height width : ℕ) :
    Prop where
  shape : result.output.shape = [batch, channels, height, 2 * ((width + 1) / 2)]
  rows : ∀ k < batch * channels * height, ∃ bands,
    engine.forward w .periodization (piece width k result.input.data) = .ok bands ∧
      piece (2 * ((width + 1) / 2)) k result.output.data = bands.approx ++ bands.detail

/-- The planes of the output have the bands of the planes of the input as their quarters. -/
structure PacksPlanes (result : ReferenceCase) (w : Wavelet) (batch channels height width : ℕ) :
    Prop where
  shape : result.output.shape = [batch, channels, height, width]
  planes : ∀ p < batch * channels, ∃ m bands packed,
    Matrix.ofData height width (piece (height * width) p result.input.data) = .ok m ∧
      engine.forwardMatrix w .periodization m = .ok bands ∧
      Matrix.ofData height width (piece (height * width) p result.output.data) = .ok packed ∧
      bands.Quarters (height / 2) (width / 2) packed

lemma elementCount_four (hcount : batch * channels * height * width < wordCount) :
    elementCount [batch, channels, height, width] = batch * channels * height * width := by
  have hprod : [batch, channels, height, width].prod = batch * channels * height * width := by
    simp [Nat.mul_assoc]
  rw [elementCount_eq_prod (hprod ▸ hcount), hprod]

lemma elementCount_three (hcount : batch * channels * height < wordCount) :
    elementCount [batch, channels, height] = batch * channels * height := by
  have hprod : [batch, channels, height].prod = batch * channels * height := by
    simp [Nat.mul_assoc]
  rw [elementCount_eq_prod (hprod ▸ hcount), hprod]

lemma generate_eq_ok {output : Tensor Binary64} (hzero : 0 ∉ [batch, channels, height, width])
    (hpack : pack w batch channels height width
      (normalInput [batch, channels, height, width] source) dimension = .ok output) :
    generate w [batch, channels, height, width] dimension source
      = .ok ⟨⟨[batch, channels, height, width],
          normalInput [batch, channels, height, width] source, length_normalInput _ source⟩,
        output⟩ := by
  rw [generate, if_neg hzero]
  exact bind_eq_ok_iff.mpr ⟨output, hpack,
    bind_eq_ok_iff.mpr ⟨_, Tensor.ofData_of_length_eq (length_normalInput _ _), rfl⟩⟩

/-- In one dimension every shape without a zero can be packed. -/
lemma exists_generate_one (w : Wavelet) (source : S)
    (hzero : 0 ∉ [batch, channels, height, width])
    (hcount : 2 * (batch * channels * height * width) < wordCount) :
    ∃ result, generate w [batch, channels, height, width] .one source = .ok result ∧
      result.input.shape = [batch, channels, height, width] ∧
      result.input.data = normalInput [batch, channels, height, width] source ∧
      result.PacksRows w batch channels height width := by
  simp only [List.mem_cons, List.not_mem_nil, or_false, not_or, eq_comm, ← Nat.pos_iff_ne_zero]
    at hzero
  obtain ⟨hbatch, hchannels, hheight, hwidth⟩ := hzero
  have hrows : 0 < batch * channels * height :=
    Nat.mul_pos (Nat.mul_pos hbatch hchannels) hheight
  have hrowCount : batch * channels * height ≤ batch * channels * height * width :=
    Nat.le_mul_of_pos_right _ hwidth
  have hdata : (normalInput [batch, channels, height, width] source).length
      = batch * channels * height * width := by
    rw [length_normalInput, elementCount_four (by omega)]
  -- every row has as many coefficients, so the output is full
  obtain ⟨packed, hpacked, hpackedLength, hout, hpieces⟩ :=
    exists_mapM_pieces hwidth hdata fun row hrow => by
      obtain ⟨bands, -, hpack, hout⟩ :=
        exists_packRow w (List.length_pos_iff.mp (by omega : 0 < row.length))
      exact ⟨_, hpack, hout.trans (by rw [hrow])⟩
  have hlast := length_getLast? (List.length_pos_iff.mp (by omega)) hout
  have hwide : batch * channels * height * (2 * ((width + 1) / 2)) < wordCount := by
    refine Nat.lt_of_le_of_lt ?_ hcount
    rw [Nat.mul_left_comm]
    exact Nat.mul_le_mul_left _ (Nat.mul_le_mul_left _ (by omega))
  have houtput : packed.flatten.length
      = elementCount [batch, channels, height, 2 * ((width + 1) / 2)] := by
    rw [Matrix.length_flatten_of_forall hout, hpackedLength, elementCount_four hwide]
  have hall : (pieces width (normalInput [batch, channels, height, width] source)).take
      (elementCount [batch, channels, height])
        = pieces width (normalInput [batch, channels, height, width] source) := by
    rw [elementCount_three (by omega)]
    exact List.take_of_length_le (by rw [pieces_eq_ofFn hwidth hdata, List.length_ofFn])
  have hpack : pack w batch channels height width
      (normalInput [batch, channels, height, width] source) .one = .ok ⟨_, _, houtput⟩ := by
    rw [pack, hall]
    refine bind_eq_ok_iff.mpr ⟨_, bind_eq_ok_iff.mpr ⟨packed, hpacked, rfl⟩, ?_⟩
    rw [hlast]
    exact Tensor.ofData_of_length_eq houtput
  refine ⟨_, generate_eq_ok (by simp; omega) hpack, rfl, rfl, rfl, fun k hk => ?_⟩
  obtain ⟨bands, hforward, hrow, -⟩ := exists_packRow w
    (List.length_pos_iff.mp (by rw [length_piece hdata hk]; omega))
  exact ⟨bands, hforward, Except.ok.inj ((hpieces k hk).symm.trans hrow)⟩

/-- In two dimensions the planes must have even sides. -/
lemma exists_generate_two (w : Wavelet) (source : S)
    (hzero : 0 ∉ [batch, channels, height, width])
    (hcount : batch * channels * height * width < wordCount) (hheight : height % 2 = 0)
    (hwidth : width % 2 = 0) :
    ∃ result, generate w [batch, channels, height, width] .two source = .ok result ∧
      result.input.shape = [batch, channels, height, width] ∧
      result.input.data = normalInput [batch, channels, height, width] source ∧
      result.PacksPlanes w batch channels height width := by
  obtain ⟨a, rfl⟩ : ∃ a, height = a + a := ⟨height / 2, by omega⟩
  obtain ⟨b, rfl⟩ : ∃ b, width = b + b := ⟨width / 2, by omega⟩
  have hzero' := hzero
  simp only [List.mem_cons, List.not_mem_nil, or_false, not_or] at hzero
  have ha : 1 ≤ a := by omega
  have hb : 1 ≤ b := by omega
  have hplanes : 0 < batch * channels := Nat.mul_pos (by omega) (by omega)
  have hplane : 0 < (a + a) * (b + b) := Nat.mul_pos (by omega) (by omega)
  have hplaneCount : (a + a) * (b + b) < wordCount := by
    refine Nat.lt_of_le_of_lt ?_ hcount
    rw [Nat.mul_assoc]
    exact Nat.le_mul_of_pos_left _ hplanes
  have hdata : (normalInput [batch, channels, a + a, b + b] source).length
      = batch * channels * ((a + a) * (b + b)) := by
    rw [length_normalInput, elementCount_four hcount, Nat.mul_assoc]
  obtain ⟨packed, hpacked, hpackedLength, hout, hpieces⟩ :=
    exists_mapM_pieces hplane hdata fun plane hlength => by
      obtain ⟨-, bands, m, -, -, hpack, hquarters⟩ := exists_packPlane w ha hb hplaneCount hlength
      exact ⟨_, hpack, hquarters.length_toList⟩
  have houtput : packed.flatten.length = elementCount [batch, channels, a + a, b + b] := by
    rw [Matrix.length_flatten_of_forall hout, hpackedLength, elementCount_four hcount,
      Nat.mul_assoc (batch * channels)]
  have hpack : pack w batch channels (a + a) (b + b)
      (normalInput [batch, channels, a + a, b + b] source) .two = .ok ⟨_, _, houtput⟩ := by
    -- neither side is odd, so the planes are reached
    rw [pack, if_neg (by omega), elementCount_pair hplaneCount, if_neg (by omega)]
    exact bind_eq_ok_iff.mpr ⟨packed, hpacked, Tensor.ofData_of_length_eq houtput⟩
  refine ⟨_, generate_eq_ok hzero' hpack, rfl, rfl, rfl, fun p hp => ?_⟩
  obtain ⟨m, bands, plane, hm, hforward, hpacked, hquarters⟩ :=
    exists_packPlane w ha hb hplaneCount (length_piece hdata hp)
  have hlist : plane.toList = piece ((a + a) * (b + b)) p packed.flatten :=
    Except.ok.inj (hpacked.symm.trans (hpieces p hp))
  have hhalf : ∀ n : ℕ, (n + n) / 2 = n := by omega
  rw [hhalf, hhalf]
  exact ⟨m, bands, plane, hm, hforward, hlist ▸ hquarters.ofData_toList hplaneCount, hquarters⟩

lemma exists_generate (w : Wavelet) (source : S) (hzero : 0 ∉ [batch, channels, height, width])
    (hcount : 2 * (batch * channels * height * width) < wordCount)
    (heven : dimension = .two → height % 2 = 0 ∧ width % 2 = 0) :
    ∃ result, generate w [batch, channels, height, width] dimension source = .ok result ∧
      result.input.shape = [batch, channels, height, width] ∧
      result.input.data = normalInput [batch, channels, height, width] source ∧
      (dimension = .one → result.PacksRows w batch channels height width) ∧
      (dimension = .two → result.PacksPlanes w batch channels height width) := by
  cases dimension with
  | one =>
    obtain ⟨result, hok, hinput, hdata, hrows⟩ := exists_generate_one w source hzero hcount
    exact ⟨result, hok, hinput, hdata, fun _ => hrows, nofun⟩
  | two =>
    obtain ⟨result, hok, hinput, hdata, hplanes⟩ :=
      exists_generate_two w source hzero (by omega) (heven rfl).1 (heven rfl).2
    exact ⟨result, hok, hinput, hdata, nofun, fun _ => hplanes⟩

/-- What a shape is refused with: that it does not have four dimensions, that one of them is zero,
or that its planes cannot be halved, in this order. -/
inductive Refused (shape : List ℕ) (dimension : Dimension) : Error → Prop where
  | shape (hlength : shape.length ≠ 4) : Refused shape dimension (.referenceShape shape)
  | empty (hlength : shape.length = 4) (hzero : 0 ∈ shape) : Refused shape dimension .emptyInput
  | oddPlane {batch channels height width : ℕ} (hshape : shape = [batch, channels, height, width])
      (hzero : 0 ∉ shape) (hdimension : dimension = .two)
      (hodd : height % 2 = 1 ∨ width % 2 = 1) : Refused shape dimension (.oddPlane height width)

lemma Refused.generate_eq {e : Error} (h : Refused shape dimension e) (w : Wavelet) (source : S) :
    generate w shape dimension source = .error e := by
  cases h with
  | shape hlength =>
    rw [generate]
    rintro batch channels height width rfl
    exact hlength rfl
  | empty hlength hzero =>
    obtain ⟨batch, channels, height, width, rfl⟩ := List.length_eq_four.mp hlength
    rw [generate, if_pos hzero]
  | oddPlane hshape hzero hdimension hodd =>
    subst hshape hdimension
    rw [generate, if_neg hzero]
    dsimp only
    rw [pack, if_pos hodd]
    rfl

lemma not_refused (hzero : 0 ∉ [batch, channels, height, width])
    (heven : dimension = .two → height % 2 = 0 ∧ width % 2 = 0) (e : Error) :
    ¬Refused [batch, channels, height, width] dimension e := by
  rintro (hlength | ⟨-, hempty⟩ | ⟨hshape, -, hdimension, hodd⟩)
  · exact hlength rfl
  · exact hzero hempty
  · cases hshape
    have := heven hdimension
    omega

lemma exists_refused_or (shape : List ℕ) (dimension : Dimension) :
    (∃ e, Refused shape dimension e) ∨ ∃ batch channels height width,
      shape = [batch, channels, height, width] ∧ 0 ∉ shape ∧
      (dimension = .two → height % 2 = 0 ∧ width % 2 = 0) := by
  by_cases hlength : shape.length = 4
  · obtain ⟨batch, channels, height, width, hshape⟩ := List.length_eq_four.mp hlength
    by_cases hzero : 0 ∈ shape
    · exact .inl ⟨_, .empty hlength hzero⟩
    by_cases hodd : dimension = .two ∧ (height % 2 = 1 ∨ width % 2 = 1)
    · exact .inl ⟨_, .oddPlane hshape hzero hodd.1 hodd.2⟩
    · refine .inr ⟨batch, channels, height, width, hshape, hzero, fun htwo => ?_⟩
      have heven := mt (And.intro htwo) hodd
      omega
  · exact .inl ⟨_, .shape hlength⟩

/-- **What becomes of a shape**, if a word counts twice its elements, and whatever the source of the
samples.  It is refused with the one error that says why, or there is a case with the samples of the
shape, whose rows or planes are packed. -/
theorem generate_outcome (w : Wavelet) (shape : List ℕ) (dimension : Dimension) (source : S)
    (hcount : shape.length = 4 → 2 * shape.prod < wordCount) :
    (∀ e, generate w shape dimension source = .error e ↔ Refused shape dimension e) ∧
    ((∀ e, ¬Refused shape dimension e) → ∃ batch channels height width result,
      shape = [batch, channels, height, width] ∧
      generate w shape dimension source = .ok result ∧
      result.input.shape = shape ∧ result.input.data = normalInput shape source ∧
      (dimension = .one → result.PacksRows w batch channels height width) ∧
      (dimension = .two → result.PacksPlanes w batch channels height width)) := by
  rcases exists_refused_or shape dimension with ⟨e, he⟩ | ⟨batch, channels, height, width, rfl, h⟩
  · refine ⟨fun e' => ⟨fun herror => ?_, fun h => h.generate_eq w source⟩, fun h => absurd he (h e)⟩
    rw [he.generate_eq w source, Except.error.injEq] at herror
    exact herror ▸ he
  · have hproduct : 2 * (batch * channels * height * width) < wordCount := by
      simpa [Nat.mul_assoc] using hcount rfl
    obtain ⟨result, hok, hinput, hdata, hone, htwo⟩ := exists_generate w source h.1 hproduct h.2
    refine ⟨fun e => ⟨fun herror => ?_, fun he => he.generate_eq w source⟩, fun _ =>
      ⟨batch, channels, height, width, result, rfl, hok, hinput, hdata, hone, htwo⟩⟩
    rw [hok] at herror
    cases herror

/-- Rows of five samples have six coefficients; planes of such rows are refused, and even ones are
packed. -/
theorem generate_outcome_five :
    let db4 : Wavelet := ⟨"db4", .daubechies4⟩
    let source := ChaCha.ofSeed standardSeed
    (∃ result, generate db4 [2, 1, 4, 5] .one source = .ok result ∧
        result.output.shape = [2, 1, 4, 6]) ∧
      generate db4 [2, 1, 4, 5] .two source = .error (.oddPlane 4 5) ∧
      ∃ result, generate db4 [2, 1, 4, 6] .two source = .ok result ∧
        result.PacksPlanes db4 2 1 4 6 := by
  intro db4 source
  have hone : ∀ e, ¬Refused [2, 1, 4, 5] .one e := not_refused (by decide) nofun
  have htwo : ∀ e, ¬Refused [2, 1, 4, 6] .two e := not_refused (by decide) fun _ => ⟨rfl, rfl⟩
  obtain ⟨batch, channels, height, width, result, hshape, hok, -, -, hrows, -⟩ :=
    (generate_outcome db4 [2, 1, 4, 5] .one source (by decide)).2 hone
  obtain ⟨batch', channels', height', width', result', hshape', hok', -, -, -, hplanes⟩ :=
    (generate_outcome db4 [2, 1, 4, 6] .two source (by decide)).2 htwo
  cases hshape
  cases hshape'
  have hodd := (generate_outcome db4 [2, 1, 4, 5] .two source (by decide)).1 (.oddPlane 4 5)
  exact ⟨⟨result, hok, (hrows rfl).shape⟩, hodd.mpr (.oddPlane rfl (by decide) rfl (by decide)),
    result', hok', hplanes rfl⟩

/-- Two shapes of `2 ^ 64` elements, which are counted as none.  The one of two long extents has a
case in one dimension, without a sample, and its output has no columns.  In two dimensions the first
plane of the one of large planes is looked for where there is none. -/
theorem generate_outcome_overflow :
    let haar : Wavelet := ⟨"haar", .haar⟩
    let source := ChaCha.ofSeed standardSeed
    let long := [4294967296, 4294967296, 1, 1]
    let wide := [1, 1, 4294967296, 4294967296]
    (∀ e, ¬Refused long .one e) ∧ (∀ e, ¬Refused wide .two e) ∧
      (∃ result, generate haar long .one source = .ok result ∧ result.input.data = [] ∧
        result.output.shape = [4294967296, 4294967296, 1, 0]) ∧
      generate haar wide .two source = .error (.outOfBounds [4294967296, 4294967296]) := by
  intro haar source long wide
  have hempty : ∀ shape, elementCount shape = 0 → normalInput shape source = [] := by
    intro shape hnone
    rw [← List.length_eq_zero_iff, length_normalInput, hnone]
  have hlong : pack haar 4294967296 4294967296 1 1 (normalInput long source) .one
      = .ok ⟨[4294967296, 4294967296, 1, 0], [], by decide +kernel⟩ := by
    rw [hempty long (by decide +kernel)]
    rfl
  refine ⟨not_refused (by decide) nofun, not_refused (by decide) fun _ => ⟨rfl, rfl⟩,
    ⟨_, generate_eq_ok (by decide) hlong, hempty long (by decide +kernel), rfl⟩, ?_⟩
  rw [generate, if_neg (by decide)]
  dsimp only
  rw [pack, if_neg (by decide), if_pos (by decide +kernel)]
  rfl

end ReferenceCase

end WaveletPrecision
