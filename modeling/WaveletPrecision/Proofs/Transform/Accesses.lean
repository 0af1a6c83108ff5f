import WaveletPrecision.Proofs.Transform.Reconstruction

/-
Transforms never read or write beside a list.

Most accesses to samples are safe by their types: a boundary mode names samples of a signal by
indices below its length, and a matrix its entries, rows and columns by indices below its shape.
The two loops of a filter bank's reconstruction are not of this kind, for they compute the places
of taps, coefficients and samples as they go.  So the loops are written down once more, with every
access checked, and the first one outside of its list ends them:

* `gatherCovering?` and `synthesizeWindowed?` outside of periodization, where a sample collects
  coefficients;
* `scatter?` and `synthesizePeriodized?` in periodization, where a coefficient is added to samples.

On all bands that the inverse transform accepts they never end early
(`FilterBank.reconstruct?_of_inverse`).  With the lengths of all results this gives
`inverse_accepts_forward`: whatever the arithmetic does to the values, a transform can be taken
back.
-/
namespace WaveletPrecision

variable {K : Type}

/-! ### Loops with every access checked -/

/-- A loop every round of which has a result, as long as something is kept that holds at its
start. -/
lemma foldlM_eq_some {S A : Type} (Inv : S → Prop) {f? : S → A → Option S} {f : S → A → S}
    {l : List A} (hstep : ∀ s a, Inv s → a ∈ l → f? s a = some (f s a) ∧ Inv (f s a)) {s : S}
    (hs : Inv s) : l.foldlM f? s = some (l.foldl f s) ∧ Inv (l.foldl f s) := by
  induction l generalizing s with
  | nil => exact ⟨rfl, hs⟩
  | cons a l ih =>
    obtain ⟨ha, hkept⟩ := hstep s a hs List.mem_cons_self
    rw [List.foldlM_cons, ha, List.foldl_cons]
    exact ih (fun s b hb hmem => hstep s b hb (List.mem_cons_of_mem _ hmem)) hkept

section Checked

variable [Add K] [Mul K]

/-- One coefficient of each band added to a sample, if tap `j` is in both filters and coefficient
`o` in both bands. -/
def gather? (low high approx detail : Array K) (j o : Nat) (sum : K) : Option K := do
  return gather (← low[j]?) (← high[j]?) (← approx[o]?) (← detail[o]?) sum

/-- The loop of `gatherCovering`. -/
def gatherCovering? (low high approx detail : Array K) (n : Nat) : Nat → Nat → K → Option K
  | 0, _, sum => some sum
  | count + 1, o, sum =>
    let j : Int := 2 * o + 1 - n
    if j < 0 then gatherCovering? low high approx detail n count (o + 1) sum
    else if low.size ≤ j then some sum
    else do
      let sum ← gather? low high approx detail j.toNat o sum
      gatherCovering? low high approx detail n count (o + 1) sum

variable [Zero K]

/-- The reconstruction of `synthesizeWindowed`. -/
def synthesizeWindowed? (bank : FilterBank K) (length : Nat) (approx detail : List K) :
    Option (List K) :=
  (List.range length).mapM fun (n : Nat) =>
    let first := (((n : Int) - 1) / 2).toNat
    gatherCovering? bank.low.toArray bank.high.toArray approx.toArray detail.toArray n
      (approx.length - first) first 0

/-- Coefficient `o` of each band added to the sample that tap `j` met. -/
def scatter? (bank : FilterBank K) (approx detail : List K) (o : Nat) (out : Array K) (j : Nat) :
    Option (Array K) := do
  let n := ((windowStart .periodization bank.size o - j) % (2 * approx.length : Nat)).toNat
  let sum ← gather? bank.low.toArray bank.high.toArray approx.toArray detail.toArray j o (← out[n]?)
  return out.setIfInBounds n sum

/-- The reconstruction of `synthesizePeriodized`. -/
def synthesizePeriodized? (bank : FilterBank K) (approx detail : List K) : Option (List K) := do
  let out ← (List.range approx.length).foldlM
    (fun out o => (List.range bank.size).foldlM (scatter? bank approx detail o) out)
    (Array.replicate (2 * approx.length) 0)
  return out.toList

/-- The reconstruction of so many samples. -/
def FilterBank.reconstruct? (bank : FilterBank K) (mode : BoundaryMode) (length : Nat)
    (approx detail : List K) : Option (List K) :=
  if mode = .periodization then synthesizePeriodized? bank approx detail
  else synthesizeWindowed? bank length approx detail

/-! ### No access fails -/

section Loops

variable {low high approx detail : Array K} (hhigh : high.size = low.size)
  (hdetail : detail.size = approx.size)

include hhigh hdetail

lemma gather?_eq_some {j o : Nat} (hj : j < low.size) (ho : o < approx.size) (sum : K) :
    gather? low high approx detail j o sum
      = some (gather (low.getD j 0) (high.getD j 0) (approx.getD o 0) (detail.getD o 0) sum) := by
  simp [gather?, Array.getD, hj, ho, hhigh, hdetail]

lemma gatherCovering?_eq_some (n count o : Nat) (ho : ∀ i < count, o + i < approx.size) (sum : K) :
    gatherCovering? low high approx detail n count o sum
      = some (gatherCovering low high approx detail n count o sum) := by
  induction count generalizing o sum with
  | zero => rfl
  | succ count ih =>
    have hfirst : o < approx.size := ho 0 (Nat.succ_pos count)
    have hrest : ∀ i < count, o + 1 + i < approx.size := by
      intro i hi
      have := ho (i + 1) (Nat.succ_lt_succ hi)
      omega
    rw [gatherCovering?, gatherCovering]
    by_cases hbefore : (2 * o + 1 - n : Int) < 0
    · simp only [if_pos hbefore]
      exact ih _ hrest _
    · by_cases hbehind : (low.size : Int) ≤ 2 * o + 1 - n
      · simp only [if_neg hbefore, if_pos hbehind]
      · simp only [if_neg hbefore, if_neg hbehind]
        rw [gather?_eq_some hhigh hdetail (by omega) hfirst]
        exact ih _ hrest _

end Loops

variable {bank : FilterBank K} (hbank : bank.high.length = bank.low.length)
  {approx detail : List K} (hbands : detail.length = approx.length)

include hbank hbands

lemma synthesizeWindowed?_eq_some (length : Nat) :
    synthesizeWindowed? bank length approx detail
      = some (synthesizeWindowed bank length approx detail) := by
  have hsample : ∀ n : Nat, gatherCovering? bank.low.toArray bank.high.toArray approx.toArray
      detail.toArray n (approx.length - (((n : Int) - 1) / 2).toNat) (((n : Int) - 1) / 2).toNat 0
      = pure (gatherCovering bank.low.toArray bank.high.toArray approx.toArray detail.toArray n
        (approx.toArray.size - (((n : Int) - 1) / 2).toNat) (((n : Int) - 1) / 2).toNat 0) := by
    intro n
    refine gatherCovering?_eq_some (by simpa using hbank) (by simpa using hbands) _ _ _ ?_ _
    intro i hi
    rw [List.size_toArray]
    omega
  simp only [synthesizeWindowed?, hsample, List.mapM_pure]
  rfl

lemma scatter?_eq_some {o j : Nat} (ho : o < approx.length) (hj : j < bank.size) {out : Array K}
    (hout : out.size = 2 * approx.length) :
    scatter? bank approx detail o out j = some (scatter bank approx detail o out j) := by
  have hplace := toNat_emod_lt (show 0 < 2 * approx.length by omega)
    (windowStart .periodization bank.size o - j)
  rw [← hout] at hplace
  rw [scatter?, scatter, ← hout]
  generalize ((windowStart .periodization bank.size o - j) % (out.size : Nat)).toNat = n at hplace
  have hgather : ∀ sum, gather? bank.low.toArray bank.high.toArray approx.toArray detail.toArray j o
      sum = some (gather (bank.low.toArray.getD j 0) (bank.high.toArray.getD j 0)
        (approx.toArray.getD o 0) (detail.toArray.getD o 0) sum) :=
    gather?_eq_some (by simpa using hbank) (by simpa using hbands)
      (by simpa [FilterBank.size] using hj) (by simpa using ho)
  simp only [Array.getElem?_eq_getElem hplace, Option.bind_eq_bind, Option.bind_some, hgather,
    getD_toArray]
  refine congrArg some (Array.ext (by simp) fun i hi _ => ?_)
  rw [Array.getElem_setIfInBounds (by simpa using hi), Array.getElem_modify]
  split
  · rename_i hi
    subst hi
    rfl
  · rfl

lemma synthesizePeriodized?_eq_some :
    synthesizePeriodized? bank approx detail = some (synthesizePeriodized bank approx detail) := by
  have htaps : ∀ o < approx.length, ∀ out : Array K, out.size = 2 * approx.length →
      (List.range bank.size).foldlM (scatter? bank approx detail o) out
          = some ((List.range bank.size).foldl (scatter bank approx detail o) out) ∧
        ((List.range bank.size).foldl (scatter bank approx detail o) out).size
          = 2 * approx.length := by
    intro o ho out hout
    refine foldlM_eq_some (fun out : Array K => out.size = 2 * approx.length) ?_ hout
    intro out j hout hj
    exact ⟨scatter?_eq_some hbank hbands ho (List.mem_range.mp hj) hout,
      (size_scatter ..).trans hout⟩
  have hcoefficients := foldlM_eq_some (fun out : Array K => out.size = 2 * approx.length)
    (fun out o hout ho => htaps o (List.mem_range.mp ho) out hout)
    (Array.size_replicate (n := 2 * approx.length) (v := (0 : K)))
  rw [synthesizePeriodized?, hcoefficients.1, synthesizePeriodized_eq hbank hbands]
  rfl

omit hbands in
/-- **No access of an inverse transform fails**, whichever bands it accepts. -/
lemma FilterBank.reconstruct?_of_inverse [Sub K] [Neg K] [NatCast K] {mode : BoundaryMode}
    {x : List K} (h : bank.inverse mode approx detail = .ok x) :
    bank.reconstruct? mode x.length approx detail = some x := by
  rw [inverse] at h
  split at h
  · cases h
  · rename_i hlength
    have hbands : detail.length = approx.length := (not_not.mp hlength).symm
    split at h
    · cases h
    · split at h
      · cases h
      · split at h
        · rename_i hmode
          cases h
          rw [reconstruct?, if_pos hmode, synthesizePeriodized?_eq_some hbank hbands]
        · rename_i hmode
          cases h
          rw [reconstruct?, if_neg hmode, synthesizeWindowed?_eq_some hbank hbands]
          simp [synthesizeWindowed]

end Checked

/-! ### Taking back what was transformed -/

/-- An inverse transform accepts what a transform gives.  A signal of `n` samples has `A n`
coefficients of approximation and `D n` of detail, from which `L n` samples are put together, and
so it is for the rows and for the columns of a matrix. -/
structure InverseAccepts (A D L : Nat → Nat) (forward : List K → Except Error (List K × List K))
    (inverse : List K → List K → Except Error (List K))
    (forwardMatrix : Matrix K → Except Error (Bands K))
    (inverseMatrix : Bands K → Except Error (Matrix K)) : Prop where
  signal : ∀ x : List K, 1 ≤ x.length → ∃ approx detail y,
    forward x = .ok (approx, detail) ∧ approx.length = A x.length ∧ detail.length = D x.length ∧
      inverse approx detail = .ok y ∧ y.length = L x.length
  matrix : ∀ m : Matrix K, 1 ≤ m.rows → 1 ≤ m.cols → ∃ bands y,
    forwardMatrix m = .ok bands ∧ bands.Sized A D m.rows m.cols ∧
      inverseMatrix bands = .ok y ∧ y.shape = [L m.rows, L m.cols]

/-- A kernel that keeps to its lengths accepts what it gives, and so does a transform of matrices
that is made of it. -/
lemma Separable.Fits.inverseAccepts {A D L : Nat → Nat}
    {split : List K → Except Error (List K × List K)}
    {join : List K → List K → Except Error (List K)} (h : Fits A D L split join)
    {inverseMatrix : Bands K → Except Error (Matrix K)}
    (hmatrix : ∀ rows cols bands, 1 ≤ rows → bands.Sized A D rows cols →
      inverseMatrix bands = inverse join bands) :
    InverseAccepts A D L split join (forward split) inverseMatrix where
  signal x hx := by
    obtain ⟨approx, detail, hsplit, happrox, hdetail⟩ := h.split_ok x (List.length_pos_iff.mp hx)
    obtain ⟨y, hjoin, hy⟩ := h.join_ok x.length hx approx detail happrox hdetail
    exact ⟨approx, detail, y, hsplit, happrox, hdetail, hjoin, hy⟩
  matrix m hrows hcols := by
    obtain ⟨bands, hforward, hsized⟩ := h.forward_ok m hrows hcols
    obtain ⟨y, hinverse, hy⟩ := h.inverse_ok hrows hcols hsized
    exact ⟨bands, y, hforward, hsized, (hmatrix _ _ bands hrows hsized).trans hinverse, hy⟩

lemma FilterBank.inverseAccepts [Zero K] [Add K] [Sub K] [Mul K] [Neg K] [NatCast K]
    {bank : FilterBank K} (mode : BoundaryMode) (hbank : bank.high.length = bank.low.length)
    (heven : Even bank.low.length) (htaps : 2 ≤ bank.low.length) :
    InverseAccepts (coefficientCount mode bank.low.length) (coefficientCount mode bank.low.length)
      (fun n => n + n % 2) (bank.forward mode) (bank.inverse mode) (bank.forwardMatrix mode)
      (bank.inverseMatrix mode) := by
  have hfits := fits mode hbank heven htaps
  refine hfits.inverseAccepts fun rows cols bands hrows hsized => ?_
  have hcount := hfits.one_le_approx rows hrows
  exact inverseMatrix_of_uniform (hsized.uniform (by omega))

/-- **Every transform can be taken back**, in every sample type and boundary mode.  The inverse
transform accepts all coefficients of a signal or a matrix that is not empty, the numbers of
coefficients and of samples that are put together only depend on the mode, the number of taps and
the number of samples, and no access of a reconstruction is outside of its list. -/
theorem inverse_accepts_forward (T : Type) [Sample T] (mode : BoundaryMode) :
    (∀ w : Wavelet,
      InverseAccepts
        (fun n => if mode = .periodization then (n + 1) / 2 else (n + w.filterSize - 1) / 2)
        (fun n => if mode = .periodization then (n + 1) / 2 else (n + w.filterSize - 1) / 2)
        (fun n => if n % 2 = 0 then n else n + 1)
        ((w.bankIn T).forward mode) ((w.bankIn T).inverse mode)
        ((w.bankIn T).forwardMatrix mode) ((w.bankIn T).inverseMatrix mode) ∧
      ∀ approx detail y, (w.bankIn T).inverse mode approx detail = .ok y →
        (w.bankIn T).reconstruct? mode y.length approx detail = some y) ∧
    ∀ scheme : LiftingScheme T,
      InverseAccepts (fun n => (n + 1) / 2) (fun n => n / 2) (fun n => n)
        (scheme.forward mode) (scheme.inverse mode)
        (scheme.forwardMatrix mode) (scheme.inverseMatrix mode) := by
  constructor
  · intro w
    obtain ⟨heven, htaps⟩ := w.even_filterSize
    have hlow := w.size_bankIn T
    have hbank : (w.bankIn T).high.length = (w.bankIn T).low.length := by
      rw [hlow, w.length_high_bankIn T]
    have haccepts := FilterBank.inverseAccepts mode hbank (by rwa [hlow]) (by rwa [hlow])
    have hlength : (fun n => n + n % 2) = fun n : Nat => if n % 2 = 0 then n else n + 1 := by
      funext n
      split <;> omega
    rw [hlow, hlength] at haccepts
    exact ⟨haccepts, fun _ _ _ h => FilterBank.reconstruct?_of_inverse hbank h⟩
  · intro scheme
    exact (scheme.fits mode).inverseAccepts fun _ _ _ _ _ => rfl

/-- A signal of a single sample, which is shorter than the filters, and a matrix of a single row,
whose details down the columns are lost. -/
theorem inverse_accepts_forward_single :
    let bank := (Wavelet.mk "db4" .daubechies4).bankIn BFloat16
    let scheme : LiftingScheme BFloat16 :=
      (LiftingScheme.ofFamily .daubechies2).map Sample.narrow
    let x := Sample.narrowAll BFloat16 [1.0]
    let m : Matrix BFloat16 := .ofFn 1 3 fun _ c => (c : Nat)
    (∃ approx detail y, bank.forward .symmetric x = .ok (approx, detail) ∧
      approx.length = 4 ∧ detail.length = 4 ∧
      bank.inverse .symmetric approx detail = .ok y ∧ y.length = 2 ∧
      bank.reconstruct? .symmetric 2 approx detail = some y) ∧
    ∃ bands y, scheme.forwardMatrix .symmetric m = .ok bands ∧
      bands.ll.shape = [1, 2] ∧ bands.hl.shape = [1, 1] ∧
      bands.lh.shape = [0, 0] ∧ bands.hh.shape = [0, 0] ∧
      scheme.inverseMatrix .symmetric bands = .ok y ∧ y.shape = [1, 3] := by
  intro bank scheme x m
  obtain ⟨hconvolution, hlifting⟩ := inverse_accepts_forward BFloat16 .symmetric
  obtain ⟨haccepts, hinside⟩ := hconvolution (Wavelet.mk "db4" .daubechies4)
  constructor
  · obtain ⟨approx, detail, y, hforward, happrox, hdetail, hinverse, hy⟩ :=
      haccepts.signal x (by decide)
    have hreconstruct := hinside approx detail y hinverse
    rw [hy] at hreconstruct
    exact ⟨approx, detail, y, hforward, happrox.trans (by decide), hdetail.trans (by decide),
      hinverse, hy, hreconstruct⟩
  · obtain ⟨bands, y, hforward, hsized, hinverse, hy⟩ :=
      (hlifting scheme).matrix m (by decide) (by decide)
    exact ⟨bands, y, hforward, hsized.ll.trans (by decide), hsized.hl.trans (by decide),
      hsized.lh.trans (by decide), hsized.hh.trans (by decide), hinverse, hy⟩

end WaveletPrecision
