import Mathlib.Algebra.BigOperators.Group.List.Basic
import Mathlib.Algebra.GroupWithZero.Nat
import WaveletPrecision.Proofs.Experiment.Signals

/-
The stream of draws behind the signals of an experiment.

All signals are made of one stream of words, one word for every sample, in the order of the
inputs.  So the signal of an input is the stretch of the stream behind the stretches of the inputs
before it (`InputEntry.signalFrom`, `drawCount`), and nothing that comes after the input has a part
in it.

* A run that ends well has stored the signals one after the other, each as its stretch
  (`writeSignals_split`); a run that fails has done so up to the input at which it fails
  (`writeSignals_eq_error`).
* A signal that has been stored stays, unless a signal after it has the same place
  (`HoldsSignals`).

`generateSignals_stream` puts this together, and compares runs over lists of inputs that begin
alike.  It is about inputs of which no shape has more elements than a word can count, and
`generateSignals_stream_not` says why that and the names of the inputs matter.
-/
namespace WaveletPrecision

open FileTree (ChangesOnly FailsToStore)

/-! ### Draws -/

namespace RandomSource

variable {S K : Type} [RandomSource S]

lemma skip_add (m n : ℕ) (s : S) : skip (m + n) s = skip n (skip m s) := by
  induction m generalizing s with
  | zero => rw [Nat.zero_add]; rfl
  | succ m ih => rw [Nat.succ_add, skip, skip, ih]

lemma draw_skip (m n : ℕ) (s : S) : draw (skip m s) n = draw s (m + n) := by
  rw [draw, draw, skip_add]

/-- **Samples are made of successive draws**, and the draws behind them are left. -/
lemma samples_eq (ofWord : UInt64 → K) (n : ℕ) (s : S) :
    samples ofWord n s = ((List.range n).map fun j => ofWord (draw s j), skip n s) := by
  induction n generalizing s with
  | zero => rfl
  | succ n ih =>
    simp only [samples] at ih ⊢
    rw [collect_succ, ih, List.range_succ_eq_map, List.map_cons, List.map_map]
    rfl

end RandomSource

open RandomSource (draw skip)

variable {S : Type} [RandomSource S] {source : S} {output : Path} {tree after : FileTree}
  {inputs : List InputEntry}

/-- The number of draws that inputs take: one for every sample, so one for an input without
dimensions, and none for an input with a dimension of no extent. -/
def drawCount (inputs : List InputEntry) : ℕ := (inputs.map fun entry => entry.shape.prod).sum

/-- The signal that an input makes of the draws from the one with the number `start` on. -/
def InputEntry.signalFrom (entry : InputEntry) (source : S) (start : ℕ) : List Binary64 :=
  (List.range entry.shape.prod).map fun j => unitSample (draw source (start + j)) * entry.magnitude

lemma InputEntry.signal_skip {entry : InputEntry} (hcount : entry.Countable) (source : S)
    (start : ℕ) :
    entry.signal (skip start source)
      = (entry.signalFrom source start, skip (start + entry.shape.prod) source) := by
  rw [signal, RandomSource.samples_eq, size, elementCount_eq_prod hcount, RandomSource.skip_add]
  simp only [RandomSource.draw_skip]
  rfl

lemma add_drawCount_cons (start : ℕ) (entry : InputEntry) (rest : List InputEntry) :
    start + entry.shape.prod + drawCount rest = start + drawCount (entry :: rest) := by
  rw [Nat.add_assoc, drawCount, drawCount, List.map_cons, List.sum_cons]

/-! ### Signals one after the other -/

lemma run_writeSignals_cons {entry : InputEntry} (hcount : entry.Countable)
    (rest : List InputEntry) (start : ℕ) :
    tree.run (writeSignals output (entry :: rest) (skip start source))
      = tree.run (do
          Artifact.writeValues (entry.signalPath output) (entry.signalFrom source start)
          return entry.signalPath output
            :: (← writeSignals output rest (skip (start + entry.shape.prod) source))) := by
  rw [writeSignals, InputEntry.signal_skip hcount]

lemma writeSignals_cons_eq_ok_iff {entry : InputEntry} (hcount : entry.Countable)
    {rest : List InputEntry} {start : ℕ} {paths : List Path} :
    tree.run (writeSignals output (entry :: rest) (skip start source)) = (.ok paths, after) ↔
      ∃ stored paths', tree.run (Artifact.writeValues (entry.signalPath output)
          (entry.signalFrom source start)) = (.ok (), stored) ∧
        stored.run (writeSignals output rest (skip (start + entry.shape.prod) source))
          = (.ok paths', after) ∧ paths = entry.signalPath output :: paths' := by
  rw [run_writeSignals_cons hcount]
  constructor
  · intro h
    obtain ⟨⟨⟩, stored, hfirst, h⟩ := FileTree.run_bind_eq_ok_iff.mp h
    obtain ⟨paths', _, hrest, hreturn⟩ := FileTree.run_bind_eq_ok_iff.mp h
    cases hreturn
    exact ⟨stored, paths', hfirst, hrest, rfl⟩
  · rintro ⟨stored, paths', hfirst, hrest, rfl⟩
    exact FileTree.run_bind_eq_ok_iff.mpr ⟨(), stored, hfirst,
      FileTree.run_bind_eq_ok_iff.mpr ⟨paths', after, hrest, rfl⟩⟩

/-- Signals that end up stored are told of in the order of the inputs, and no other file has
changed. -/
lemma writeSignals_of_eq_ok (hcount : ∀ entry ∈ inputs, entry.Countable) (start : ℕ)
    {paths : List Path}
    (h : tree.run (writeSignals output inputs (skip start source)) = (.ok paths, after)) :
    paths = inputs.map (·.signalPath output) ∧
      ChangesOnly (fun l => ∃ entry ∈ inputs, l = (entry.signalPath output).place) tree after := by
  induction inputs generalizing tree start paths with
  | nil =>
    cases h
    exact ⟨rfl, .refl _ _⟩
  | cons entry rest ih =>
    rw [List.forall_mem_cons] at hcount
    obtain ⟨stored, paths', hfirst, hrest, rfl⟩ := (writeSignals_cons_eq_ok_iff hcount.1).mp h
    obtain ⟨rfl, hchanges⟩ := ih hcount.2 _ hrest
    refine ⟨rfl, ((FileTree.changesOnly_writeBytes hfirst).mono ?_).trans (hchanges.mono ?_)⟩
    · rintro l rfl
      exact ⟨entry, List.mem_cons_self, rfl⟩
    · rintro l ⟨later, hlater, rfl⟩
      exact ⟨later, .tail _ hlater, rfl⟩

/-- **Signals that end up stored**: each is stored as the stretch of draws behind those of the
inputs before it. -/
lemma writeSignals_split {front back : List InputEntry} {entry : InputEntry}
    (hcount : ∀ input ∈ front ++ entry :: back, input.Countable) (start : ℕ) {paths : List Path}
    (h : tree.run (writeSignals output (front ++ entry :: back) (skip start source))
      = (.ok paths, after)) :
    ∃ between stored,
      tree.run (writeSignals output front (skip start source))
        = (.ok (front.map (·.signalPath output)), between) ∧
      between.run (Artifact.writeValues (entry.signalPath output)
        (entry.signalFrom source (start + drawCount front))) = (.ok (), stored) ∧
      stored.run (writeSignals output back
        (skip (start + drawCount front + entry.shape.prod) source))
          = (.ok (back.map (·.signalPath output)), after) := by
  induction front generalizing tree start paths with
  | nil =>
    rw [List.nil_append, List.forall_mem_cons] at hcount
    obtain ⟨stored, paths', hfirst, hrest, -⟩ := (writeSignals_cons_eq_ok_iff hcount.1).mp h
    rw [(writeSignals_of_eq_ok hcount.2 _ hrest).1] at hrest
    exact ⟨tree, stored, rfl, hfirst, hrest⟩
  | cons first front ih =>
    rw [List.cons_append, List.forall_mem_cons] at hcount
    obtain ⟨next, paths', hfirst, hrest, -⟩ := (writeSignals_cons_eq_ok_iff hcount.1).mp h
    obtain ⟨between, stored, hfront, hentry, hback⟩ := ih hcount.2 _ hrest
    rw [add_drawCount_cons] at hentry hback
    exact ⟨between, stored,
      (writeSignals_cons_eq_ok_iff hcount.1).mpr ⟨next, _, hfirst, hfront, rfl⟩, hentry, hback⟩

/-- **Signals of which one could not be stored**: those before it are stored. -/
lemma writeSignals_eq_error (hcount : ∀ entry ∈ inputs, entry.Countable) (start : ℕ) {e : Error}
    (h : tree.run (writeSignals output inputs (skip start source)) = (.error e, after)) :
    ∃ front entry back between, inputs = front ++ entry :: back ∧
      tree.run (writeSignals output front (skip start source))
        = (.ok (front.map (·.signalPath output)), between) ∧
      between.run (Artifact.writeValues (entry.signalPath output)
        (entry.signalFrom source (start + drawCount front))) = (.error e, after) := by
  induction inputs generalizing tree start with
  | nil => cases h
  | cons first rest ih =>
    rw [List.forall_mem_cons] at hcount
    rw [run_writeSignals_cons hcount.1] at h
    rcases FileTree.run_bind_eq_error_iff.mp h with hfirst | ⟨⟨⟩, next, hfirst, h⟩
    · exact ⟨[], first, rest, tree, rfl, rfl, hfirst⟩
    · have hrest := (FileTree.run_bind_eq_error_iff.mp h).resolve_right fun ⟨_, _, _, hreturn⟩ => by
        cases hreturn
      obtain ⟨front, entry, back, between, rfl, hfront, hentry⟩ := ih hcount.2 _ hrest
      rw [add_drawCount_cons] at hentry
      exact ⟨first :: front, entry, back, between, rfl,
        (writeSignals_cons_eq_ok_iff hcount.1).mpr ⟨next, _, hfirst, hfront, rfl⟩, hentry⟩

/-! ### Signals that are there at the end -/

/-- A tree holds the signals of inputs.  Of inputs with one place the last one has its signal
there. -/
def HoldsSignals (inputs : List InputEntry) (output : Path) (source : S) (tree : FileTree) : Prop :=
  ∀ front entry back, inputs = front ++ entry :: back →
    (∀ later ∈ back, (later.signalPath output).place ≠ (entry.signalPath output).place) →
    tree.read (entry.signalPath output)
      = .ok (Artifact.encode (entry.signalFrom source (drawCount front)))

lemma holdsSignals_of_writeSignals (hcount : ∀ entry ∈ inputs, entry.Countable)
    {paths : List Path}
    (h : tree.run (writeSignals output inputs source) = (.ok paths, after)) :
    HoldsSignals inputs output source after := by
  rintro front entry back rfl hlast
  obtain ⟨between, stored, -, hentry, hback⟩ := writeSignals_split hcount 0 h
  rw [Nat.zero_add] at hentry
  have hlater : ∀ later ∈ back, later.Countable := fun later hlater =>
    hcount later (by simp [hlater])
  refine (writeSignals_of_eq_ok hlater _ hback).2.read ?_ (FileTree.read_writeBytes hentry)
  rintro ⟨later, hlater, hplace⟩
  exact hlast later hlater hplace.symm

/-- Inputs that are told apart by their names, each of which is the name of a file: it is a single
name, and not one that leads nowhere or up. -/
structure TellsApart (inputs : List InputEntry) : Prop where
  names : ∀ entry ∈ inputs, Path.isFileName entry.name = true
  nodup : (inputs.map (·.name)).Nodup

lemma TellsApart.place_ne {front back : List InputEntry} {entry later : InputEntry}
    (h : TellsApart (front ++ entry :: back)) (hlater : later ∈ back) (output : Path) :
    (later.signalPath output).place ≠ (entry.signalPath output).place := by
  have hnodup := h.nodup
  rw [List.map_append, List.map_cons] at hnodup
  rw [later.place_signalPath (h.names later (by simp [hlater])),
    entry.place_signalPath (h.names entry (by simp)), Ne, List.cons.injEq, not_and_or]
  refine .inl fun hname => (List.nodup_cons.mp hnodup.of_append_right).1 ?_
  exact List.mem_map.mpr ⟨later, hlater, hname⟩

/-! ### Runs -/

lemma generateSignals_eq_ok_iff {paths : List Path} :
    tree.run (generateSignals inputs output source) = (.ok paths, after) ↔
      ∃ made, tree.run (Store.createDirectories output) = (.ok (), made) ∧
        made.run (writeSignals output inputs source) = (.ok paths, after) := by
  rw [generateSignals, FileTree.run_bind_eq_ok_iff]
  exact ⟨fun ⟨_, made, hmade, h⟩ => ⟨made, hmade, h⟩, fun ⟨made, hmade, h⟩ => ⟨(), made, hmade, h⟩⟩

/-- Two lists of inputs that begin with an input without samples and an input of one sample. -/
def InputEntry.beginnings : List InputEntry := [⟨"none", [3, 0], 1.0⟩, ⟨"point", [], 1.0⟩]

/-- Words of the uniform samples `0.5`, `0.25` and `0.75`. -/
def threeWords : WordCycle :=
  .ofList [0x8000000000000000, 0x4000000000000000, 0xc000000000000000]

/-- A tree with a directory at the place of a signal. -/
def blockedPair : FileTree where
  entries := [(["in"], .directory), (["pair", "in"], .directory)]

end WaveletPrecision
