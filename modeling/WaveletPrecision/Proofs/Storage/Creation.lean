import WaveletPrecision.Proofs.Storage.NamedPath
import WaveletPrecision.Proofs.Storage.Store

/-
Making directories and files where nothing is in the way.

If no file stands on the way to the place of a path made of names (`FileTree.Clear`), then the
path can be followed, or something is missing on it (`FileTree.follow_concat_of_clear`); the
latter is what makes the paths above it be made first.  So the directory can always be made,
with everything above it and nothing else (`FileTree.makeDirectories_of_clear`), and a file can
be stored below it (`FileTree.run_writeBytes_of_clear`).

A `FileTree.Plan` says where directories and where files may stand.  In a tree that holds a plan
a file can be stored at any of the places for files, and the tree holds the plan afterwards
(`FileTree.Plan.Holds.writeBytes`).
-/
namespace WaveletPrecision

namespace FileTree

open WaveletPrecision.Path (IsDescent IsPlain placeOf stepTo dropIdle)

variable {tree : FileTree}

/-- No file stands on the way to a location, or at it. -/
def Clear (tree : FileTree) (place : Location) : Prop :=
  ∀ l, l <:+ place → ∀ content, tree.lookup l ≠ some (.file content)

lemma Clear.of_suffix {place place' : Location} (h : tree.Clear place) (hplace : place' <:+ place) :
    tree.Clear place' :=
  fun l hl => h l (hl.trans hplace)

/-- The location at a place and those above it are directories in the tree `after`, and
everything else is as it is in the tree `before`. -/
def Makes (before : FileTree) (place : Location) (after : FileTree) : Prop :=
  ∀ l, after.lookup l = if l <:+ place then some .directory else before.lookup l

/-! ### Following a path made of names -/

lemma follow_singleton_eq_ok_iff {place l : Location} {piece : String} :
    tree.follow place [piece] = .ok l ↔
      tree.find place = .ok (some .directory) ∧ l = stepTo place piece := by
  rw [follow_cons_eq_ok_iff]
  exact and_congr_right fun _ => ⟨fun h => (Except.ok.inj h).symm, fun h => congrArg _ h.symm⟩

/-- A way down leads through the locations above its end. -/
lemma suffix_placeOf_concat {pieces : List String} {piece : String} (h : IsDescent piece)
    {l : Location} :
    l <:+ placeOf (pieces ++ [piece]) ↔ l = placeOf (pieces ++ [piece]) ∨ l <:+ placeOf pieces := by
  rw [Path.placeOf_concat]
  rcases h with rfl | hplain
  · rw [Path.stepTo_of_isIdle rfl]
    exact ⟨.inr, Or.rec (fun h => h ▸ List.suffix_rfl) id⟩
  · rw [Path.stepTo_of_isPlain hplain, List.suffix_cons_iff]

/-- **A way down can be followed** exactly if everything above its last piece is a directory. -/
lemma follow_concat_eq_ok_iff {pieces : List String} (hpieces : ∀ piece ∈ pieces, IsDescent piece)
    {last : String} {place : Location} :
    tree.follow [] (pieces ++ [last]) = .ok place ↔
      (∀ l, l <:+ placeOf pieces → tree.find l = .ok (some .directory)) ∧
        place = stepTo (placeOf pieces) last := by
  induction pieces using List.reverseRecOn generalizing last place with
  | nil =>
    rw [List.nil_append, follow_singleton_eq_ok_iff]
    exact and_congr_left fun _ => by simp [placeOf]
  | append_singleton pieces piece ih =>
    simp only [List.mem_append, List.mem_singleton, or_imp, forall_and, forall_eq] at hpieces
    rw [follow_append_eq_ok_iff]
    simp only [ih hpieces.1, follow_singleton_eq_ok_iff, suffix_placeOf_concat hpieces.2, or_imp,
      forall_and, forall_eq, ← Path.placeOf_concat pieces piece]
    constructor
    · rintro ⟨between, ⟨habove, rfl⟩, hfind, hplace⟩
      exact ⟨⟨hfind, habove⟩, hplace⟩
    · rintro ⟨⟨hfind, habove⟩, hplace⟩
      exact ⟨_, ⟨habove, rfl⟩, hfind, hplace⟩

/-- If no file stands on a way down, then it can be followed, or something is missing. -/
lemma follow_concat_of_clear {pieces : List String} (hpieces : ∀ piece ∈ pieces, IsDescent piece)
    (hfits : ∀ l, l <:+ placeOf pieces → FitsName l) (hclear : tree.Clear (placeOf pieces))
    (last : String) :
    tree.follow [] (pieces ++ [last]) = .ok (stepTo (placeOf pieces) last) ∨
      tree.follow [] (pieces ++ [last]) = .error .notFound := by
  induction pieces using List.reverseRecOn generalizing last with
  | nil => exact .inl (follow_singleton_eq_ok_iff.mpr ⟨rfl, rfl⟩)
  | append_singleton pieces piece ih =>
    simp only [List.mem_append, List.mem_singleton, or_imp, forall_and, forall_eq] at hpieces
    have habove : placeOf pieces <:+ placeOf (pieces ++ [piece]) :=
      (suffix_placeOf_concat hpieces.2).mpr (.inr List.suffix_rfl)
    rw [follow_append]
    rcases ih hpieces.1 (fun l hl => hfits l (hl.trans habove)) (hclear.of_suffix habove) piece with
      hfront | hfront
    · -- the way is open as far as the last location, at which no file stands
      rw [hfront, ← Path.placeOf_concat]
      have hfind : tree.find (placeOf (pieces ++ [piece]))
          = .ok (tree.lookup (placeOf (pieces ++ [piece]))) :=
        find_eq_ok_iff.mpr ⟨hfits _ List.suffix_rfl, rfl⟩
      rcases hlookup : tree.lookup (placeOf (pieces ++ [piece])) with _ | _ | content
      · right
        change tree.follow (placeOf (pieces ++ [piece])) [last] = _
        rw [follow, hfind, hlookup]
        rfl
      · left
        exact follow_singleton_eq_ok_iff.mpr ⟨hlookup ▸ hfind, rfl⟩
      · exact absurd hlookup (hclear _ List.suffix_rfl content)
    · rw [hfront]
      exact .inr rfl

/-! ### Making directories -/

section Directories

variable {p q : Path}

/-- Putting a directory below a directory. -/
lemma makes_put {name : String} {place : Location}
    (h : ∀ l, l <:+ place → tree.lookup l = some .directory) :
    tree.Makes (name :: place) (tree.put (name :: place) .directory) := by
  intro l
  rw [lookup_put (List.cons_ne_nil _ _)]
  by_cases hl : l = name :: place
  · simp [hl]
  · by_cases habove : l <:+ place
    · simp [hl, List.suffix_cons_iff, habove, h l habove]
    · simp [hl, List.suffix_cons_iff, habove]

lemma makes_self {place : Location} (h : ∀ l, l <:+ place → tree.lookup l = some .directory) :
    tree.Makes place tree := by
  intro l
  split
  · rename_i hl
    exact h l hl
  · rfl

lemma makes_root (tree : FileTree) : tree.Makes Path.empty.place tree :=
  makes_self fun l hl => by
    rw [List.suffix_nil.mp hl]
    exact tree.lookup_root

lemma Makes.trans {before between after : FileTree} {place place' : Location}
    (h : before.Makes place between) (h' : between.Makes place' after)
    (hplace : place <:+ place') : before.Makes place' after := by
  intro l
  rw [h' l, h l]
  by_cases hl : l <:+ place'
  · simp [hl]
  · have hnot : ¬l <:+ place := fun h => hl (h.trans hplace)
    simp [hl, hnot]

lemma endsInName_dropIdle (hp : p.IsNamed) : endsInName (dropIdle p.pieces) = true := by
  obtain ⟨init, name, hlast, -, hname, -⟩ := hp.exists_last
  rw [hlast]
  simp [endsInName, hname.ne_dot, hname.2]

lemma find_place (haccepted : p.Accepted) : tree.find p.place = .ok (tree.lookup p.place) :=
  find_eq_ok_iff.mpr ⟨haccepted.fitsName List.suffix_rfl, rfl⟩

/-- The names of a path are followed to the last one if everything above is a directory. -/
lemma follow_dropIdle_of_above (hp : p.IsNamed) (haccepted : p.Accepted)
    (habove : ∀ l, l <:+ p.place.tail → tree.lookup l = some .directory) :
    tree.follow [] (dropIdle p.pieces) = .ok p.place := by
  obtain ⟨init, name, hlast, hinit, hname, hplace⟩ := hp.exists_last
  rw [hplace, List.tail_cons] at habove
  rw [hlast, follow_concat_eq_ok_iff hinit, hplace, Path.stepTo_of_isPlain hname]
  refine ⟨fun l hl => find_eq_ok_iff.mpr ⟨?_, habove l hl⟩, rfl⟩
  exact haccepted.fitsName (hplace ▸ hl.trans (List.suffix_cons _ _))

/-- Something is missing on the way to a path if not everything above is a directory. -/
lemma follow_dropIdle_of_missing (hp : p.IsNamed) (haccepted : p.Accepted)
    (hclear : tree.Clear p.place)
    (hmissing : ¬∀ l, l <:+ p.place.tail → tree.lookup l = some .directory) :
    tree.follow [] (dropIdle p.pieces) = .error .notFound := by
  obtain ⟨init, name, hlast, hinit, hname, hplace⟩ := hp.exists_last
  have habove : placeOf init <:+ p.place := hplace ▸ List.suffix_cons _ _
  rw [hplace, List.tail_cons] at hmissing
  rw [hlast]
  refine (follow_concat_of_clear hinit (fun l hl => haccepted.fitsName (hl.trans habove))
    (hclear.of_suffix habove) name).resolve_left fun hok => hmissing fun l hl => ?_
  exact (find_eq_ok_iff.mp (((follow_concat_eq_ok_iff hinit).mp hok).1 l hl)).2

lemma isDirectory_of_above (hp : p.IsNamed) (haccepted : p.Accepted)
    (h : ∀ l, l <:+ p.place → tree.lookup l = some .directory) : tree.isDirectory p = true := by
  have hfind : ∀ l, l <:+ p.place → tree.find l = .ok (some .directory) := fun l hl =>
    find_eq_ok_iff.mpr ⟨haccepted.fitsName hl, h l hl⟩
  have hfollow : tree.follow [] p.pieces = .ok p.place := by
    have hdescent := hp.descent
    rw [Path.place] at hfind ⊢
    rcases List.eq_nil_or_concat p.pieces with hnil | ⟨init, last, hpieces⟩
    · rw [hnil]
      rfl
    · rw [hpieces, List.concat_eq_append] at hdescent hfind ⊢
      have habove : placeOf init <:+ placeOf (init ++ [last]) :=
        (suffix_placeOf_concat (hdescent last (by simp))).mpr (.inr List.suffix_rfl)
      rw [follow_concat_eq_ok_iff
        fun piece hpiece => hdescent piece (List.mem_append_left _ hpiece)]
      exact ⟨fun l hl => hfind l (hl.trans habove), Path.placeOf_concat _ _⟩
  have hentry : tree.entryAt p = .ok (some .directory) :=
    bind_eq_ok_iff.mpr ⟨p.place, locate_eq_ok_iff.mpr ⟨haccepted.valid, hfollow⟩,
      hfind _ List.suffix_rfl⟩
  rw [isDirectory, hentry]

lemma isDirectory_of_follow_error {fault : Fault}
    (h : tree.follow [] (dropIdle p.pieces) = .error fault) : tree.isDirectory p = false := by
  rw [isDirectory]
  split
  · rename_i hentry
    obtain ⟨place, hlocate, -⟩ := bind_eq_ok_iff.mp hentry
    obtain ⟨rest, hrest⟩ := Path.dropIdle_prefix_self p.pieces
    have hfollow := (locate_eq_ok_iff.mp hlocate).2
    rw [← hrest, follow_append_eq_ok_iff, h] at hfollow
    obtain ⟨_, hok, -⟩ := hfollow
    cases hok
  · rfl

lemma makeDirectory_eq (hp : p.IsNamed) (haccepted : p.Accepted) :
    tree.makeDirectory p = tree.follow [] (dropIdle p.pieces) >>= fun place => do
      match ← tree.find place with
      | some _ => throw .alreadyExists
      | none => return tree.put place .directory := by
  rw [makeDirectory, haccepted.valid, Path.namedPieces_eq_dropIdle hp.descent,
    endsInName_dropIdle hp]
  rfl

/-- **A directory below directories** is made, unless it is there. -/
lemma ensureDirectory_of_above (hp : p.IsNamed) (haccepted : p.Accepted)
    (habove : ∀ l, l <:+ p.place.tail → tree.lookup l = some .directory)
    (hfile : ∀ content, tree.lookup p.place ≠ some (.file content)) :
    ∃ after, tree.ensureDirectory p = (.ok (), after) ∧ tree.Makes p.place after := by
  have hmake : tree.makeDirectory p = _ := makeDirectory_eq hp haccepted
  simp only [follow_dropIdle_of_above hp haccepted habove, find_place haccepted, bind,
    Except.bind] at hmake
  obtain ⟨_, name, -, -, -, hplace⟩ := hp.exists_last
  rw [hplace, List.tail_cons] at habove
  rw [ensureDirectory]
  rcases hlookup : tree.lookup p.place with _ | _ | content
  · rw [hlookup] at hmake
    rw [hmake]
    exact ⟨_, rfl, hplace ▸ makes_put habove⟩
  · -- the attempt fails because the directory is there, and that failure is passed over
    have hall : ∀ l, l <:+ p.place → tree.lookup l = some .directory := by
      intro l hl
      rw [hplace, List.suffix_cons_iff, ← hplace] at hl
      exact hl.elim (fun h => h ▸ hlookup) (habove l)
    rw [hlookup] at hmake
    rw [hmake]
    exact ⟨tree, if_pos (isDirectory_of_above hp haccepted hall), makes_self hall⟩
  · exact absurd hlookup (hfile content)

lemma ensureDirectory_of_missing (hp : p.IsNamed) (haccepted : p.Accepted)
    (hclear : tree.Clear p.place)
    (hmissing : ¬∀ l, l <:+ p.place.tail → tree.lookup l = some .directory) :
    tree.ensureDirectory p = (.error .notFound, tree) := by
  have hfollow := follow_dropIdle_of_missing hp haccepted hclear hmissing
  have hmake : tree.makeDirectory p = _ := makeDirectory_eq hp haccepted
  simp only [hfollow, bind, Except.bind] at hmake
  rw [ensureDirectory, hmake]
  exact if_neg (by simp [isDirectory_of_follow_error hfollow])

/-- The paths above a path are made from the top, and then the path itself. -/
lemma ensureLineage_of_clear {fuel : Nat}
    (hq : q = Path.empty ∨ q.IsNamed ∧ q.Accepted ∧ q.pieces.length ≤ fuel)
    (hclear : tree.Clear q.place) :
    ∃ after, tree.ensureLineage (Path.lineageWithin fuel q) = (.ok (), after) ∧
      tree.Makes q.place after := by
  induction fuel generalizing q with
  | zero =>
    rcases hq with rfl | ⟨hnamed, -, hfuel⟩
    · exact ⟨tree, rfl, makes_root tree⟩
    · obtain ⟨first, rest, hpieces, -⟩ := hnamed.first
      simp [hpieces] at hfuel
  | succ fuel ih =>
    rcases hq with rfl | ⟨hnamed, haccepted, hfuel⟩
    · exact ⟨tree, rfl, makes_root tree⟩
    · obtain ⟨parent, name, hparent, hplace, habove⟩ := hnamed.exists_parent
      have hsuffix : parent.place <:+ q.place := hplace ▸ List.suffix_cons _ _
      have hlineage : Path.lineageWithin (fuel + 1) q = q :: Path.lineageWithin fuel parent := by
        rw [Path.lineageWithin, hparent]
      rw [hlineage, ensureLineage, if_neg hnamed.ne_empty]
      by_cases hthere : ∀ l, l <:+ q.place.tail → tree.lookup l = some .directory
      · obtain ⟨after, hmade, hmakes⟩ := ensureDirectory_of_above hnamed haccepted hthere
          (hclear _ List.suffix_rfl)
        rw [hmade]
        exact ⟨after, rfl, hmakes⟩
      · -- what is above is made first, and then the second attempt succeeds
        have hready : parent = Path.empty ∨
            parent.IsNamed ∧ parent.Accepted ∧ parent.pieces.length ≤ fuel := by
          refine habove.imp_right ?_
          rintro ⟨hnamed', hpart, hshort⟩
          exact ⟨hnamed', haccepted.of_prefix hpart hnamed'.pieces_ne_nil hnamed'.ne_empty,
            by omega⟩
        obtain ⟨between, hmade, hmakes⟩ := ih hready (hclear.of_suffix hsuffix)
        rw [ensureDirectory_of_missing hnamed haccepted hclear hthere]
        simp only [hmade]
        have hthere' : ∀ l, l <:+ q.place.tail → between.lookup l = some .directory := by
          intro l hl
          rw [hplace, List.tail_cons] at hl
          rw [hmakes, if_pos hl]
        have hfile : ∀ content, between.lookup q.place ≠ some (.file content) := by
          intro content
          rw [hmakes]
          split
          · simp
          · exact hclear _ List.suffix_rfl content
        obtain ⟨after, hmade', hmakes'⟩ := ensureDirectory_of_above hnamed haccepted hthere' hfile
        exact ⟨after, hmade', hmakes.trans hmakes' hsuffix⟩

/-- **Making directories** succeeds where no file stands in the way. -/
lemma makeDirectories_of_clear (hq : q = Path.empty ∨ q.IsNamed ∧ q.Accepted)
    (hclear : tree.Clear q.place) :
    ∃ after, tree.makeDirectories q = (.ok (), after) ∧ tree.Makes q.place after :=
  ensureLineage_of_clear (hq.imp_right fun h => ⟨h.1, h.2, Nat.le_succ _⟩) hclear

end Directories

/-! ### Storing files -/

section Files

variable {path : Path} {content : ByteArray}

/-- A file can be put below directories, unless there is a directory. -/
lemma target_of_above (hp : path.IsNamed) (hend : dropIdle path.pieces = path.pieces)
    (haccepted : path.Accepted)
    (habove : ∀ l, l <:+ path.place.tail → tree.lookup l = some .directory)
    (hplace : tree.lookup path.place ≠ some .directory) : tree.target path = .ok path.place := by
  have hname := endsInName_dropIdle hp
  have hfollow := follow_dropIdle_of_above hp haccepted habove
  rw [hend] at hname hfollow
  rw [target, haccepted.valid, Path.namedPieces_eq_dropIdle hp.descent, hend, hname]
  simp only [bind, Except.bind, hfollow, find_place haccepted, ne_eq, not_true_eq_false,
    decide_false, Bool.not_true, Bool.or_self, Bool.false_eq_true, if_false]
  rcases hlookup : tree.lookup path.place with _ | _ | old
  · rfl
  · exact absurd hlookup hplace
  · rfl

/-- A device that carries out every write puts the file where one can be put. -/
lemma write_of_target (htarget : tree.target path = .ok path.place)
    (hdevice : tree.interruptions = []) :
    tree.write path content = (.ok (), tree.put path.place (.file content)) := by
  obtain ⟨entries, interruptions⟩ := tree
  cases hdevice
  rw [write, htarget]
  rfl

/-- **Storing a file** succeeds where no file stands on the way and no directory at the place, on a
device that carries out every write. -/
lemma run_writeBytes_of_clear (hp : path.IsNamed) (hend : dropIdle path.pieces = path.pieces)
    (haccepted : path.Accepted) (hclear : tree.Clear path.place.tail)
    (hplace : tree.lookup path.place ≠ some .directory) (hdevice : tree.interruptions = []) :
    ∃ between, tree.Makes path.place.tail between ∧ between.interruptions = [] ∧
      tree.run (Store.writeBytes path content)
        = (.ok (), between.put path.place (.file content)) := by
  obtain ⟨parent, name, hparent, heq, habove⟩ := hp.exists_parent
  have hready : parent = Path.empty ∨ parent.IsNamed ∧ parent.Accepted := by
    refine habove.imp_right ?_
    rintro ⟨hnamed, hpart, -⟩
    exact ⟨hnamed, haccepted.of_prefix hpart hnamed.pieces_ne_nil hnamed.ne_empty⟩
  have htail : path.place.tail = parent.place := by rw [heq, List.tail_cons]
  rw [htail] at hclear ⊢
  obtain ⟨between, hmade, hmakes⟩ := makeDirectories_of_clear hready hclear
  have hbetween : between.interruptions = [] := by
    rw [← hdevice, ← tree.interruptions_makeDirectories parent, hmade]
  refine ⟨between, hmakes, hbetween, ?_⟩
  have hthere : ∀ l, l <:+ path.place.tail → between.lookup l = some .directory := by
    intro l hl
    rw [hmakes, if_pos (htail ▸ hl)]
  have hfree : between.lookup path.place ≠ some .directory := by
    have hlong : ¬path.place <:+ parent.place := fun h => by
      have := h.length_le
      rw [heq, List.length_cons] at this
      omega
    rwa [hmakes, if_neg hlong]
  have hwrite : between.write path content = (.ok (), between.put path.place (.file content)) :=
    write_of_target (target_of_above hp hend haccepted hthere hfree) hbetween
  rw [run_writeBytes hparent, hmade]
  simp only [run_putBytes, hwrite]
  rfl

end Files

/-! ### Places for directories and for files -/

/-- Places for directories and places for files.  Above a place of either kind there are places
for directories, and no place is of both kinds. -/
structure Plan where
  directories : Location → Prop
  files : Location → Prop
  above : ∀ name l, directories (name :: l) ∨ files (name :: l) → directories l
  apart : ∀ l, directories l → ¬files l

namespace Plan

variable {plan : Plan} {after : FileTree} {place : Location}

/-- Whatever stands in a tree stands at a place of its kind, and the device carries out every
write. -/
structure Holds (plan : Plan) (tree : FileTree) : Prop where
  device : tree.interruptions = []
  directory : ∀ l, tree.lookup l = some .directory → plan.directories l
  file : ∀ l content, tree.lookup l = some (.file content) → plan.files l

lemma directories_of_suffix (hplace : plan.directories place) {l : Location} (hl : l <:+ place) :
    plan.directories l := by
  induction place with
  | nil => rwa [List.suffix_nil.mp hl]
  | cons name place ih =>
    rcases List.suffix_cons_iff.mp hl with rfl | hl
    · exact hplace
    · exact ih (plan.above _ _ (.inl hplace)) hl

lemma Holds.clear (h : plan.Holds tree) (hplace : plan.directories place) : tree.Clear place :=
  fun l hl content hfile => plan.apart l (directories_of_suffix hplace hl) (h.file l content hfile)

lemma Holds.makes (h : plan.Holds tree) (hplace : plan.directories place)
    (hmakes : tree.Makes place after) (hdevice : after.interruptions = []) : plan.Holds after := by
  refine ⟨hdevice, ?_, ?_⟩
  · intro l hl
    rw [hmakes] at hl
    split at hl
    · rename_i hsuffix
      exact directories_of_suffix hplace hsuffix
    · exact h.directory l hl
  · intro l content hl
    rw [hmakes] at hl
    split at hl
    · cases hl
    · exact h.file l content hl

/-- **Making directories** at a place for directories succeeds and keeps the plan. -/
lemma Holds.createDirectories (h : plan.Holds tree) {path : Path} (hp : path.IsNamed)
    (haccepted : path.Accepted) (hplace : plan.directories path.place) :
    ∃ after, tree.run (Store.createDirectories path) = (.ok (), after) ∧ plan.Holds after := by
  obtain ⟨after, hmade, hmakes⟩ := makeDirectories_of_clear (.inr ⟨hp, haccepted⟩) (h.clear hplace)
  refine ⟨after, ?_, h.makes hplace hmakes ?_⟩
  · rw [run_createDirectories, hmade]
    rfl
  · rw [← h.device, ← tree.interruptions_makeDirectories path, hmade]

/-- **Storing a file** at a place for files succeeds and keeps the plan. -/
lemma Holds.writeBytes (h : plan.Holds tree) {directory : Path} {name : String}
    (hdirectory : directory.IsNamed) (hname : Path.isFileName name = true)
    (haccepted : (directory.join (.ofString name)).Accepted)
    (hplace : plan.files (name :: directory.place)) (content : ByteArray) :
    ∃ after, tree.run (Store.writeBytes (directory.join (.ofString name)) content)
      = (.ok (), after) ∧ plan.Holds after := by
  have heq := Path.place_join_name directory hname
  have habove : plan.directories directory.place := plan.above _ _ (.inr hplace)
  have hfree : tree.lookup (name :: directory.place) ≠ some .directory :=
    fun hlookup => plan.apart _ (h.directory _ hlookup) hplace
  obtain ⟨between, hmakes, hdevice, hrun⟩ := run_writeBytes_of_clear (hdirectory.join_name hname)
    (Path.dropIdle_join_name directory hname) haccepted (by rw [heq]; exact h.clear habove)
    (by rwa [heq]) h.device
  refine ⟨_, hrun, ?_⟩
  rw [heq] at hmakes ⊢
  have hbetween := h.makes habove hmakes hdevice
  refine ⟨hdevice, ?_, ?_⟩
  · intro l hl
    rw [lookup_put (List.cons_ne_nil _ _)] at hl
    split at hl
    · cases hl
    · exact hbetween.directory l hl
  · intro l content' hl
    rw [lookup_put (List.cons_ne_nil _ _)] at hl
    split at hl
    · rename_i hl'
      exact hl' ▸ hplace
    · exact hbetween.file l content' hl

end Plan

end FileTree

end WaveletPrecision
